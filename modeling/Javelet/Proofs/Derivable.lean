import Javelet.Proofs.Anatomy

namespace Javelet

/-- The phrase stands between two places of a stream. -/
def Phrase.Between (p : Phrase) (c c' : Cursor) : Prop :=
  ∃ ms, c.marks = ms ++ c'.marks ∧ p.Covers ms

namespace Phrase

theorem Between.seq {p q : Phrase} {a b c : Cursor} (first : p.Between a b)
    (second : q.Between b c) : (p ++ q).Between a c := by
  obtain ⟨ms, here, covered⟩ := first
  obtain ⟨ns, there, coveredToo⟩ := second
  refine ⟨ms ++ ns, by rw [here, there, List.append_assoc], ?_⟩
  exact (covers_seq_iff ..).mpr ⟨ms, ns, rfl, covered, coveredToo⟩

theorem Between.symbol {n : Nonterminal} {c c' : Cursor} (h : n.production.Between c c') :
    (Phrase.symbol n).Between c c' := by
  obtain ⟨ms, here, covered⟩ := h
  exact ⟨ms, here, (covers_symbol_iff ..).mpr covered⟩

theorem Between.one {p q : Phrase} {c c' : Cursor} (h : p.Between c c') :
    (p ||| q).Between c c' := by
  obtain ⟨ms, here, covered⟩ := h
  exact ⟨ms, here, (covers_either_iff ..).mpr (.inl covered)⟩

theorem Between.other {p q : Phrase} {c c' : Cursor} (h : q.Between c c') :
    (p ||| q).Between c c' := by
  obtain ⟨ms, here, covered⟩ := h
  exact ⟨ms, here, (covers_either_iff ..).mpr (.inr covered)⟩

theorem between_absent (p : Phrase) (c : Cursor) : p.optional.Between c c :=
  ⟨[], rfl, (covers_optional_iff ..).mpr (.inr rfl)⟩

theorem between_stop (p : Phrase) (c : Cursor) : (many p).Between c c :=
  ⟨[], rfl, (covers_many_iff ..).mpr ⟨[], rfl, List.forall_mem_nil _⟩⟩

theorem Between.more {p : Phrase} {a b c : Cursor} (first : p.Between a b)
    (rest : (many p).Between b c) : (many p).Between a c := by
  obtain ⟨ms, here, covered⟩ := first
  obtain ⟨ns, there, coveredRest⟩ := rest
  obtain ⟨parts, rfl, each⟩ := (covers_many_iff ..).mp coveredRest
  refine ⟨ms ++ parts.flatten, by rw [here, there, List.append_assoc], ?_⟩
  exact (covers_many_iff ..).mpr ⟨ms :: parts, rfl, List.forall_mem_cons.mpr ⟨covered, each⟩⟩

theorem between_assoc (p q r : Phrase) (c c' : Cursor) :
    (p ++ q ++ r).Between c c' ↔ (p ++ (q ++ r)).Between c c' := by
  have same (ms : List Mark) : (p ++ q ++ r).Covers ms ↔ (p ++ (q ++ r)).Covers ms := by
    simp only [covers_seq_iff]
    constructor
    · rintro ⟨_, third, rfl, ⟨first, second, rfl, one, two⟩, three⟩
      exact ⟨first, _, List.append_assoc .., one, second, third, rfl, two, three⟩
    · rintro ⟨first, _, rfl, one, second, third, rfl, two, three⟩
      exact ⟨_, third, (List.append_assoc ..).symm, ⟨first, second, rfl, one, two⟩, three⟩
  simp only [Between, same]

/-- A parameter and the comma behind it, before the other parameters. -/
theorem Between.parameter {a b c : Cursor}
    (first : (Phrase.symbol .parameter ++ punct .comma).Between a b)
    (rest : Nonterminal.parameterList.Between b c) : Nonterminal.parameterList.Between a c := by
  obtain ⟨_, here, covered⟩ := first
  obtain ⟨ns, there, coveredRest⟩ := rest
  obtain ⟨ms, _, rfl, own, comma⟩ := (covers_seq_iff ..).mp covered
  cases (covers_punct_iff ..).mp comma
  refine ⟨_, by rw [here, there, ← List.append_assoc], (covers_parameterList_iff _).mpr (.inr ?_)⟩
  obtain rfl | ⟨second, others, ending, rfl, closed, each⟩ :=
    (covers_parameterList_iff _).mp coveredRest
  · exact ⟨ms, [], _, by simp [Mark.listed], .inl rfl, List.forall_mem_singleton.mpr own⟩
  · refine ⟨ms, second :: others, ending, ?_, closed, List.forall_mem_cons.mpr ⟨own, each⟩⟩
    simp [Mark.listed_cons_cons]

/-- A phrase that is not empty takes the cursor forward. -/
theorem Between.shorter {p : Phrase} {c c' : Cursor} (h : p.Between c c') (solid : p.solid = true) :
    c'.ahead.length < c.ahead.length := by
  obtain ⟨ms, here, covered⟩ := h
  have taken := List.length_pos_iff.mpr (covered.ne_nil solid)
  have lengths := congrArg List.length here
  simp only [Cursor.marks, List.length_append, List.length_map] at lengths
  omega

theorem token_between {fits : Kind → Bool} {c : Cursor} (fit : fits c.kind = true)
    (inside : c.kind ≠ .eof) (counts : c.current.mark.Counts) :
    (token fits).Between c c.advance := by
  refine ⟨[c.current.mark], c.marks_eq_cons inside, ?_⟩
  exact (covers_token_iff ..).mpr ⟨_, by rw [Token.mark_kind]; exact fit, counts, rfl⟩

/-- Apart from a number, a token counts whatever it says. -/
theorem token_between_of_ne {fits : Kind → Bool} {c : Cursor} (fit : fits c.kind = true)
    (inside : c.kind ≠ .eof) (other : c.kind ≠ .number) : (token fits).Between c c.advance := by
  apply token_between fit inside
  have kind := c.current.mark_kind
  cases shown : c.current.mark with
  | number text => rw [shown] at kind; exact absurd kind.symm other
  | _ => trivial

theorem punct_between {p : Punct} {c : Cursor} (h : c.kind = .punct p) :
    (punct p).Between c c.advance :=
  token_between_of_ne (decide_eq_true h) (by simp [h]) (by simp [h])

theorem word_between {w : Keyword} {c : Cursor} (h : c.kind = .keyword w) :
    (word w).Between c c.advance :=
  token_between_of_ne (decide_eq_true h) (by simp [h]) (by simp [h])

theorem name_between {c : Cursor} (h : c.kind = .identifier) : name.Between c c.advance :=
  token_between_of_ne (decide_eq_true h) (by simp [h]) (by simp [h])

end Phrase

namespace Parser
open Phrase (punct word name modifier primitive optional)
open Nonterminal (importClause packageClause fieldMember parameterList methodMember)

variable {α : Type} (g : Grammar)

/-- If it ends well, the cursor has gone over the phrase. -/
def Takes (r : Parser α) (p : Phrase) : Prop := ∀ c a c', r.run c = .ok a c' → p.Between c c'

/-- Takes the phrase for an item, and nothing if there is none. -/
def Offers (item : Parser (Option α)) (p : Phrase) : Prop :=
  ∀ c r c', item.run c = .ok r c' → match r with
    | some _ => p.Between c c'
    | none => c' = c

theorem Offers.shrinks {item : Parser (Option α)} {p : Phrase} (offers : Offers item p)
    (solid : p.solid = true) : Shrinks item :=
  fun c a c' run => (offers c (some a) c' run).shorter solid

theorem expected_takes (message : String) (p : Phrase) :
    Takes (expected message : Parser α) p := by
  intro c a c' run
  cases run

theorem takeOr_takes (message : String) : Takes (take .identifier (expected message)) name := by
  intro c t c' run
  obtain ⟨here, _, rfl⟩ := takeOr_ok run
  exact Phrase.name_between here

theorem expectPunct_takes (p : Punct) : Takes (expectPunct p) (punct p) := by
  intro c t c' run
  obtain ⟨here, _, rfl⟩ := expectPunct_ok run
  exact Phrase.punct_between here

theorem expectWord_takes (w : Keyword) : Takes (expect (.keyword w)) (word w) := by
  intro c t c' run
  obtain ⟨here, _, rfl⟩ := expect_ok run
  exact Phrase.word_between here

theorem many_between {item : Parser (Option α)} {p : Phrase} (offers : Offers item p)
    (solid : p.solid = true) {c c' : Cursor} {as : List α}
    (run : (many item).run c = .ok as c') :
    (Phrase.many p).Between c c' ∧ item.run c' = .ok none c' := by
  have items := many_ok (offers.shrinks solid) run
  clear run
  induction items with
  | none ended =>
    cases offers _ _ _ ended
    exact ⟨Phrase.between_stop p _, ended⟩
  | some ran _ ih => exact ⟨Phrase.Between.more (offers _ _ _ ran) ih.1, ih.2⟩

theorem many_takes {item : Parser (Option α)} {p : Phrase} (offers : Offers item p)
    (solid : p.solid = true) : Takes (many item) (.many p) :=
  fun _ _ _ run => (many_between offers solid run).1

theorem dottedName_offers : Offers dottedName (punct .dot ++ name) := by
  intro c r c' run
  obtain ⟨rfl, rfl⟩ | ⟨dot, identifier, rfl, rfl⟩ := dottedName_ok run
  · rfl
  · exact (Phrase.punct_between dot).seq (Phrase.name_between identifier)

theorem qualifiedName_takes : Takes qualifiedName (.symbol .qualified) := by
  intro c t c' run
  obtain ⟨_, here, dotted, _⟩ := qualifiedName_ok run
  have others := many_takes dottedName_offers rfl _ _ _ dotted
  exact .symbol ((Phrase.name_between here).seq others)

theorem namedType_takes : Takes namedType (.symbol .qualified) := by
  intro c t c' run
  obtain ⟨_, here, dotted, _⟩ := namedType_ok run
  have others := many_takes dottedName_offers rfl _ _ _ dotted
  exact .symbol ((Phrase.name_between here).seq others)

theorem primitiveType_takes : Takes primitiveType primitive := by
  intro c t c' run
  obtain ⟨p, here, rfl, _⟩ := primitiveType_ok run
  exact Phrase.token_between_of_ne (by rw [here]; rfl) (by simp [here]) (by simp [here])

theorem brackets_takes : Takes brackets (punct .openBracket ++ punct .closeBracket) := by
  intro c u c' run
  obtain ⟨opens, closes, rfl⟩ := brackets_ok run
  exact (Phrase.punct_between opens).seq (Phrase.punct_between closes)

theorem typeHead_takes : Takes (typeHead g) (primitive ||| .symbol .qualified) := by
  intro c t c' run
  obtain named | bare := typeHead_ok g run
  · exact (namedType_takes c t c' named).other
  · exact (primitiveType_takes c t c' bare).one

theorem typeSuffix_offers (floor : Power) :
    Offers (typeSuffix g floor) (punct .openBracket ++ punct .closeBracket) := by
  intro c r c' run
  obtain ⟨rfl, rfl⟩ | ⟨u, rfl, ran⟩ := typeSuffix_ok g run
  · rfl
  · exact brackets_takes c u c' ran

theorem typeExpr_takes (floor : Power) : Takes (typeExpr g floor) (.symbol .type) := by
  intro c t c' run
  obtain ⟨head, suffixes, m, begun, suffixed, _⟩ := typeExpr_ok g run
  have arrays := many_takes (typeSuffix_offers g floor) rfl _ _ _ suffixed
  exact .symbol ((typeHead_takes g _ _ _ begun).seq arrays)

theorem primary_takes : Takes primary (.symbol .expression) := by
  intro c e c' run
  apply Phrase.Between.symbol
  obtain ⟨shape, rfl⟩ := primary_ok run
  cases shape with
  | @number value here known =>
    have shown : c.current.mark = .number c.current.value := by rw [Token.mark, here]
    refine (((Phrase.token_between (decide_eq_true here) ?_ ?_).one).one).one.one
    · rw [Cursor.kind, here]
      decide
    · rw [shown, Mark.Counts, known, Option.isSome_some]
  | name here => exact (((Phrase.name_between here).other).one).one.one
  | yes here => exact ((Phrase.word_between here).other).one.one
  | no here => exact (Phrase.word_between here).other.one
  | null here => exact (Phrase.word_between here).other

theorem operand_takes : Takes (operand g) (.symbol .expression) :=
  fun c e c' run => primary_takes c e c' (operand_ok g run)

theorem expression_takes (floor : Power) : Takes (expression g floor) (.symbol .expression) :=
  fun c e c' run => operand_takes g c e c' (expression_ok g run)

theorem initializer_takes :
    Takes (initializer g) (optional (punct .assign ++ .symbol .expression)) := by
  intro c v c' run
  obtain ⟨_, rfl⟩ | ⟨e, _, assign, ran⟩ := initializer_ok g run
  · exact Phrase.between_absent _ _
  · exact ((Phrase.punct_between assign).seq (expression_takes g _ _ _ _ ran)).one

theorem declarator_takes : Takes (declarator g) (.symbol .declarator) := by
  intro c d c' run
  obtain ⟨value, here, valued, _⟩ := declarator_ok g run
  exact .symbol ((Phrase.name_between here).seq (initializer_takes g _ _ _ valued))

theorem nextDeclarator_offers :
    Offers (nextDeclarator g) (punct .comma ++ .symbol .declarator) := by
  intro c r c' run
  obtain ⟨rfl, rfl⟩ | ⟨d, rfl, comma, ran⟩ := nextDeclarator_ok g run
  · rfl
  · exact (Phrase.punct_between comma).seq (declarator_takes g _ _ _ ran)

theorem declarators_takes : Takes (declarators g) (.symbol .declarators) := by
  intro c ds c' run
  obtain ⟨first, others, m, ran, ranOthers, _⟩ := declarators_ok g run
  have rest := many_takes (nextDeclarator_offers g) rfl _ _ _ ranOthers
  exact .symbol ((declarator_takes g _ _ _ ran).seq rest)

theorem localDeclaration_takes :
    Takes (localDeclaration g) (.symbol .type ++ .symbol .declarators ++ punct .semicolon) := by
  intro c d c' run
  obtain ⟨type, ds, m, m', typed, declared, closes, rfl, _⟩ := localDeclaration_ok g run
  have front := (typeExpr_takes g _ _ _ _ typed).seq (declarators_takes g _ _ _ declared)
  exact front.seq (Phrase.punct_between closes)

theorem blockOf_takes {inside : Parser (List Statement)}
    (takes : Takes inside (.many (.symbol .statement))) :
    Takes (blockOf inside) (.symbol .block) := by
  intro c b c' run
  obtain ⟨body, m, opens, ran, closes, rfl, _⟩ := blockOf_ok run
  have front := (Phrase.punct_between opens).seq (takes _ _ _ ran)
  exact .symbol (front.seq (Phrase.punct_between closes))

theorem statementOf_takes {inside : Parser (List Statement)}
    (takes : Takes inside (.many (.symbol .statement))) :
    Takes (statementOf g inside) (.symbol .statement) := by
  intro c s c' run
  apply Phrase.Between.symbol
  obtain ⟨b, ran, _⟩ | ⟨d, ran, _⟩ := statementOf_ok g run
  · exact (blockOf_takes takes c b c' ran).one
  · exact (localDeclaration_takes g c d c' ran).other

theorem nextInBraces_offers {item : Parser α} {p : Phrase} (takes : Takes item p) :
    Offers (nextInBraces item) p := by
  intro c r c' run
  obtain ⟨rfl, rfl⟩ | ⟨a, rfl, ran⟩ := nextInBraces_ok run
  · rfl
  · exact takes c a c' ran

theorem statements_takes (depth : Nat) :
    Takes (statements g depth) (.many (.symbol .statement)) := by
  induction depth with
  | zero => exact expected_takes _ _
  | succ depth ih =>
    rw [statements]
    exact many_takes (nextInBraces_offers (statementOf_takes g ih)) rfl

theorem body_takes : Takes (body g) (.many (.symbol .statement)) :=
  fun c _ _ run => statements_takes g (c.ahead.length + 1) c _ _ run

theorem block_takes : Takes (block g) (.symbol .block) := blockOf_takes (body_takes g)

theorem nextModifier_offers : Offers nextModifier modifier := by
  intro c r c' run
  obtain ⟨rfl, rfl⟩ | ⟨m, rfl, here, rfl⟩ := nextModifier_ok run
  · rfl
  · exact Phrase.token_between_of_ne (by rw [here]; rfl) (by simp [here]) (by simp [here])

theorem modifiers_takes : Takes modifiers (.many modifier) := many_takes nextModifier_offers rfl

theorem parameter_takes : Takes (parameter g) (.symbol .parameter) := by
  intro c p c' run
  obtain ⟨type, m, typed, here, rfl, _⟩ := parameter_ok g run
  exact .symbol ((typeExpr_takes g _ _ _ _ typed).seq (Phrase.name_between here))

theorem nextParameter_shrinks : Shrinks (nextParameter g) := by
  intro c p c' run
  obtain ⟨none, _⟩ | ⟨p, m, _, own, ⟨comma, rfl⟩ | ⟨_, rfl⟩⟩ := nextParameter_ok g run
  · cases none
  · exact ((parameter_takes g _ _ _ own).seq (Phrase.punct_between comma)).shorter rfl
  · exact (parameter_takes g _ _ _ own).shorter rfl

/-- Nothing is read behind the last parameter, so the cursor stays there. -/
theorem Items.eq_of_closed {c c' : Cursor} {ps : List Parameter}
    (items : Items (nextParameter g) ps c c') (closed : c.kind = .punct .closeParen) :
    ps = [] ∧ c' = c := by
  have none := nextParameter_of_closed g closed
  cases items with
  | none ran =>
    cases ran.symm.trans none
    exact ⟨rfl, rfl⟩
  | some ran => cases ran.symm.trans none

theorem parameters_takes : Takes (parameters g) parameterList := by
  intro c ps c' run
  have items := many_ok (nextParameter_shrinks g) run
  clear run
  induction items with
  | none ended =>
    obtain ⟨_, rfl⟩ | ⟨_, _, found, _⟩ := nextParameter_ok g ended
    · exact Phrase.between_absent _ _
    · cases found
  | some ran rest ih =>
    obtain ⟨none, _⟩ | ⟨p, m, _, own, ⟨comma, rfl⟩ | ⟨closed, rfl⟩⟩ := nextParameter_ok g ran
    · cases none
    · exact ((parameter_takes g _ _ _ own).seq (Phrase.punct_between comma)).parameter ih
    · obtain ⟨_, rfl⟩ := rest.eq_of_closed g closed
      obtain ⟨ms, here, covered⟩ := parameter_takes g _ _ _ own
      refine ⟨ms, here, (Phrase.covers_parameterList_iff _).mpr (.inr ?_)⟩
      exact ⟨ms, [], [], by simp [Mark.listed], .inr rfl, List.forall_mem_singleton.mpr covered⟩

theorem methodBody_takes : Takes (methodBody g) (punct .semicolon ||| .symbol .block) := by
  intro c b c' run
  obtain ⟨_, here, rfl⟩ | ⟨b, _, ran⟩ := methodBody_ok g run
  · exact (Phrase.punct_between here).one
  · exact (block_takes g _ _ _ ran).other

theorem method_takes (start : Position) (ms : List Modifier) (type : TypeExpr) :
    Takes (method g start ms type) (name ++ (punct .openParen ++ (parameterList ++
      (punct .closeParen ++ (punct .semicolon ||| .symbol .block))))) := by
  intro c x c' run
  obtain ⟨ps, body, m, here, opens, listed, closes, ran, _⟩ := method_ok g run
  have back := (Phrase.punct_between closes).seq (methodBody_takes g _ _ _ ran)
  have inside := (parameters_takes g _ _ _ listed).seq back
  exact (Phrase.name_between here).seq ((Phrase.punct_between opens).seq inside)

theorem field_takes (start : Position) (ms : List Modifier) (type : TypeExpr) :
    Takes (field g start ms type) (.symbol .declarators ++ punct .semicolon) := by
  intro c x c' run
  obtain ⟨ds, m, declared, closes, rfl, _⟩ := field_ok g run
  exact (declarators_takes g _ _ _ declared).seq (Phrase.punct_between closes)

/-- A class without the modifiers in front of it. -/
theorem classOf_takes {inside : Parser (List Member)}
    (takes : Takes inside (.many (.symbol .member))) (start : Position) (ms : List Modifier) :
    Takes (classOf inside start ms) (word .classWord ++ (name ++ (punct .openCurly ++
      (.many (.symbol .member) ++ punct .closeCurly)))) := by
  intro c k c' run
  obtain ⟨xs, m, word, here, opens, ran, closes, rfl, _⟩ := classOf_ok run
  have members := (takes _ _ _ ran).seq (Phrase.punct_between closes)
  have body := (Phrase.punct_between opens).seq members
  exact (Phrase.word_between word).seq ((Phrase.name_between here).seq body)

theorem typedMember_between {start : Position} {ms : List Modifier} {c c' : Cursor} {x : Member}
    (run : (typedMember g start ms).run c = .ok x c') :
    (Phrase.symbol .type ++ (.symbol .declarators ++ punct .semicolon)).Between c c' ∨
      (Phrase.symbol .type ++ (name ++ (punct .openParen ++ (parameterList ++
        (punct .closeParen ++ (punct .semicolon ||| .symbol .block)))))).Between c c' := by
  obtain ⟨type, m, typed, ⟨f, ran, _⟩ | ⟨y, ran, _⟩⟩ := typedMember_ok g run
  · exact .inl ((typeExpr_takes g _ _ _ _ typed).seq (field_takes g _ _ _ _ _ _ ran))
  · exact .inr ((typeExpr_takes g _ _ _ _ typed).seq (method_takes g _ _ _ _ _ _ ran))

theorem memberOf_takes {inside : Parser (List Member)}
    (takes : Takes inside (.many (.symbol .member))) :
    Takes (memberOf g inside) (.symbol .member) := by
  intro c x c' run
  apply Phrase.Between.symbol
  obtain ⟨_, here, rfl⟩ | ⟨ms, m, ran, ⟨k, own, _⟩ | typed⟩ := memberOf_ok g run
  · exact (((Phrase.punct_between here).one).one).one
  · refine Phrase.Between.one (.one (.other (.symbol ?_)))
    rw [Nonterminal.production]
    simp only [Phrase.between_assoc]
    exact (modifiers_takes _ _ _ ran).seq (classOf_takes takes _ ms _ _ _ own)
  · obtain field | method := typedMember_between g typed
    · refine Phrase.Between.one (.other ?_)
      rw [fieldMember]
      simp only [Phrase.between_assoc]
      exact (modifiers_takes _ _ _ ran).seq field
    · refine Phrase.Between.other ?_
      rw [methodMember]
      simp only [Phrase.between_assoc]
      exact (modifiers_takes _ _ _ ran).seq method

theorem members_takes (depth : Nat) : Takes (members g depth) (.many (.symbol .member)) := by
  induction depth with
  | zero => exact expected_takes _ _
  | succ depth ih =>
    rw [members]
    exact many_takes (nextInBraces_offers (memberOf_takes g ih)) rfl

theorem typeDeclaration_takes : Takes (typeDeclaration g) (.symbol .classDeclaration) := by
  intro c k c' run
  obtain ⟨ms, m, ran, own⟩ := typeDeclaration_ok g run
  refine Phrase.Between.symbol ?_
  rw [Nonterminal.production]
  simp only [Phrase.between_assoc]
  exact (modifiers_takes _ _ _ ran).seq (classOf_takes (members_takes g _) _ ms _ _ _ own)

theorem wildcard_takes : Takes wildcard (optional (punct .dot ++ punct .star)) := by
  intro c all c' run
  obtain ⟨_, rfl⟩ | ⟨dot, star, _, rfl⟩ := wildcard_ok run
  · exact Phrase.between_absent _ _
  · exact ((Phrase.punct_between dot).seq (Phrase.punct_between star)).one

theorem nextImport_offers : Offers nextImport importClause := by
  intro c r c' run
  obtain ⟨rfl, rfl⟩ | ⟨name, all, m, m', here, named, starred, closes, rfl, rfl⟩ :=
    nextImport_ok run
  · rfl
  · dsimp only
    rw [importClause]
    simp only [Phrase.between_assoc]
    have back := (wildcard_takes _ _ _ starred).seq (Phrase.punct_between closes)
    exact (Phrase.word_between here).seq ((qualifiedName_takes _ _ _ named).seq back)

theorem packageName_takes : Takes packageName (optional packageClause) := by
  intro c r c' run
  obtain ⟨_, rfl⟩ | ⟨name, m, here, named, closes, rfl, _⟩ := packageName_ok run
  · exact Phrase.between_absent _ _
  · refine Phrase.Between.one ?_
    rw [packageClause]
    have front := (Phrase.word_between here).seq (qualifiedName_takes _ _ _ named)
    exact front.seq (Phrase.punct_between closes)

theorem nextClass_offers :
    Offers (nextClass g) (punct .semicolon ||| .symbol .classDeclaration) := by
  intro c r c' run
  obtain ⟨rfl, _, rfl⟩ | ⟨rfl, here, rfl⟩ | ⟨k, rfl, ran⟩ := nextClass_ok g run
  · rfl
  · exact (Phrase.punct_between here).one
  · exact (typeDeclaration_takes g _ _ _ ran).other

theorem compilationUnit_between {c c' : Cursor} {u : CompilationUnit}
    (run : (compilationUnit g).run c = .ok u c') :
    (Phrase.symbol .unit).Between c c' ∧ c'.kind = .eof := by
  obtain ⟨package, imports, items, m, m', packaged, imported, declared, _⟩ :=
    compilationUnit_ok g run
  obtain ⟨classes, stopped⟩ := many_between (nextClass_offers g) rfl declared
  have front := (packageName_takes _ _ _ packaged).seq
    (many_takes nextImport_offers rfl _ _ _ imported)
  refine ⟨.symbol (front.seq classes), ?_⟩
  obtain ⟨_, ending, _⟩ | ⟨none, _⟩ | ⟨_, none, _⟩ := nextClass_ok g stopped
  · exact ending
  · cases none
  · cases none

end Parser
end Javelet
