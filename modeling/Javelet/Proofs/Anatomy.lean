import Javelet.Declaration.Parser
import Javelet.Proofs.Marks

/-! What a run of each reader is made of, if it ends well: the tokens that the reader takes itself,
the runs of the readers in it, and what it makes of them. The table of rules has no part in this: it
can make a reader fail, but not take anything else. -/
namespace Javelet

namespace Parser

variable {α : Type} {c c' : Cursor}

theorem run_kind (c : Cursor) : kind.run c = .ok c.kind c := rfl

theorem run_position (c : Cursor) : position.run c = .ok c.position c := rfl

theorem run_advance (c : Cursor) : advance.run c = .ok c.current c.advance := rfl

/-- A reader that asks for the kind of the current token goes one way or the other. -/
theorem branch_ok {k : Kind} {yes no : Parser α} {a : α}
    (run : (do if (← kind) = k then yes else no).run c = .ok a c') :
    c.kind = k ∧ yes.run c = .ok a c' ∨ c.kind ≠ k ∧ no.run c = .ok a c' := by
  rw [Run.bind_of_ok (run_kind c)] at run
  split at run
  · exact .inl ⟨‹_›, run⟩
  · exact .inr ⟨‹_›, run⟩

theorem take_ok {wanted : Kind} {otherwise : Parser Token}
    (fails : ∀ c t c', otherwise.run c ≠ .ok t c') {t : Token}
    (run : (take wanted otherwise).run c = .ok t c') :
    c.kind = wanted ∧ t = c.current ∧ c' = c.advance := by
  unfold take at run
  obtain ⟨here, ran⟩ | ⟨_, ran⟩ := branch_ok run
  · cases ran
    exact ⟨here, rfl, rfl⟩
  · exact absurd ran (fails c t c')

theorem expect_ok {wanted : Kind} {t : Token} (run : (expect wanted).run c = .ok t c') :
    c.kind = wanted ∧ t = c.current ∧ c' = c.advance := by
  apply take_ok _ run
  intro c t c' run
  cases run

theorem takeOr_ok {wanted : Kind} {message : String} {t : Token}
    (run : (take wanted (expected message)).run c = .ok t c') :
    c.kind = wanted ∧ t = c.current ∧ c' = c.advance := by
  apply take_ok _ run
  intro c t c' run
  cases run

theorem expectPunct_ok {p : Punct} {t : Token} (run : (expectPunct p).run c = .ok t c') :
    c.kind = .punct p ∧ t = c.current ∧ c' = c.advance :=
  expect_ok run

theorem refuse_ok {refused : Kind} {construct : String} {u : Unit}
    (run : (refuse refused construct).run c = .ok u c') : c' = c := by
  unfold refuse at run
  obtain ⟨_, ran⟩ | ⟨_, ran⟩ := branch_ok run
  · cases ran
  · cases ran
    rfl

/-- An item that is there takes a token. -/
def Shrinks (item : Parser (Option α)) : Prop :=
  ∀ c a c', item.run c = .ok (some a) c' → c'.ahead.length < c.ahead.length

/-- Items that are read one behind the other, up to where there is none. -/
inductive Items (item : Parser (Option α)) : List α → Cursor → Cursor → Prop
  | none {c c' : Cursor} : item.run c = .ok none c' → Items item [] c c'
  | some {a : α} {as : List α} {c m c' : Cursor} :
      item.run c = .ok (some a) m → Items item as m c' → Items item (a :: as) c c'

/-- The rounds are enough: every item takes a token, so none is left when they are used up. -/
theorem upTo_ok {item : Parser (Option α)} (shrinks : Shrinks item) {n : Nat} {as : List α}
    (enough : c.ahead.length < n) (run : (upTo item n).run c = .ok as c') :
    Items item as c c' := by
  induction n generalizing c as with
  | zero => exact absurd enough (Nat.not_lt_zero _)
  | succ n ih =>
    rw [upTo] at run
    obtain ⟨found, m, ran, further⟩ := (Run.bind_ok_iff ..).mp run
    cases found with
    | none =>
      cases further
      exact .none ran
    | some a =>
      obtain ⟨others, m', ranOthers, ended⟩ := (Run.bind_ok_iff ..).mp further
      cases ended
      have shorter := shrinks c a m ran
      exact .some ran (ih (by omega) ranOthers)

theorem many_ok {item : Parser (Option α)} (shrinks : Shrinks item) {as : List α}
    (run : (many item).run c = .ok as c') : Items item as c c' := by
  unfold many at run
  rw [Run.bind_of_ok (EStateM.run_get c)] at run
  exact upTo_ok shrinks (Nat.lt_succ_self _) run

theorem dottedName_ok {r : Option String} (run : dottedName.run c = .ok r c') :
    r = none ∧ c' = c ∨ c.kind = .punct .dot ∧ c.advance.kind = .identifier ∧
      r = some c.advance.current.value ∧ c' = c.advance.advance := by
  unfold dottedName at run
  rw [Run.bind_of_ok (EStateM.run_get c)] at run
  split at run
  · rename_i here
    cases run
    exact .inr ⟨here.1, c.kind_advance here.2, rfl, rfl⟩
  · cases run
    exact .inl ⟨rfl, rfl⟩

theorem qualifiedName_ok {name : String} (run : qualifiedName.run c = .ok name c') :
    ∃ others, c.kind = .identifier ∧ (many dottedName).run c.advance = .ok others c' ∧
      name = ".".intercalate (c.current.value :: others) := by
  unfold qualifiedName at run
  simp only [Run.bind_ok_iff] at run
  obtain ⟨first, _, named, others, _, dotted, ended⟩ := run
  cases ended
  obtain ⟨here, rfl, rfl⟩ := expect_ok named
  exact ⟨others, here, dotted, rfl⟩

/-- What begins with a name begins where the name does. -/
theorem namedType_ok {t : TypeExpr} (run : namedType.run c = .ok t c') :
    ∃ others, c.kind = .identifier ∧ (many dottedName).run c.advance = .ok others c' ∧
      t.position = c.position := by
  unfold namedType at run
  obtain ⟨first, m, named, further⟩ := (Run.bind_ok_iff ..).mp run
  obtain ⟨others, m', dotted, ended⟩ := (Run.bind_ok_iff ..).mp further
  obtain ⟨here, rfl, rfl⟩ := expect_ok named
  split at ended
  · cases ended
    exact ⟨_, here, dotted, rfl⟩
  · cases ended
    exact ⟨_, here, dotted, rfl⟩

theorem primitiveType_ok {t : TypeExpr} (run : primitiveType.run c = .ok t c') :
    ∃ p, c.kind = .primitive p ∧ c' = c.advance ∧ t = ⟨.primitive p, c.position⟩ := by
  unfold primitiveType at run
  rw [Run.bind_of_ok (run_kind c)] at run
  split at run
  · rename_i p here
    cases run
    exact ⟨p, here, rfl, rfl⟩
  · cases run

theorem brackets_ok {u : Unit} (run : brackets.run c = .ok u c') :
    c.kind = .punct .openBracket ∧ c.advance.kind = .punct .closeBracket ∧
      c' = c.advance.advance := by
  unfold brackets at run
  simp only [Run.bind_ok_iff] at run
  obtain ⟨_, _, opened, _, _, closed, ended⟩ := run
  cases ended
  obtain ⟨opens, _, rfl⟩ := expectPunct_ok opened
  obtain ⟨closes, _, rfl⟩ := expectPunct_ok closed
  exact ⟨opens, closes, rfl⟩

variable (g : Grammar)

theorem typeHead_ok {t : TypeExpr} (run : (typeHead g).run c = .ok t c') :
    namedType.run c = .ok t c' ∨ primitiveType.run c = .ok t c' := by
  unfold typeHead at run
  rw [Run.bind_of_ok (run_kind c)] at run
  split at run
  · exact .inl run
  · exact .inr run
  · cases run

theorem typeSuffix_ok {floor : Power} {r : Option Unit}
    (run : (typeSuffix g floor).run c = .ok r c') :
    r = none ∧ c' = c ∨ ∃ u, r = some u ∧ brackets.run c = .ok u c' := by
  unfold typeSuffix at run
  rw [Run.bind_of_ok (run_kind c)] at run
  split at run
  · obtain ⟨u, ran, rfl⟩ := (Run.map_ok_iff ..).mp run
    exact .inr ⟨u, rfl, ran⟩
  · cases run
    exact .inl ⟨rfl, rfl⟩

theorem typeExpr_ok {floor : Power} {t : TypeExpr} (run : (typeExpr g floor).run c = .ok t c') :
    ∃ head suffixes m, (typeHead g).run c = .ok head m ∧
      (many (typeSuffix g floor)).run m = .ok suffixes c' ∧
      t = suffixes.foldl (fun element _ => element.array) head := by
  unfold typeExpr at run
  simp only [Run.bind_ok_iff] at run
  obtain ⟨head, m, begun, suffixes, _, suffixed, ended⟩ := run
  cases ended
  exact ⟨head, suffixes, m, begun, suffixed, rfl⟩

/-- The expression that a token is. -/
inductive Primary (t : Token) : Expression → Prop
  | number {value : Int32} : t.kind = .number → Number.value? t.value = some value →
      Primary t (.number value t.value t.span)
  | name : t.kind = .identifier → Primary t (.name t.value t.span)
  | yes : t.kind = .keyword .trueWord → Primary t (.boolean true t.span)
  | no : t.kind = .keyword .falseWord → Primary t (.boolean false t.span)
  | null : t.kind = .keyword .nullWord → Primary t (.null t.span)

theorem primary_ok {e : Expression} (run : primary.run c = .ok e c') :
    Primary c.current e ∧ c' = c.advance := by
  unfold primary at run
  rw [Run.bind_of_ok (EStateM.run_get c)] at run
  dsimp only at run
  split at run
  · rename_i here
    split at run
    · rename_i value known
      cases run
      exact ⟨.number here known, rfl⟩
    · cases run
  · rename_i here
    cases run
    exact ⟨.name here, rfl⟩
  · rename_i here
    cases run
    exact ⟨.yes here, rfl⟩
  · rename_i here
    cases run
    exact ⟨.no here, rfl⟩
  · rename_i here
    cases run
    exact ⟨.null here, rfl⟩
  · cases run

theorem refusedOperand_not_ok (c : Cursor) (e : Expression) (c' : Cursor) :
    refusedOperand.run c ≠ .ok e c' := by
  intro run
  unfold refusedOperand at run
  rw [Run.bind_of_ok (run_kind c)] at run
  split at run <;> cases run

theorem operand_ok {e : Expression} (run : (operand g).run c = .ok e c') :
    primary.run c = .ok e c' := by
  unfold operand at run
  rw [Run.bind_of_ok (run_kind c)] at run
  split at run
  · exact run
  · exact absurd run (refusedOperand_not_ok c e c')
  · cases run

theorem expression_ok {floor : Power} {e : Expression}
    (run : (expression g floor).run c = .ok e c') : (operand g).run c = .ok e c' := by
  unfold expression at run
  obtain ⟨found, m, ran, further⟩ := (Run.bind_ok_iff ..).mp run
  rw [Run.bind_of_ok (run_kind m)] at further
  split at further
  · cases further
  · cases further
    exact ran

theorem initializer_ok {value : Option Expression} (run : (initializer g).run c = .ok value c') :
    value = none ∧ c' = c ∨ ∃ e, value = some e ∧ c.kind = .punct .assign ∧
      (expression g .lowest).run c.advance = .ok e c' := by
  unfold initializer at run
  obtain ⟨here, ran⟩ | ⟨_, ran⟩ := branch_ok run
  · rw [Run.bind_of_ok (run_advance c)] at ran
    obtain ⟨e, own, rfl⟩ := (Run.map_ok_iff ..).mp ran
    exact .inr ⟨e, rfl, here, own⟩
  · cases ran
    exact .inl ⟨rfl, rfl⟩

theorem declarator_ok {d : Declarator} (run : (declarator g).run c = .ok d c') :
    ∃ value, c.kind = .identifier ∧ (initializer g).run c.advance = .ok value c' ∧
      d = ⟨c.current.value, value, ⟨c.position, c'.previousEnd⟩⟩ := by
  unfold declarator at run
  simp only [Run.bind_ok_iff] at run
  obtain ⟨name, _, named, _, _, refused, value, _, valued, span, _, ⟨⟩, ended⟩ := run
  cases ended
  obtain ⟨here, rfl, rfl⟩ := takeOr_ok named
  cases refuse_ok refused
  exact ⟨value, here, valued, rfl⟩

theorem nextDeclarator_ok {r : Option Declarator} (run : (nextDeclarator g).run c = .ok r c') :
    r = none ∧ c' = c ∨ ∃ d, r = some d ∧ c.kind = .punct .comma ∧
      (declarator g).run c.advance = .ok d c' := by
  unfold nextDeclarator at run
  obtain ⟨here, ran⟩ | ⟨_, ran⟩ := branch_ok run
  · rw [Run.bind_of_ok (run_advance c)] at ran
    obtain ⟨d, own, rfl⟩ := (Run.map_ok_iff ..).mp ran
    exact .inr ⟨d, rfl, here, own⟩
  · cases ran
    exact .inl ⟨rfl, rfl⟩

theorem declarators_ok {ds : List Declarator} (run : (declarators g).run c = .ok ds c') :
    ∃ first others m, (declarator g).run c = .ok first m ∧
      (many (nextDeclarator g)).run m = .ok others c' ∧ ds = first :: others := by
  unfold declarators at run
  simp only [Run.bind_ok_iff] at run
  obtain ⟨first, m, ran, others, _, ranOthers, ended⟩ := run
  cases ended
  exact ⟨first, others, m, ran, ranOthers, rfl⟩

theorem localDeclaration_ok {d : LocalDeclaration}
    (run : (localDeclaration g).run c = .ok d c') :
    ∃ type ds m m', (typeExpr g .lowest).run c = .ok type m ∧
      (declarators g).run m = .ok ds m' ∧ m'.kind = .punct .semicolon ∧ c' = m'.advance ∧
      d = ⟨type, ds, ⟨c.position, c'.previousEnd⟩⟩ := by
  unfold localDeclaration at run
  rw [Run.bind_of_ok (run_position c)] at run
  simp only [Run.bind_ok_iff] at run
  obtain ⟨type, m, typed, ds, m', declared, _, _, closed, span, _, ⟨⟩, ended⟩ := run
  cases ended
  obtain ⟨closes, _, rfl⟩ := expectPunct_ok closed
  exact ⟨type, ds, m, m', typed, declared, closes, rfl, rfl⟩

theorem blockOf_ok {inside : Parser (List Statement)} {b : Block}
    (run : (blockOf inside).run c = .ok b c') :
    ∃ body m, c.kind = .punct .openCurly ∧ inside.run c.advance = .ok body m ∧
      m.kind = .punct .closeCurly ∧ c' = m.advance ∧
      b = ⟨body, ⟨c.position, c'.previousEnd⟩⟩ := by
  unfold blockOf at run
  simp only [Run.bind_ok_iff] at run
  obtain ⟨opening, _, opened, body, m, ran, _, _, closed, span, _, ⟨⟩, ended⟩ := run
  cases ended
  obtain ⟨opens, rfl, rfl⟩ := expectPunct_ok opened
  obtain ⟨closes, _, rfl⟩ := expectPunct_ok closed
  exact ⟨body, m, opens, ran, closes, rfl, rfl⟩

theorem statementOf_ok {inside : Parser (List Statement)} {s : Statement}
    (run : (statementOf g inside).run c = .ok s c') :
    (∃ b, (blockOf inside).run c = .ok b c' ∧ s = .ofBlock b) ∨
      ∃ d, (localDeclaration g).run c = .ok d c' ∧ s = .declaration d := by
  unfold statementOf at run
  rw [Run.bind_of_ok (EStateM.run_get c)] at run
  split at run
  · obtain ⟨b, _, ran, ended⟩ := (Run.bind_ok_iff ..).mp run
    cases ended
    exact .inl ⟨b, ran, rfl⟩
  · obtain ⟨d, _, ran, ended⟩ := (Run.bind_ok_iff ..).mp run
    cases ended
    exact .inr ⟨d, ran, rfl⟩
  · cases run
  · split at run
    · obtain ⟨d, _, ran, ended⟩ := (Run.bind_ok_iff ..).mp run
      cases ended
      exact .inr ⟨d, ran, rfl⟩
    · obtain ⟨_, _, _, ended⟩ := (Run.bind_ok_iff ..).mp run
      cases ended

theorem nextInBraces_ok {item : Parser α} {r : Option α}
    (run : (nextInBraces item).run c = .ok r c') :
    r = none ∧ c' = c ∨ ∃ a, r = some a ∧ item.run c = .ok a c' := by
  unfold nextInBraces at run
  rw [Run.bind_of_ok (run_kind c)] at run
  split at run
  · cases run
    exact .inl ⟨rfl, rfl⟩
  · cases run
  · obtain ⟨a, ran, rfl⟩ := (Run.map_ok_iff ..).mp run
    exact .inr ⟨a, rfl, ran⟩

theorem nextModifier_ok {r : Option Modifier} (run : nextModifier.run c = .ok r c') :
    r = none ∧ c' = c ∨ ∃ m, r = some m ∧ c.kind = .modifier m ∧ c' = c.advance := by
  unfold nextModifier at run
  rw [Run.bind_of_ok (run_kind c)] at run
  split at run
  · rename_i m here
    cases run
    exact .inr ⟨m, rfl, here, rfl⟩
  · cases run
    exact .inl ⟨rfl, rfl⟩

theorem refuseModifier_ok {u : Unit} (run : refuseModifier.run c = .ok u c') : c' = c := by
  unfold refuseModifier at run
  rw [Run.bind_of_ok (EStateM.run_get c)] at run
  split at run
  · cases run
  · cases run
    rfl

theorem parameter_ok {p : Parameter} (run : (parameter g).run c = .ok p c') :
    ∃ type m, (typeExpr g .lowest).run c = .ok type m ∧ m.kind = .identifier ∧
      c' = m.advance ∧ p = ⟨m.current.value, type, ⟨c.position, c'.previousEnd⟩⟩ := by
  unfold parameter at run
  rw [Run.bind_of_ok (run_position c)] at run
  simp only [Run.bind_ok_iff] at run
  obtain ⟨_, _, unmodified, type, m, typed, _, _, refused, name, _, named, _, _, simple, span, _,
    ⟨⟩, ended⟩ := run
  cases ended
  cases refuseModifier_ok unmodified
  cases refuse_ok refused
  cases refuse_ok simple
  obtain ⟨here, rfl, rfl⟩ := takeOr_ok named
  exact ⟨type, m, typed, here, rfl, rfl⟩

theorem parameterEnd_ok {u : Unit} (run : parameterEnd.run c = .ok u c') :
    c.kind = .punct .comma ∧ c' = c.advance ∨ c.kind = .punct .closeParen ∧ c' = c := by
  unfold parameterEnd at run
  rw [Run.bind_of_ok (run_kind c)] at run
  split at run
  · rename_i comma
    cases run
    exact .inl ⟨comma, rfl⟩
  · rename_i closed
    cases run
    exact .inr ⟨closed, rfl⟩
  · cases run

/-- A parameter is followed by a comma, or by the parenthesis that closes the list. -/
theorem nextParameter_ok {r : Option Parameter} (run : (nextParameter g).run c = .ok r c') :
    r = none ∧ c' = c ∨ ∃ p m, r = some p ∧ (parameter g).run c = .ok p m ∧
      (m.kind = .punct .comma ∧ c' = m.advance ∨ m.kind = .punct .closeParen ∧ c' = m) := by
  unfold nextParameter at run
  obtain ⟨_, ran⟩ | ⟨_, ran⟩ := branch_ok run
  · cases ran
    exact .inl ⟨rfl, rfl⟩
  · simp only [Run.bind_ok_iff] at ran
    obtain ⟨p, m, own, _, _, behind, ended⟩ := ran
    cases ended
    exact .inr ⟨p, m, rfl, own, parameterEnd_ok behind⟩

theorem nextParameter_of_closed (closed : c.kind = .punct .closeParen) :
    (nextParameter g).run c = .ok none c := by
  unfold nextParameter
  rw [Run.bind_of_ok (run_kind c), if_pos closed]
  rfl

theorem refuseThrows_ok {u : Unit} (run : refuseThrows.run c = .ok u c') : c' = c := by
  unfold refuseThrows at run
  rw [Run.bind_of_ok (EStateM.run_get c)] at run
  split at run
  · cases run
  · cases run
    rfl

theorem methodBody_ok {body : Option Block} (run : (methodBody g).run c = .ok body c') :
    body = none ∧ c.kind = .punct .semicolon ∧ c' = c.advance ∨
      ∃ b, body = some b ∧ (block g).run c = .ok b c' := by
  unfold methodBody at run
  obtain ⟨here, ran⟩ | ⟨_, ran⟩ := branch_ok run
  · cases ran
    exact .inl ⟨rfl, here, rfl⟩
  · obtain ⟨b, own, rfl⟩ := (Run.map_ok_iff ..).mp ran
    exact .inr ⟨b, rfl, own⟩

variable {start : Position} {ms : List Modifier}

theorem method_ok {type : TypeExpr} {x : Method}
    (run : (method g start ms type).run c = .ok x c') :
    ∃ ps body m, c.kind = .identifier ∧ c.advance.kind = .punct .openParen ∧
      (parameters g).run c.advance.advance = .ok ps m ∧ m.kind = .punct .closeParen ∧
      (methodBody g).run m.advance = .ok body c' ∧
      x = ⟨ms, type, c.current.value, ps, body, ⟨start, c'.previousEnd⟩⟩ := by
  unfold method at run
  simp only [Run.bind_ok_iff] at run
  obtain ⟨name, _, named, _, _, opened, ps, m, listed, _, _, closed, _, _, refused, _, _,
    throwless, body, _, ran, span, _, ⟨⟩, ended⟩ := run
  cases ended
  obtain ⟨here, rfl, rfl⟩ := expect_ok named
  obtain ⟨opens, _, rfl⟩ := expectPunct_ok opened
  obtain ⟨closes, _, rfl⟩ := expectPunct_ok closed
  cases refuse_ok refused
  cases refuseThrows_ok throwless
  exact ⟨ps, body, m, here, opens, listed, closes, ran, rfl⟩

theorem field_ok {type : TypeExpr} {x : Field} (run : (field g start ms type).run c = .ok x c') :
    ∃ ds m, (declarators g).run c = .ok ds m ∧ m.kind = .punct .semicolon ∧ c' = m.advance ∧
      x = ⟨ms, type, ds, ⟨start, c'.previousEnd⟩⟩ := by
  unfold field at run
  simp only [Run.bind_ok_iff] at run
  obtain ⟨ds, m, declared, _, _, closed, span, _, ⟨⟩, ended⟩ := run
  cases ended
  obtain ⟨closes, _, rfl⟩ := expectPunct_ok closed
  exact ⟨ds, m, declared, closes, rfl, rfl⟩

theorem classOf_ok {inside : Parser (List Member)} {k : Class}
    (run : (classOf inside start ms).run c = .ok k c') :
    ∃ xs m, c.kind = .keyword .classWord ∧ c.advance.kind = .identifier ∧
      c.advance.advance.kind = .punct .openCurly ∧
      inside.run c.advance.advance.advance = .ok xs m ∧ m.kind = .punct .closeCurly ∧
      c' = m.advance ∧ k = ⟨c.advance.current.value, ms, xs.filterMap Member.field?,
        xs.filterMap Member.method?, xs.filterMap Member.nested?, ⟨start, c'.previousEnd⟩⟩ := by
  unfold classOf at run
  simp only [Run.bind_ok_iff] at run
  obtain ⟨_, _, worded, name, _, named, _, _, refused, _, _, refused', _, _, refused'', _, _,
    opened, xs, m, ran, _, _, closed, span, _, ⟨⟩, ended⟩ := run
  cases ended
  obtain ⟨word, _, rfl⟩ := expect_ok worded
  obtain ⟨here, rfl, rfl⟩ := takeOr_ok named
  cases refuse_ok refused
  cases refuse_ok refused'
  cases refuse_ok refused''
  obtain ⟨opens, _, rfl⟩ := expectPunct_ok opened
  obtain ⟨closes, _, rfl⟩ := expectPunct_ok closed
  exact ⟨xs, m, word, here, opens, ran, closes, rfl, rfl⟩

theorem typedMember_ok {x : Member} (run : (typedMember g start ms).run c = .ok x c') :
    ∃ type m, (typeExpr g .lowest).run c = .ok type m ∧
      ((∃ f, (field g start ms type).run m = .ok f c' ∧ x = .field f) ∨
        ∃ y, (method g start ms type).run m = .ok y c' ∧ x = .method y) := by
  unfold typedMember at run
  obtain ⟨type, m, typed, further⟩ := (Run.bind_ok_iff ..).mp run
  rw [Run.bind_of_ok (EStateM.run_get m)] at further
  refine ⟨type, m, typed, ?_⟩
  split at further
  · obtain ⟨y, _, ran, ended⟩ := (Run.bind_ok_iff ..).mp further
    cases ended
    exact .inr ⟨y, ran, rfl⟩
  · split at further
    · cases further
    · obtain ⟨f, _, ran, ended⟩ := (Run.bind_ok_iff ..).mp further
      cases ended
      exact .inl ⟨f, ran, rfl⟩

theorem memberOf_ok {inside : Parser (List Member)} {x : Member}
    (run : (memberOf g inside).run c = .ok x c') :
    x = .empty ∧ c.kind = .punct .semicolon ∧ c' = c.advance ∨
      ∃ ms m, modifiers.run c = .ok ms m ∧
        ((∃ k, (classOf inside c.position ms).run m = .ok k c' ∧ x = .nested k) ∨
          (typedMember g c.position ms).run m = .ok x c') := by
  unfold memberOf at run
  obtain ⟨here, ran⟩ | ⟨_, ran⟩ := branch_ok run
  · cases ran
    exact .inl ⟨rfl, here, rfl⟩
  · rw [Run.bind_of_ok (run_position c)] at ran
    obtain ⟨ms, m, modified, further⟩ := (Run.bind_ok_iff ..).mp ran
    rw [Run.bind_of_ok (EStateM.run_get m)] at further
    refine .inr ⟨ms, m, modified, ?_⟩
    split at further
    · obtain ⟨k, _, own, ended⟩ := (Run.bind_ok_iff ..).mp further
      cases ended
      exact .inl ⟨k, own, rfl⟩
    · cases further
    · cases further
    · cases further
    · split at further
      · cases further
      · exact .inr further
    · exact .inr further

theorem typeDeclaration_ok {k : Class} (run : (typeDeclaration g).run c = .ok k c') :
    ∃ ms m, modifiers.run c = .ok ms m ∧
      (classOf (members g (m.ahead.length + 1)) c.position ms).run m = .ok k c' := by
  unfold typeDeclaration at run
  rw [Run.bind_of_ok (run_position c)] at run
  obtain ⟨ms, m, ran, further⟩ := (Run.bind_ok_iff ..).mp run
  rw [Run.bind_of_ok (EStateM.run_get m)] at further
  split at further
  · exact ⟨ms, m, ran, further⟩
  · cases further
  · cases further
  · cases further

theorem wildcard_ok {all : String} (run : wildcard.run c = .ok all c') :
    all = "" ∧ c' = c ∨ c.kind = .punct .dot ∧ c.advance.kind = .punct .star ∧ all = ".*" ∧
      c' = c.advance.advance := by
  unfold wildcard at run
  rw [Run.bind_of_ok (EStateM.run_get c)] at run
  split at run
  · rename_i here
    cases run
    exact .inr ⟨here.1, c.kind_advance here.2, rfl, rfl⟩
  · cases run
    exact .inl ⟨rfl, rfl⟩

theorem nextImport_ok {r : Option Import} (run : nextImport.run c = .ok r c') :
    r = none ∧ c' = c ∨ ∃ name all m m', c.kind = .keyword .importWord ∧
      qualifiedName.run c.advance = .ok name m ∧ wildcard.run m = .ok all m' ∧
      m'.kind = .punct .semicolon ∧ c' = m'.advance ∧
      r = some ⟨name ++ all, ⟨c.position, c'.previousEnd⟩⟩ := by
  unfold nextImport at run
  obtain ⟨here, ran⟩ | ⟨_, ran⟩ := branch_ok run
  · obtain ⟨i, own, rfl⟩ := (Run.map_ok_iff ..).mp ran
    unfold importDeclaration at own
    rw [Run.bind_of_ok (run_advance c)] at own
    simp only [Run.bind_ok_iff] at own
    obtain ⟨name, m, named, all, m', starred, _, _, closed, span, _, ⟨⟩, ended⟩ := own
    cases ended
    obtain ⟨closes, _, rfl⟩ := expectPunct_ok closed
    exact .inr ⟨name, all, m, m', here, named, starred, closes, rfl, rfl⟩
  · cases ran
    exact .inl ⟨rfl, rfl⟩

theorem packageName_ok {r : Option String} (run : packageName.run c = .ok r c') :
    r = none ∧ c' = c ∨ ∃ name m, c.kind = .keyword .packageWord ∧
      qualifiedName.run c.advance = .ok name m ∧ m.kind = .punct .semicolon ∧
      c' = m.advance ∧ r = some name := by
  unfold packageName at run
  obtain ⟨here, ran⟩ | ⟨_, ran⟩ := branch_ok run
  · rw [Run.bind_of_ok (run_advance c)] at ran
    simp only [Run.bind_ok_iff] at ran
    obtain ⟨name, m, named, _, _, closed, ended⟩ := ran
    cases ended
    obtain ⟨closes, _, rfl⟩ := expectPunct_ok closed
    exact .inr ⟨name, m, here, named, closes, rfl, rfl⟩
  · cases ran
    exact .inl ⟨rfl, rfl⟩

/-- Classes are read up to the end. -/
theorem nextClass_ok {r : Option (Option Class)} (run : (nextClass g).run c = .ok r c') :
    r = none ∧ c.kind = .eof ∧ c' = c ∨ r = some none ∧ c.kind = .punct .semicolon ∧
      c' = c.advance ∨ ∃ k, r = some (some k) ∧ (typeDeclaration g).run c = .ok k c' := by
  unfold nextClass at run
  rw [Run.bind_of_ok (run_kind c)] at run
  split at run
  · rename_i here
    cases run
    exact .inl ⟨rfl, here, rfl⟩
  · rename_i here
    cases run
    exact .inr (.inl ⟨rfl, here, rfl⟩)
  · obtain ⟨k, _, ran, ended⟩ := (Run.bind_ok_iff ..).mp run
    cases ended
    exact .inr (.inr ⟨k, rfl, ran⟩)

theorem compilationUnit_ok {u : CompilationUnit} (run : (compilationUnit g).run c = .ok u c') :
    ∃ package imports items m m', packageName.run c = .ok package m ∧
      (many nextImport).run m = .ok imports m' ∧ (many (nextClass g)).run m' = .ok items c' ∧
      u = ⟨package, imports, items.filterMap id, ⟨c.position, c'.previousEnd⟩⟩ := by
  unfold compilationUnit at run
  rw [Run.bind_of_ok (run_position c)] at run
  simp only [Run.bind_ok_iff] at run
  obtain ⟨package, m, packaged, imports, m', imported, items, _, declared, span, _, ⟨⟩, ended⟩ :=
    run
  cases ended
  exact ⟨package, imports, items, m, m', packaged, imported, declared, rfl⟩

end Parser

/-- The unit that is read, and the place where its reader ends. -/
theorem CompilationUnit.exists_run_of_ofTokens {tokens : List Token} {file : String}
    {u : CompilationUnit} (parsed : ofTokens tokens file = .ok u) :
    ∃ c, (Parser.compilationUnit .standard).run (.ofTokens tokens file) = .ok u c := by
  unfold ofTokens at parsed
  split at parsed
  · rename_i unit c run
    cases parsed
    exact ⟨c, run⟩
  · cases parsed

end Javelet
