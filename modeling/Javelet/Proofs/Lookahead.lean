import Javelet.Proofs.Anatomy

/-! Whether a statement that begins with a name is a declaration is told from the kinds of the
tokens ahead. This foresight is right: it goes exactly as far as the reader of types would, and it
sees a name there exactly if the reader would come to one. -/
namespace Javelet
namespace Cursor

def kinds (c : Cursor) : List Kind := c.ahead.map (·.kind)

theorem length_kinds (c : Cursor) : c.kinds.length = c.ahead.length := List.length_map ..

theorem kinds_advance (c : Cursor) : c.advance.kinds = c.kinds.tail := by
  rw [kinds, advance_ahead, kinds, List.map_tail]

/-- Apart from the ending's, a kind so many places ahead is that of a token which is there. -/
theorem kindAt_eq_iff {kind : Kind} (proper : kind ≠ .eof) (c : Cursor) (places : Nat) :
    c.kindAt places = kind ↔ c.kinds[places]? = some kind := by
  rw [kindAt, kinds, List.getElem?_map]
  cases c.ahead[places]? with
  | none => simp [proper.symm]
  | some t => simp

theorem lt_of_kindAt {c : Cursor} {kind : Kind} (proper : kind ≠ .eof) {places : Nat}
    (here : c.kindAt places = kind) : places < c.ahead.length := by
  obtain ⟨inside, _⟩ := List.getElem?_eq_some_iff.mp ((kindAt_eq_iff proper ..).mp here)
  rwa [length_kinds] at inside

/-- So many places ahead there is a token of the one kind, and then one of the other. -/
def Faces (c : Cursor) (first second : Kind) (places : Nat) : Prop :=
  c.kindAt places = first ∧ c.kindAt (places + 1) = second

instance (c : Cursor) (first second : Kind) (places : Nat) :
    Decidable (c.Faces first second places) := inferInstanceAs (Decidable (_ ∧ _))

theorem faces_zero_iff (c : Cursor) (first second : Kind) :
    c.Faces first second 0 ↔ c.kind = first ∧ c.advance.kind = second := by
  rw [Faces, kindAt_zero, Nat.zero_add, c.kind_advance rfl]

/-- Looks past all the pairs of such tokens that stand ahead from the given place on. Only for the
ending's kind does it matter that the place has to be before the end. -/
def pastPairs (c : Cursor) (first second : Kind) (places : Nat) : Nat :=
  if places < c.ahead.length ∧ c.Faces first second places then
    c.pastPairs first second (places + 2)
  else places
termination_by c.ahead.length - places

/-- Looks past a type that begins with a name: past the names behind dots, then past brackets. -/
def pastType (c : Cursor) : Nat :=
  c.pastPairs (.punct .openBracket) (.punct .closeBracket)
    (c.pastPairs (.punct .dot) .identifier 1)

/-- Further on, what is next is what could be seen there before. -/
theorem kind_of_drop {c c' : Cursor} {places : Nat} (further : c'.ahead = c.ahead.drop places) :
    c'.kind = c.kindAt places := by
  rw [← kindAt_zero, kindAt, further, List.getElem?_drop, Nat.add_zero, kindAt]

end Cursor

namespace Parser

/-- Takes pairs of two kinds off the front, as long as there are any. -/
structure SkipsPairs (skip : List Kind → List Kind) (first second : Kind) : Prop where
  first_proper : first ≠ .eof
  second_proper : second ≠ .eof
  pair : ∀ kinds, skip (first :: second :: kinds) = skip kinds
  other : ∀ kinds, ¬ (kinds[0]? = some first ∧ kinds[1]? = some second) → skip kinds = kinds

theorem skipDotted_skips : SkipsPairs skipDotted (.punct .dot) .identifier where
  first_proper := nofun
  second_proper := nofun
  pair _ := rfl
  other kinds apart := by
    unfold skipDotted
    split
    · exact absurd ⟨rfl, rfl⟩ apart
    · rfl

theorem skipBrackets_skips :
    SkipsPairs skipBrackets (.punct .openBracket) (.punct .closeBracket) where
  first_proper := nofun
  second_proper := nofun
  pair _ := rfl
  other kinds apart := by
    unfold skipBrackets
    split
    · exact absurd ⟨rfl, rfl⟩ apart
    · rfl

namespace SkipsPairs

variable {α : Type} {skip : List Kind → List Kind} {first second : Kind}

theorem faces_iff (skips : SkipsPairs skip first second) (c : Cursor) (places : Nat) :
    c.Faces first second places ↔
      c.kinds[places]? = some first ∧ c.kinds[places + 1]? = some second := by
  rw [Cursor.Faces, Cursor.kindAt_eq_iff skips.first_proper,
    Cursor.kindAt_eq_iff skips.second_proper]

/-- To take pairs off the front is to go where looking past them leads. -/
theorem drop_eq (skips : SkipsPairs skip first second) (c : Cursor) (places : Nat) :
    skip (c.kinds.drop places) = c.kinds.drop (c.pastPairs first second places) := by
  fun_induction Cursor.pastPairs c first second places with
  | case1 places here ih =>
    obtain ⟨one, two⟩ := (skips.faces_iff c places).mp here.2
    rw [← ih, List.drop_eq_getElem?_toList_append, one, List.drop_eq_getElem?_toList_append, two]
    exact skips.pair _
  | case2 places apart =>
    apply skips.other
    rw [List.getElem?_drop, List.getElem?_drop, Nat.add_zero, ← skips.faces_iff]
    intro here
    exact apart ⟨Cursor.lt_of_kindAt skips.first_proper here.1, here⟩

theorem kinds_eq (skips : SkipsPairs skip first second) {c : Cursor}
    (here : c.Faces first second 0) : c.kinds = first :: second :: c.advance.advance.kinds := by
  obtain ⟨one, two⟩ := (skips.faces_iff c 0).mp here
  rw [Cursor.kinds_advance, Cursor.kinds_advance, ← List.drop_zero (l := c.kinds),
    List.drop_eq_getElem?_toList_append, one, List.drop_eq_getElem?_toList_append, two]
  simp

/-- A loop whose item is such a pair takes all of them. What is next then decides how it ends. -/
theorem upTo_run (skips : SkipsPairs skip first second) {item : Parser (Option α)}
    (takes : ∀ c, c.Faces first second 0 → ∃ a, item.run c = .ok (some a) c.advance.advance)
    {n : Nat} {c : Cursor} (enough : c.ahead.length < n) :
    ∃ items c', c'.ahead <:+ c.ahead ∧ c'.kinds = skip c.kinds ∧ ¬ c'.Faces first second 0 ∧
      (item.run c' = .ok none c' → (upTo item n).run c = .ok items c') ∧
      ∀ e d, item.run c' = .error e d → (upTo item n).run c = .error e d := by
  induction n generalizing c with
  | zero => exact absurd enough (Nat.not_lt_zero _)
  | succ n ih =>
    rw [upTo]
    by_cases here : c.Faces first second 0
    · obtain ⟨a, ran⟩ := takes c here
      have kinds := skips.kinds_eq here
      have shorter : c.ahead.length = c.advance.advance.ahead.length + 2 := by
        rw [← Cursor.length_kinds, kinds, List.length_cons, List.length_cons, Cursor.length_kinds]
      obtain ⟨items, c', later, skipped, apart, stops, fails⟩ :=
        ih (c := c.advance.advance) (by omega)
      refine ⟨a :: items, c', ?_, ?_, apart, ?_, ?_⟩
      · rw [Cursor.advance_ahead, Cursor.advance_ahead] at later
        exact later.trans ((List.tail_suffix _).trans (List.tail_suffix _))
      · rw [skipped, kinds, skips.pair]
      · intro none
        rw [Run.bind_of_ok ran]
        exact Run.bind_of_ok (stops none) _
      · intro e d failed
        rw [Run.bind_of_ok ran]
        exact (Run.bind_error_iff ..).mpr (.inl (fails e d failed))
    · refine ⟨[], c, List.suffix_rfl, ?_, here, ?_, ?_⟩
      · rw [skips.faces_iff] at here
        exact (skips.other _ here).symm
      · exact fun none => Run.bind_of_ok none _
      · exact fun e d failed => (Run.bind_error_iff ..).mpr (.inl failed)

end SkipsPairs

theorem run_get (c : Cursor) : (get : Parser Cursor).run c = .ok c c := rfl

theorem expect_of_kind {wanted : Kind} {c : Cursor} (here : c.kind = wanted) :
    (expect wanted).run c = .ok c.current c.advance := by
  unfold expect take
  rw [Run.bind_of_ok (run_kind c), if_pos here]
  rfl

theorem dottedName_of_faces {c : Cursor} (here : c.Faces (.punct .dot) .identifier 0) :
    dottedName.run c = .ok (some c.advance.current.value) c.advance.advance := by
  rw [Cursor.Faces, Cursor.kindAt_zero] at here
  unfold dottedName
  rw [Run.bind_of_ok (run_get c), if_pos here]
  rfl

theorem dottedName_of_not_faces {c : Cursor} (apart : ¬ c.Faces (.punct .dot) .identifier 0) :
    dottedName.run c = .ok none c := by
  rw [Cursor.Faces, Cursor.kindAt_zero] at apart
  unfold dottedName
  rw [Run.bind_of_ok (run_get c), if_neg apart]
  rfl

/-- Names behind dots are read as far as there are any. This cannot fail: a dot with no name behind
it is left where it is. -/
theorem dottedNames_run (c : Cursor) :
    ∃ names c', (many dottedName).run c = .ok names c' ∧ c'.ahead <:+ c.ahead ∧
      c'.kinds = skipDotted c.kinds := by
  obtain ⟨names, c', later, skipped, apart, stops, _⟩ := skipDotted_skips.upTo_run
    (fun _ here => ⟨_, dottedName_of_faces here⟩) (Nat.lt_succ_self c.ahead.length)
  exact ⟨names, c', stops (dottedName_of_not_faces apart), later, skipped⟩

theorem lowest_lt_typeSuffix_iff (k : Kind) :
    .lowest < Grammar.standard.typeSuffix k ↔ k = .punct .openBracket := by
  constructor
  · intro above
    unfold Grammar.standard at above
    dsimp only at above
    split at above
    · rfl
    · exact absurd above (by decide)
  · rintro rfl
    decide

theorem typeSuffix_of_faces {c : Cursor}
    (here : c.Faces (.punct .openBracket) (.punct .closeBracket) 0) :
    (typeSuffix .standard .lowest).run c = .ok (some ()) c.advance.advance := by
  rw [Cursor.faces_zero_iff] at here
  unfold typeSuffix
  rw [Run.bind_of_ok (run_kind c), if_pos ((lowest_lt_typeSuffix_iff _).mpr here.1),
    Run.map_ok_iff]
  refine ⟨(), ?_, rfl⟩
  unfold brackets expectPunct
  rw [Run.bind_of_ok (expect_of_kind here.1), Run.bind_of_ok (expect_of_kind here.2)]
  rfl

theorem typeSuffix_of_ne {c : Cursor} (other : c.kind ≠ .punct .openBracket) :
    (typeSuffix .standard .lowest).run c = .ok none c := by
  unfold typeSuffix
  rw [Run.bind_of_ok (run_kind c), if_neg (mt (lowest_lt_typeSuffix_iff _).mp other)]
  rfl

theorem exists_error_of_never_ok {α : Type} {r : Parser α} {c : Cursor}
    (never : ∀ a c', r.run c ≠ .ok a c') : ∃ e c', r.run c = .error e c' := by
  cases ran : r.run c with
  | ok a c' => exact absurd ran (never a c')
  | error e c' => exact ⟨e, c', rfl⟩

/-- A bracket that opens must be closed at once. -/
theorem typeSuffix_of_open {c : Cursor} (opened : c.kind = .punct .openBracket)
    (apart : ¬ c.Faces (.punct .openBracket) (.punct .closeBracket) 0) :
    ∃ e d, (typeSuffix .standard .lowest).run c = .error e d := by
  rw [Cursor.faces_zero_iff] at apart
  apply exists_error_of_never_ok
  intro r c' ran
  unfold typeSuffix at ran
  rw [Run.bind_of_ok (run_kind c), if_pos ((lowest_lt_typeSuffix_iff _).mpr opened),
    Run.map_ok_iff] at ran
  obtain ⟨_, ran, _⟩ := ran
  obtain ⟨_, closed, _⟩ := brackets_ok ran
  exact apart ⟨opened, closed⟩

/-- Brackets are read as far as they come in pairs. One that opens and is not closed is an error. -/
theorem typeSuffixes_run (c : Cursor) :
    ∃ c', c'.ahead <:+ c.ahead ∧ c'.kinds = skipBrackets c.kinds ∧
      if c'.kind = .punct .openBracket then
        ∃ e d, (many (typeSuffix .standard .lowest)).run c = .error e d
      else ∃ suffixes, (many (typeSuffix .standard .lowest)).run c = .ok suffixes c' := by
  obtain ⟨suffixes, c', later, skipped, apart, stops, fails⟩ := skipBrackets_skips.upTo_run
    (fun _ here => ⟨_, typeSuffix_of_faces here⟩) (Nat.lt_succ_self c.ahead.length)
  refine ⟨c', later, skipped, ?_⟩
  split
  · obtain ⟨e, d, failed⟩ := typeSuffix_of_open ‹_› apart
    exact ⟨e, d, fails e d failed⟩
  · exact ⟨suffixes, stops (typeSuffix_of_ne ‹_›)⟩

theorem typeHead_run {c : Cursor} (named : c.kind = .identifier) :
    ∃ t c', (typeHead .standard).run c = .ok t c' ∧ c'.ahead <:+ c.ahead ∧
      c'.kinds = skipDotted c.kinds.tail := by
  obtain ⟨names, c', ran, later, skipped⟩ := dottedNames_run c.advance
  rw [Cursor.kinds_advance] at skipped
  rw [Cursor.advance_ahead] at later
  unfold typeHead
  rw [Run.bind_of_ok (run_kind c), named]
  change ∃ t c', namedType.run c = .ok t c' ∧ _
  unfold namedType
  rw [Run.bind_of_ok (expect_of_kind named), Run.bind_of_ok ran]
  cases names <;> exact ⟨_, c', rfl, later.trans (List.tail_suffix _), skipped⟩

theorem skip_eq_drop_pastType (c : Cursor) :
    skipBrackets (skipDotted c.kinds.tail) = c.kinds.drop c.pastType := by
  rw [← List.drop_one, skipDotted_skips.drop_eq, skipBrackets_skips.drop_eq, Cursor.pastType]

/-- From a name on, a type is read as far as the foresight goes, or it fails at a bracket there. -/
theorem typeExpr_run {c : Cursor} (named : c.kind = .identifier) :
    ∃ c', c'.ahead = c.ahead.drop c.pastType ∧
      if c'.kind = .punct .openBracket then
        ∃ e d, (typeExpr .standard .lowest).run c = .error e d
      else ∃ t, (typeExpr .standard .lowest).run c = .ok t c' := by
  obtain ⟨head, m, ran, later, dotted⟩ := typeHead_run named
  obtain ⟨c', latest, skipped, ending⟩ := typeSuffixes_run m
  refine ⟨c', ?_, ?_⟩
  · -- both are ends of the tokens ahead, and of one length since their kinds are the same
    have lengths := congrArg List.length skipped
    rw [dotted, skip_eq_drop_pastType, List.length_drop, c'.length_kinds, c.length_kinds,
      ← List.length_drop] at lengths
    have inside := List.suffix_of_suffix_length_le (latest.trans later)
      (List.drop_suffix c.pastType _) lengths.le
    exact inside.eq_of_length lengths
  · unfold typeExpr
    split at ending
    · obtain ⟨e, d, failed⟩ := ending
      rw [if_pos ‹_›, Run.bind_of_ok ran]
      exact ⟨e, d, (Run.bind_error_iff ..).mpr (.inl failed)⟩
    · obtain ⟨suffixes, ranToo⟩ := ending
      rw [if_neg ‹_›, Run.bind_of_ok ran, Run.bind_of_ok ranToo]
      exact ⟨_, rfl⟩

theorem ahead_of_typeExpr {c c' : Cursor} {t : TypeExpr} (named : c.kind = .identifier)
    (run : (typeExpr .standard .lowest).run c = .ok t c') :
    c'.ahead = c.ahead.drop c.pastType := by
  obtain ⟨m, further, ending⟩ := typeExpr_run named
  split at ending
  · obtain ⟨e, d, failed⟩ := ending
    cases run.symm.trans failed
  · obtain ⟨t, ran⟩ := ending
    cases run.symm.trans ran
    exact further

/-- The reader of types comes to a name exactly if there is one as far ahead as it would go. -/
theorem typeExpr_then_name_iff {c : Cursor} (named : c.kind = .identifier) :
    (∃ t c', (typeExpr .standard .lowest).run c = .ok t c' ∧ c'.kind = .identifier) ↔
      c.kindAt c.pastType = .identifier := by
  constructor
  · rintro ⟨t, c', ran, name⟩
    rw [← name, Cursor.kind_of_drop (ahead_of_typeExpr named ran)]
  · intro name
    obtain ⟨m, further, ending⟩ := typeExpr_run named
    rw [← Cursor.kind_of_drop further] at name
    rw [if_neg (by simp [name])] at ending
    obtain ⟨t, ran⟩ := ending
    exact ⟨t, m, ran, name⟩

theorem startsDeclaration_iff {c : Cursor} (named : c.kind = .identifier) :
    startsDeclaration c.kinds = true ↔ c.kindAt c.pastType = .identifier := by
  have front : c.kinds = .identifier :: c.kinds.tail := by
    rw [← Cursor.kindAt_zero, Cursor.kindAt_eq_iff Kind.noConfusion, ← List.head?_eq_getElem?]
      at named
    exact List.eq_cons_of_mem_head? named
  rw [Cursor.kindAt_eq_iff Kind.noConfusion, ← List.head?_drop, ← skip_eq_drop_pastType, front,
    startsDeclaration, beq_iff_eq, List.tail_cons]

/-- Behind the type of a declaration there is a name. -/
theorem typed_of_localDeclaration {g : Grammar} {c c' : Cursor} {d : LocalDeclaration}
    (run : (localDeclaration g).run c = .ok d c') :
    ∃ t m, (typeExpr g .lowest).run c = .ok t m ∧ m.kind = .identifier := by
  obtain ⟨t, _, m, _, typed, declared, _⟩ := localDeclaration_ok g run
  obtain ⟨_, _, _, first, _⟩ := declarators_ok g declared
  obtain ⟨_, named, _⟩ := declarator_ok g first
  exact ⟨t, m, typed, named⟩

/-- A statement that begins with a name is a declaration, or it is refused. -/
theorem statement_named_iff {c : Cursor} (named : c.kind = .identifier) (s : Statement)
    (c' : Cursor) : (statement .standard).run c = .ok s c' ↔ startsDeclaration c.kinds = true ∧
      ∃ d, s = .declaration d ∧ (localDeclaration .standard).run c = .ok d c' := by
  have free : Grammar.standard.statement c.kind = none := by rw [named]; rfl
  unfold statement statementOf
  rw [Run.bind_of_ok (run_get c), free]
  dsimp only
  rw [← Cursor.kinds]
  cases startsDeclaration c.kinds with
  | true =>
    rw [if_pos rfl, Run.bind_ok_iff]
    simp only [Run.pure_ok_iff, true_and]
    constructor
    · rintro ⟨d, _, declared, rfl, rfl⟩
      exact ⟨d, rfl, declared⟩
    · rintro ⟨d, rfl, declared⟩
      exact ⟨d, c', declared, rfl, rfl⟩
  | false =>
    rw [if_neg Bool.false_ne_true, Run.bind_ok_iff]
    simp only [Run.throw_ok_iff, and_false, exists_false, Bool.false_eq_true, false_and]

/-- To tell a declaration by looking ahead from a name is to foresee how the reader of types fares.
Both agree on whether a name comes behind a type, and how far away. Without one the statement fails,
so a statement that begins with a name is read just as a declaration would be. -/
theorem lookahead_foresees_type (c : Cursor) (named : c.kind = .identifier) :
    let foreseen := startsDeclaration (c.ahead.map (·.kind))
    let read := (typeExpr .standard .lowest).run c
    (foreseen = true ↔ c.kindAt c.pastType = .identifier) ∧
    (foreseen = true ↔ ∃ t c', read = .ok t c' ∧ c'.kind = .identifier) ∧
    (foreseen = true → ∀ t c', read = .ok t c' →
      c'.ahead = c.ahead.drop c.pastType ∧ c.ahead.length = c.pastType + c'.ahead.length) ∧
    (foreseen = false → ∃ e c', (statement .standard).run c = .error e c') ∧
    ∀ s c', (statement .standard).run c = .ok s c' ↔
      ∃ d, s = .declaration d ∧ (localDeclaration .standard).run c = .ok d c' := by
  intro foreseen read
  have seen : foreseen = true ↔ c.kindAt c.pastType = .identifier := startsDeclaration_iff named
  have typed := seen.trans (typeExpr_then_name_iff named).symm
  refine ⟨seen, typed, ?_, ?_, ?_⟩
  · intro ahead t c' ran
    have further := ahead_of_typeExpr named ran
    have inside := Cursor.lt_of_kindAt Kind.noConfusion (seen.mp ahead)
    refine ⟨further, ?_⟩
    rw [further, List.length_drop]
    omega
  · intro unseen
    apply exists_error_of_never_ok
    intro s c' ran
    have declared := ((statement_named_iff named s c').mp ran).1
    exact Bool.false_ne_true (unseen.symm.trans declared)
  · intro s c'
    rw [statement_named_iff named, and_iff_right_iff_imp]
    rintro ⟨d, _, declared⟩
    exact typed.mpr (typed_of_localDeclaration declared)

/-- In front of `a.b[] c;` five tokens are looked past, and `a[].b` is refused. -/
theorem lookahead_foresees_type_sample :
    let before (kinds : List Kind) : Cursor :=
      ⟨kinds.map (⟨·, "", ⟨.unknown, .unknown⟩⟩), .ending .unknown, rfl, .unknown⟩
    let declared := before [.identifier, .punct .dot, .identifier, .punct .openBracket,
      .punct .closeBracket, .identifier, .punct .semicolon]
    let broken := before [.identifier, .punct .openBracket, .punct .closeBracket, .punct .dot,
      .identifier]
    declared.kind = .identifier ∧ declared.pastType = 5 ∧
      (∃ t c', (typeExpr .standard .lowest).run declared = .ok t c' ∧ c'.kind = .identifier) ∧
      broken.kind = .identifier ∧ ∃ e c', (statement .standard).run broken = .error e c' := by
  intro before declared broken
  have past : declared.pastType = 5 := by cbv
  obtain ⟨_, typed, _⟩ := lookahead_foresees_type declared rfl
  obtain ⟨_, _, _, refused, _⟩ := lookahead_foresees_type broken rfl
  exact ⟨rfl, past, typed.mp rfl, rfl, refused rfl⟩

end Parser
end Javelet
