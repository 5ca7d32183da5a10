import Javelet.Proofs.Relocation
import Javelet.Proofs.Rounds

/-! Two runs of a reader side by side. A reader finds out about its stream one token at a time, and
from a token it goes by the kind. So it is enough to know of two streams how they look token by
token: whatever is kept by a step over one token is kept by every reader. -/
namespace Javelet

/-- The kinds of tokens that can stop every reader. -/
def Kind.bars : Kind → Bool
  | .eof | .number => true
  | _ => false

/-- How two streams look to readers that go through them side by side. The places of the second are
those of the first, moved. At an ending or at a number the two can differ otherwise, but not in
kind. -/
structure Lockstep where
  move : Relocation
  /-- The two readers can be at these places at the same time. -/
  level : Cursor → Cursor → Prop
  /-- The two can end at these places, in these errors. -/
  fails : Error → Cursor → Error → Cursor → Prop
  /-- The first can end at this place in this error, whatever the second does. -/
  stops : Error → Cursor → Prop
  kind_eq : ∀ {c d}, level c d → d.kind = c.kind
  position_eq : ∀ {c d}, level c d → d.position = move.start c.position
  previousEnd_eq : ∀ {c d}, level c d → d.previousEnd = move.stop c.previousEnd
  step : ∀ {c d}, level c d → c.kind.bars = false →
    d.current = c.current.move move ∧ level c.advance d.advance
  number : ∀ {c d}, level c d → c.kind = .number →
    (Number.value? c.current.value = none ∧ stops ⟨.badNumber c.current.value, c.position⟩ c) ∨
    (d.current = c.current.move move ∧ level c.advance d.advance ∧
      (Number.value? c.current.value = none →
        fails ⟨.badNumber c.current.value, c.position⟩ c
          ⟨.badNumber c.current.value, move.start c.position⟩ d))
  declares : ∀ {c d}, level c d → Parser.startsDeclaration (d.ahead.map (·.kind)) =
    Parser.startsDeclaration (c.ahead.map (·.kind))
  unexpected : ∀ {c d}, level c d → fails c.unexpected c d.unexpected d
  expected : ∀ {c d}, level c d → ∀ message, fails (c.expected message) c (d.expected message) d
  throws : ∀ {c d e}, level c d → (∀ text, e.cause ≠ .badNumber text) → fails e c (e.move move) d

namespace Lockstep

variable {L : Lockstep} {c d : Cursor}

theorem kindAt_one (level : L.level c d) (free : c.kind.bars = false) :
    d.kindAt 1 = c.kindAt 1 := by
  rw [← c.kind_advance rfl, ← d.kind_advance rfl]
  exact L.kind_eq (L.step level free).2

/-- A look at the current token and the one behind it. -/
theorem leads_iff (level : L.level c d) {k : Kind} (free : k.bars = false) (k' : Kind) :
    d.kind = k ∧ d.kindAt 1 = k' ↔ c.kind = k ∧ c.kindAt 1 = k' := by
  rw [L.kind_eq level]
  apply and_congr_right
  rintro rfl
  rw [kindAt_one level free]

end Lockstep

namespace Parser

variable {α β : Type} {L : Lockstep}

/-- How two runs end: both well, at the same time and with the result of the first moved, or both in
an error, or the first in an error that stops it. -/
inductive Meets (L : Lockstep) (f : α → α) :
    EStateM.Result Error Cursor α → EStateM.Result Error Cursor α → Prop where
  | ok {a b : α} {c d : Cursor} : b = f a → L.level c d → Meets L f (.ok a c) (.ok b d)
  | error {e e' : Error} {c d : Cursor} : L.fails e c e' d →
      Meets L f (.error e c) (.error e' d)
  | stopped {e : Error} {c : Cursor} {other : EStateM.Result Error Cursor α} : L.stops e c →
      Meets L f (.error e c) other

/-- Started side by side, the two readers end so, and the result of the second is that of the first
after `f`. -/
def InStep (L : Lockstep) (f : α → α) (r r' : Parser α) : Prop :=
  ∀ c d, L.level c d → Meets L f (r.run c) (r'.run d)

theorem Meets.bind {f : α → α} {h : β → β} {r r' : Parser α} {k k' : α → Parser β} {c d : Cursor}
    (first : Meets L f (r.run c) (r'.run d)) (further : ∀ a, InStep L h (k a) (k' (f a))) :
    Meets L h ((r >>= k).run c) ((r' >>= k').run d) := by
  rw [EStateM.run_bind, EStateM.run_bind]
  generalize r.run c = left at first
  generalize r'.run d = right at first
  cases first with
  | ok same level =>
    subst same
    exact further _ _ _ level
  | error together => exact .error together
  | stopped alone => exact .stopped alone

theorem InStep.bind {f : α → α} {h : β → β} {r r' : Parser α} {k k' : α → Parser β}
    (first : InStep L f r r') (further : ∀ a, InStep L h (k a) (k' (f a))) :
    InStep L h (r >>= k) (r' >>= k') :=
  fun c d level => (first c d level).bind further

theorem InStep.pure {f : α → α} {a b : α} (same : b = f a) :
    InStep L f (Pure.pure a) (Pure.pure b) :=
  fun _ _ level => .ok same level

theorem Meets.map {f : α → α} {h : β → β} {r r' : Parser α} {k : α → β} {c d : Cursor}
    (first : Meets L f (r.run c) (r'.run d)) (same : ∀ a, k (f a) = h (k a)) :
    Meets L h ((k <$> r).run c) ((k <$> r').run d) := by
  rw [map_eq_pure_bind, map_eq_pure_bind]
  exact first.bind fun a => .pure (same a)

theorem InStep.map {f : α → α} {h : β → β} {r r' : Parser α} {k : α → β} (first : InStep L f r r')
    (same : ∀ a, k (f a) = h (k a)) : InStep L h (k <$> r) (k <$> r') :=
  fun c d level => (first c d level).map same

/-- Only numbers are called bad, and only by their own reader. -/
theorem InStep.throw {f : α → α} {e e' : Error} (moved : e' = e.move L.move)
    (proper : ∀ text, e.cause ≠ .badNumber text) : InStep L f (throw e) (throw e') := by
  intro c d level
  rw [moved]
  exact .error (L.throws level proper)

/-- Readers that go by the cursor. -/
theorem InStep.look {f : α → α} {k k' : Cursor → Parser α}
    (each : ∀ c d, L.level c d → Meets L f ((k c).run c) ((k' d).run d)) :
    InStep L f (get >>= k) (get >>= k') :=
  each

/-- Readers that go by the kind of the current token. -/
theorem InStep.sort {f : α → α} {k k' : Kind → Parser α}
    (each : ∀ c d, L.level c d → Meets L f ((k c.kind).run c) ((k' c.kind).run d)) :
    InStep L f (kind >>= k) (kind >>= k') := by
  intro c d level
  rw [Run.bind_of_ok (run_kind c), Run.bind_of_ok (run_kind d), L.kind_eq level]
  exact each c d level

theorem kind_inStep : InStep L id kind kind := by
  apply InStep.look
  intro c d level
  exact .ok (L.kind_eq level) level

theorem position_inStep : InStep L L.move.start position position := by
  apply InStep.look
  intro c d level
  exact .ok (L.position_eq level) level

theorem spanFrom_inStep (start : Position) :
    InStep L (Span.move L.move) (spanFrom start) (spanFrom (L.move.start start)) := by
  apply InStep.look
  intro c d level
  refine .ok ?_ level
  rw [L.previousEnd_eq level]
  rfl

/-- A token that can be gone over. -/
theorem advance_meets {c d : Cursor} (level : L.level c d) (free : c.kind.bars = false) :
    Meets L (Token.move L.move) (advance.run c) (advance.run d) := by
  obtain ⟨same, further⟩ := L.step level free
  exact .ok same further

theorem unexpected_inStep {f : α → α} : InStep L f unexpected unexpected :=
  fun _ _ level => .error (L.unexpected level)

theorem expected_inStep {f : α → α} (message : String) :
    InStep L f (expected message) (expected message) :=
  fun _ _ level => .error (L.expected level message)

theorem unsupported_inStep {f : α → α} (construct : String) :
    InStep L f (unsupported construct) (unsupported construct) := by
  intro c d level
  apply InStep.throw _ (by simp [Cursor.unsupported]) c d level
  rw [Cursor.unsupported, L.position_eq level]
  rfl

theorem take_inStep {wanted : Kind} (free : wanted.bars = false) {otherwise : Parser Token}
    (fails : InStep L (Token.move L.move) otherwise otherwise) :
    InStep L (Token.move L.move) (take wanted otherwise) (take wanted otherwise) := by
  apply InStep.sort
  intro c d level
  split
  · rename_i here
    exact advance_meets level (here ▸ free)
  · exact fails c d level

theorem expect_inStep {wanted : Kind} (free : wanted.bars = false) :
    InStep L (Token.move L.move) (expect wanted) (expect wanted) :=
  take_inStep free unexpected_inStep

theorem expectPunct_inStep (p : Punct) :
    InStep L (Token.move L.move) (expectPunct p) (expectPunct p) :=
  expect_inStep rfl

theorem refuse_inStep (refused : Kind) (construct : String) :
    InStep L id (refuse refused construct) (refuse refused construct) := by
  apply kind_inStep.bind
  intro k
  dsimp only [id]
  split
  · exact unsupported_inStep construct
  · exact .pure rfl

theorem upTo_inStep {f : α → α} {item : Parser (Option α)}
    (each : InStep L (Option.map f) item item) (n : Nat) :
    InStep L (List.map f) (upTo item n) (upTo item n) := by
  induction n with
  | zero => exact .pure rfl
  | succ n ih =>
    apply each.bind
    intro found
    cases found with
    | none => exact .pure rfl
    | some a =>
      apply ih.bind
      intro rest
      exact .pure rfl

/-- The two streams may be of different lengths, but both bounds on the rounds are enough. -/
theorem many_inStep {f : α → α} {item : Parser (Option α)} (shrinks : Shrinks item)
    (each : InStep L (Option.map f) item item) : InStep L (List.map f) (many item) (many item) := by
  intro c d level
  let n := c.ahead.length + d.ahead.length + 1
  have enough (e : Cursor) (short : e.ahead.length < n) :
      (many item).run e = (upTo item n).run e :=
    many_enough shrinks (fun _ _ => rfl) short
  rw [enough c (by omega), enough d (by omega)]
  exact upTo_inStep each n c d level

/-- Items that have no place of their own. -/
theorem many_inStep_id {item : Parser (Option α)} (shrinks : Shrinks item)
    (each : InStep L id item item) : InStep L id (many item) (many item) := by
  have rows := many_inStep (f := id) shrinks (by rwa [Option.map_id])
  rwa [List.map_id_fun] at rows

/-- A token of the kind and what is behind it, if it is there. -/
theorem InStep.taking {f : α → α} {k : Kind} (free : k.bars = false) {r r' : Token → Parser α}
    {otherwise otherwise' : Parser α} (further : ∀ t, InStep L f (r t) (r' (t.move L.move)))
    (fails : InStep L f otherwise otherwise') :
    InStep L f (do if (← kind) = k then r (← advance) else otherwise)
      (do if (← kind) = k then r' (← advance) else otherwise') := by
  apply InStep.sort
  intro c d level
  split
  · rename_i here
    exact (advance_meets level (here ▸ free)).bind further
  · exact fails c d level

/-- Two tokens of the kinds and what is behind them, if both are there. -/
theorem InStep.takingTwo {f : α → α} {k k' : Kind} (free : k.bars = false) (free' : k'.bars = false)
    {r : Token → Parser α} {otherwise : Parser α}
    (further : ∀ t, InStep L f (r t) (r (t.move L.move))) (fails : InStep L f otherwise otherwise) :
    let reader : Parser α := do
      let cursor ← get
      if cursor.kind = k ∧ cursor.kindAt 1 = k' then
        let _ ← advance
        r (← advance)
      else otherwise
    InStep L f reader reader := by
  apply InStep.look
  intro c d level
  simp only [Lockstep.leads_iff level free]
  split
  · rename_i leads
    have behind := (L.step level (leads.1 ▸ free)).2
    rw [Run.bind_of_ok (run_advance c), Run.bind_of_ok (run_advance d)]
    exact (advance_meets behind (c.kind_advance leads.2 ▸ free')).bind further
  · exact fails c d level

theorem dottedName_inStep : InStep L id dottedName dottedName :=
  .takingTwo rfl rfl (fun _ => .pure rfl) (.pure rfl)

theorem dottedNames_inStep : InStep L id (many dottedName) (many dottedName) :=
  many_inStep_id (dottedName_offers.shrinks rfl) dottedName_inStep

theorem qualifiedName_inStep : InStep L id qualifiedName qualifiedName := by
  apply (expect_inStep rfl).bind
  intro first
  apply dottedNames_inStep.bind
  intro others
  exact .pure rfl

theorem namedType_inStep : InStep L (TypeExpr.move L.move) namedType namedType := by
  apply (expect_inStep rfl).bind
  intro first
  apply dottedNames_inStep.bind
  intro others
  cases others with
  | nil => exact .pure rfl
  | cons => exact .pure rfl

theorem primitiveType_inStep : InStep L (TypeExpr.move L.move) primitiveType primitiveType := by
  apply InStep.sort
  intro c d level
  split
  · rename_i p here
    exact (advance_meets level (here ▸ rfl)).bind fun _ => .pure rfl
  · exact expected_inStep _ c d level

theorem brackets_inStep : InStep L id brackets brackets := by
  apply (expectPunct_inStep _).bind
  intro opening
  apply (expectPunct_inStep _).bind
  intro closing
  exact .pure rfl

variable (g : Grammar)

theorem typeHead_inStep : InStep L (TypeExpr.move L.move) (typeHead g) (typeHead g) := by
  apply kind_inStep.bind
  intro k
  dsimp only [id]
  split
  · exact namedType_inStep
  · exact primitiveType_inStep
  · exact expected_inStep _

theorem typeSuffix_inStep (floor : Power) :
    InStep L id (typeSuffix g floor) (typeSuffix g floor) := by
  apply kind_inStep.bind
  intro k
  dsimp only [id]
  split
  · exact brackets_inStep.map fun _ => rfl
  · exact .pure rfl

theorem typeSuffixes_inStep (floor : Power) :
    InStep L id (many (typeSuffix g floor)) (many (typeSuffix g floor)) :=
  many_inStep_id ((typeSuffix_offers g floor).shrinks rfl) (typeSuffix_inStep g floor)

theorem foldl_array_move {r : Relocation} (suffixes : List Unit) (head : TypeExpr) :
    suffixes.foldl (fun element _ => element.array) (head.move r) =
      (suffixes.foldl (fun element _ => element.array) head).move r := by
  induction suffixes generalizing head with
  | nil => rfl
  | cons suffix rest ih => exact ih head.array

theorem typeExpr_inStep (floor : Power) :
    InStep L (TypeExpr.move L.move) (typeExpr g floor) (typeExpr g floor) := by
  apply (typeHead_inStep g).bind
  intro head
  apply (typeSuffixes_inStep g floor).bind
  intro suffixes
  exact .pure (foldl_array_move suffixes head)

/-- The only reader that goes over numbers. -/
theorem primary_inStep : InStep L (Expression.move L.move) primary primary := by
  apply InStep.look
  intro c d level
  have literal {f : Span → Expression} (moved : ∀ span, f (span.move L.move) = (f span).move L.move)
      (same : d.current = c.current.move L.move) (further : L.level c.advance d.advance) :
      Meets L (Expression.move L.move) ((do return f (← advance).span : Parser _).run c)
        ((do return f (← advance).span : Parser _).run d) := by
    refine .ok ?_ further
    rw [same]
    exact moved c.current.span
  have passed {k : Kind} (here : c.kind = k) (free : k.bars = false) :
      d.current = c.current.move L.move ∧ L.level c.advance d.advance :=
    L.step level (here ▸ free)
  dsimp only
  rw [L.position_eq level, show d.current.kind = c.current.kind from L.kind_eq level]
  split
  · rename_i here
    obtain ⟨bad, alone⟩ | ⟨same, further, together⟩ := L.number level here
    · rw [bad]
      exact .stopped alone
    · rw [same]
      dsimp only [Token.move]
      split
      · exact literal (fun _ => rfl) same further
      · rename_i bad
        exact .error (together bad)
  · rename_i here
    obtain ⟨same, further⟩ := passed here rfl
    rw [same]
    exact literal (fun _ => rfl) same further
  · rename_i here
    exact (passed here rfl).elim (literal fun _ => rfl)
  · rename_i here
    exact (passed here rfl).elim (literal fun _ => rfl)
  · rename_i here
    exact (passed here rfl).elim (literal fun _ => rfl)
  · exact unexpected_inStep c d level

theorem refusedOperand_inStep :
    InStep L (Expression.move L.move) refusedOperand refusedOperand := by
  apply kind_inStep.bind
  intro k
  dsimp only [id]
  split <;> exact unsupported_inStep _

theorem operand_inStep : InStep L (Expression.move L.move) (operand g) (operand g) := by
  apply kind_inStep.bind
  intro k
  dsimp only [id]
  split
  · exact primary_inStep
  · exact refusedOperand_inStep
  · exact unexpected_inStep

theorem expression_inStep (floor : Power) :
    InStep L (Expression.move L.move) (expression g floor) (expression g floor) := by
  apply (operand_inStep g).bind
  intro value
  apply kind_inStep.bind
  intro k
  dsimp only [id]
  split
  · exact kind_inStep.bind fun k => unsupported_inStep _
  · exact .pure rfl

theorem initializer_inStep :
    InStep L (Option.map (Expression.move L.move)) (initializer g) (initializer g) :=
  .taking rfl (fun _ => (expression_inStep g .lowest).map fun _ => rfl) (.pure rfl)

theorem declarator_inStep : InStep L (Declarator.move L.move) (declarator g) (declarator g) := by
  apply (take_inStep rfl (expected_inStep _)).bind
  intro name
  apply (refuse_inStep _ _).bind
  intro _
  apply (initializer_inStep g).bind
  intro value
  apply (spanFrom_inStep name.span.start).bind
  intro span
  exact .pure rfl

theorem nextDeclarator_inStep :
    InStep L (Option.map (Declarator.move L.move)) (nextDeclarator g) (nextDeclarator g) :=
  .taking rfl (fun _ => (declarator_inStep g).map fun _ => rfl) (.pure rfl)

theorem declarators_inStep :
    InStep L (List.map (Declarator.move L.move)) (declarators g) (declarators g) := by
  apply (declarator_inStep g).bind
  intro first
  apply (many_inStep ((nextDeclarator_offers g).shrinks rfl) (nextDeclarator_inStep g)).bind
  intro others
  exact .pure rfl

theorem localDeclaration_inStep :
    InStep L (LocalDeclaration.move L.move) (localDeclaration g) (localDeclaration g) := by
  apply position_inStep.bind
  intro start
  apply (typeExpr_inStep g .lowest).bind
  intro type
  apply (declarators_inStep g).bind
  intro declarators
  apply (expectPunct_inStep _).bind
  intro semicolon
  apply (spanFrom_inStep start).bind
  intro span
  exact .pure rfl

theorem blockOf_inStep {inside : Parser (List Statement)}
    (each : InStep L (List.map (Statement.move L.move)) inside inside) :
    InStep L (Block.move L.move) (blockOf inside) (blockOf inside) := by
  apply (expectPunct_inStep _).bind
  intro opening
  apply each.bind
  intro body
  apply (expectPunct_inStep _).bind
  intro closing
  apply (spanFrom_inStep opening.span.start).bind
  intro span
  exact .pure rfl

theorem statementOf_inStep {inside : Parser (List Statement)}
    (each : InStep L (List.map (Statement.move L.move)) inside inside) :
    InStep L (Statement.move L.move) (statementOf g inside) (statementOf g inside) := by
  have declaration : InStep L (Statement.move L.move)
      (do return .declaration (← localDeclaration g))
      (do return .declaration (← localDeclaration g)) := by
    apply (localDeclaration_inStep g).bind
    intro d
    apply InStep.pure
    rw [Statement.move, Statement.revise]
  apply InStep.look
  intro c d level
  rw [L.kind_eq level, L.declares level]
  split
  · apply Meets.bind (blockOf_inStep each c d level)
    intro b
    exact .pure (Statement.ofBlock_revise _ L.move b)
  · exact declaration c d level
  · exact (kind_inStep.bind fun k => unsupported_inStep _) c d level
  · split
    · exact declaration c d level
    · apply Meets.bind (expression_inStep g .lowest c d level)
      intro value
      refine .throw ?_ (by simp)
      rw [Expression.start_move]
      rfl

theorem nextInBraces_inStep {f : α → α} {item : Parser α} (each : InStep L f item item) :
    InStep L (Option.map f) (nextInBraces item) (nextInBraces item) := by
  apply kind_inStep.bind
  intro k
  dsimp only [id]
  split
  · exact .pure rfl
  · exact expected_inStep _
  · exact each.map fun _ => rfl

theorem statements_inStep (depth : Nat) :
    InStep L (List.map (Statement.move L.move)) (statements g depth) (statements g depth) := by
  induction depth with
  | zero => exact expected_inStep _
  | succ depth ih =>
    exact many_inStep (statementOf_shrinks g depth) (nextInBraces_inStep (statementOf_inStep g ih))

theorem body_inStep : InStep L (List.map (Statement.move L.move)) (body g) (body g) := by
  apply InStep.look
  intro c d level
  let n := c.ahead.length + d.ahead.length + 1
  have enough (e : Cursor) (short : e.ahead.length < n) :
      (statements g (e.ahead.length + 1)).run e = (statements g n).run e :=
    statements_enough g (Nat.lt_succ_self _) short
  rw [enough c (by omega), enough d (by omega)]
  exact statements_inStep g n c d level

theorem nextModifier_inStep : InStep L id nextModifier nextModifier := by
  apply InStep.sort
  intro c d level
  split
  · rename_i m here
    exact (advance_meets level (here ▸ rfl)).bind fun _ => .pure rfl
  · exact .ok rfl level

theorem modifiers_inStep : InStep L id modifiers modifiers :=
  many_inStep_id (nextModifier_offers.shrinks rfl) nextModifier_inStep

theorem refuseModifier_inStep : InStep L id refuseModifier refuseModifier := by
  apply InStep.look
  intro c d level
  rw [L.kind_eq level, L.position_eq level]
  split
  · have free : c.kind.bars = false := by
      cases sort : c.kind <;> simp_all [Kind.isModifier, Kind.bars]
    rw [(L.step level free).1]
    exact InStep.throw rfl (by simp) c d level
  · exact .ok rfl level

theorem parameter_inStep : InStep L (Parameter.move L.move) (parameter g) (parameter g) := by
  apply position_inStep.bind
  intro start
  apply refuseModifier_inStep.bind
  intro _
  apply (typeExpr_inStep g .lowest).bind
  intro type
  apply (refuse_inStep _ _).bind
  intro _
  apply (take_inStep rfl (expected_inStep _)).bind
  intro name
  apply (refuse_inStep _ _).bind
  intro _
  apply (spanFrom_inStep start).bind
  intro span
  exact .pure rfl

theorem parameterEnd_inStep : InStep L id parameterEnd parameterEnd := by
  apply InStep.sort
  intro c d level
  split
  · rename_i here
    exact (advance_meets level (here ▸ rfl)).bind fun _ => .pure rfl
  · exact .ok rfl level
  · exact expected_inStep _ c d level

theorem nextParameter_inStep :
    InStep L (Option.map (Parameter.move L.move)) (nextParameter g) (nextParameter g) := by
  apply kind_inStep.bind
  intro k
  dsimp only [id]
  split
  · exact .pure rfl
  · apply (parameter_inStep g).bind
    intro parameter
    apply parameterEnd_inStep.bind
    intro _
    exact .pure rfl

theorem parameters_inStep :
    InStep L (List.map (Parameter.move L.move)) (parameters g) (parameters g) :=
  many_inStep (nextParameter_shrinks g) (nextParameter_inStep g)

theorem refuseThrows_inStep : InStep L id refuseThrows refuseThrows := by
  apply InStep.look
  intro c d level
  have same : (d.kind = .identifier ∧ d.current.value = "throws") ↔
      (c.kind = .identifier ∧ c.current.value = "throws") := by
    rw [L.kind_eq level]
    apply and_congr_right
    intro name
    rw [(L.step level (name ▸ rfl)).1]
    rfl
  simp only [same]
  split
  · exact unsupported_inStep _ c d level
  · exact .ok rfl level

theorem methodBody_inStep :
    InStep L (Option.map (Block.move L.move)) (methodBody g) (methodBody g) :=
  .taking rfl (fun _ => .pure rfl) ((blockOf_inStep (body_inStep g)).map fun _ => rfl)

theorem method_inStep (start : Position) (ms : List Modifier) (type : TypeExpr) :
    InStep L (Method.move L.move) (method g start ms type)
      (method g (L.move.start start) ms (type.move L.move)) := by
  apply (expect_inStep rfl).bind
  intro name
  apply (expectPunct_inStep _).bind
  intro opening
  apply (parameters_inStep g).bind
  intro parameters
  apply (expectPunct_inStep _).bind
  intro closing
  apply (refuse_inStep _ _).bind
  intro _
  apply refuseThrows_inStep.bind
  intro _
  apply (methodBody_inStep g).bind
  intro body
  apply (spanFrom_inStep start).bind
  intro span
  exact .pure rfl

theorem field_inStep (start : Position) (ms : List Modifier) (type : TypeExpr) :
    InStep L (Field.move L.move) (field g start ms type)
      (field g (L.move.start start) ms (type.move L.move)) := by
  apply (declarators_inStep g).bind
  intro declarators
  apply (expectPunct_inStep _).bind
  intro semicolon
  apply (spanFrom_inStep start).bind
  intro span
  exact .pure rfl

theorem classOf_inStep {inside : Parser (List Member)}
    (each : InStep L (List.map (Member.move L.move)) inside inside) (start : Position)
    (ms : List Modifier) :
    InStep L (Class.move L.move) (classOf inside start ms)
      (classOf inside (L.move.start start) ms) := by
  apply (expect_inStep rfl).bind
  intro word
  apply (take_inStep rfl (expected_inStep _)).bind
  intro name
  apply (refuse_inStep _ _).bind
  intro _
  apply (refuse_inStep _ _).bind
  intro _
  apply (refuse_inStep _ _).bind
  intro _
  apply (expectPunct_inStep _).bind
  intro opening
  apply each.bind
  intro members
  apply (expectPunct_inStep _).bind
  intro closing
  apply (spanFrom_inStep start).bind
  intro span
  apply InStep.pure
  rw [Member.filterMap_map (Member.field?_move L.move),
    Member.filterMap_map (Member.method?_move L.move),
    Member.filterMap_map (Member.nested?_move L.move), Class.move, Class.revise_eq]
  rfl

theorem typedMember_inStep (start : Position) (ms : List Modifier) :
    InStep L (Member.move L.move) (typedMember g start ms)
      (typedMember g (L.move.start start) ms) := by
  apply (typeExpr_inStep g .lowest).bind
  intro type
  apply InStep.look
  intro c d level
  simp only [Lockstep.leads_iff level (k := .identifier) rfl]
  split
  · exact (method_inStep g start ms type c d level).bind fun _ => .pure rfl
  · split
    · rename_i leads
      rw [(L.step level (leads.1 ▸ rfl)).1, L.position_eq level]
      exact InStep.throw rfl (by simp) c d level
    · exact (field_inStep g start ms type c d level).bind fun _ => .pure rfl

theorem memberOf_inStep {inside : Parser (List Member)}
    (each : InStep L (List.map (Member.move L.move)) inside inside) :
    InStep L (Member.move L.move) (memberOf g inside) (memberOf g inside) := by
  apply InStep.taking rfl
  · intro semicolon
    exact .pure rfl
  · apply position_inStep.bind
    intro start
    apply modifiers_inStep.bind
    intro ms
    apply InStep.look
    intro c d level
    rw [L.kind_eq level]
    split
    · exact (classOf_inStep each start ms c d level).bind fun _ => .pure rfl
    · exact unsupported_inStep _ c d level
    · exact unsupported_inStep _ c d level
    · exact unsupported_inStep _ c d level
    · rename_i name
      rw [Lockstep.kindAt_one level (name ▸ rfl)]
      split
      · exact unsupported_inStep _ c d level
      · exact typedMember_inStep g start ms c d level
    · exact typedMember_inStep g start ms c d level

theorem members_inStep (depth : Nat) :
    InStep L (List.map (Member.move L.move)) (members g depth) (members g depth) := by
  induction depth with
  | zero => exact expected_inStep _
  | succ depth ih =>
    exact many_inStep (memberOf_shrinks g depth) (nextInBraces_inStep (memberOf_inStep g ih))

theorem typeDeclaration_inStep :
    InStep L (Class.move L.move) (typeDeclaration g) (typeDeclaration g) := by
  apply position_inStep.bind
  intro start
  apply modifiers_inStep.bind
  intro ms
  apply InStep.look
  intro c d level
  rw [L.kind_eq level]
  split
  · let n := c.ahead.length + d.ahead.length + 1
    have enough (start : Position) (e : Cursor) (short : e.ahead.length < n) :
        (classOf (members g (e.ahead.length + 1)) start ms).run e =
          (classOf (members g n) start ms).run e :=
      classOf_congr start ms fun c' shorter => members_enough g (by omega) (by omega)
    dsimp only [id]
    rw [enough _ c (by omega), enough _ d (by omega)]
    exact classOf_inStep (members_inStep g n) start ms c d level
  · exact unsupported_inStep _ c d level
  · exact unsupported_inStep _ c d level
  · exact expected_inStep _ c d level

theorem wildcard_inStep : InStep L id wildcard wildcard :=
  .takingTwo rfl rfl (fun _ => .pure rfl) (.pure rfl)

/-- An import takes its first token unseen, so it may only be read where its keyword is. -/
theorem nextImport_inStep : InStep L (Option.map (Import.move L.move)) nextImport nextImport := by
  apply InStep.sort
  intro c d level
  split
  · rename_i here
    refine Meets.map (f := Import.move L.move) ?_ fun _ => rfl
    apply (advance_meets level (here ▸ rfl)).bind
    intro first
    apply qualifiedName_inStep.bind
    intro name
    apply wildcard_inStep.bind
    intro all
    apply (expectPunct_inStep _).bind
    intro semicolon
    apply (spanFrom_inStep first.span.start).bind
    intro span
    exact .pure rfl
  · exact .ok rfl level

theorem packageName_inStep : InStep L id packageName packageName := by
  apply InStep.taking rfl
  · intro word
    apply qualifiedName_inStep.bind
    intro name
    apply (expectPunct_inStep _).bind
    intro semicolon
    exact .pure rfl
  · exact .pure rfl

theorem nextClass_inStep :
    InStep L (Option.map (Option.map (Class.move L.move))) (nextClass g) (nextClass g) := by
  apply InStep.sort
  intro c d level
  split
  · exact .ok rfl level
  · rename_i here
    exact (advance_meets level (here ▸ rfl)).bind fun _ => .pure rfl
  · exact (typeDeclaration_inStep g c d level).bind fun _ => .pure rfl

theorem compilationUnit_inStep :
    InStep L (CompilationUnit.move L.move) (compilationUnit g) (compilationUnit g) := by
  apply position_inStep.bind
  intro start
  apply packageName_inStep.bind
  intro package
  apply (many_inStep (nextImport_offers.shrinks rfl) nextImport_inStep).bind
  intro imports
  apply (many_inStep ((nextClass_offers g).shrinks rfl) (nextClass_inStep g)).bind
  intro classes
  apply (spanFrom_inStep start).bind
  intro span
  apply InStep.pure
  rw [CompilationUnit.move, CompilationUnit.revise, List.filterMap_map, List.map_filterMap]
  rfl

end Parser
end Javelet
