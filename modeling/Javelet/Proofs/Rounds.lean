import Javelet.Proofs.Derivable

/-! Rounds and depths only bound a reader. Since an item that is there takes a token, and so does
the brace that opens a body, a reader that has more of them than there are tokens ahead does what it
does with any larger number, and what it does without a bound: the loop or recursion has come to an
end of its own by then. -/
namespace Javelet

/-- Two ways to go on come to the same if they do from wherever the first step ends. -/
theorem Run.bind_congr {ε σ α β : Type} {x : EStateM ε σ α} {f f' : α → EStateM ε σ β} {s : σ}
    (same : ∀ a m, x.run s = .ok a m → (f a).run m = (f' a).run m) :
    (x >>= f).run s = (x >>= f').run s := by
  rw [EStateM.run_bind, EStateM.run_bind]
  cases ran : x.run s with
  | ok a m => exact same a m ran
  | error e m => rfl

namespace Parser

variable {α : Type} (g : Grammar)

theorem statementOf_shrinks (depth : Nat) :
    Shrinks (nextInBraces (statementOf g (statements g depth))) :=
  (nextInBraces_offers (statementOf_takes g (statements_takes g depth))).shrinks rfl

theorem memberOf_shrinks (depth : Nat) : Shrinks (nextInBraces (memberOf g (members g depth))) :=
  (nextInBraces_offers (memberOf_takes g (members_takes g depth))).shrinks rfl

/-- One round of a loop, and then the loop again. -/
def round (item : Parser (Option α)) (again : Parser (List α)) : Parser (List α) := do
  match ← item with
  | none => return []
  | some a => return a :: (← again)

theorem upTo_succ (item : Parser (Option α)) (n : Nat) :
    upTo item (n + 1) = round item (upTo item n) := rfl

/-- What comes after a round has fewer tokens ahead. -/
theorem round_congr {item item' : Parser (Option α)} (shrinks : Shrinks item)
    {again again' : Parser (List α)} {c : Cursor} (same : item.run c = item'.run c)
    (later : ∀ c' : Cursor, c'.ahead.length < c.ahead.length → again.run c' = again'.run c') :
    (round item again).run c = (round item' again').run c := by
  unfold round
  rw [EStateM.run_bind, EStateM.run_bind, ← same]
  cases ran : item.run c with
  | error e m => rfl
  | ok found m =>
    cases found with
    | none => rfl
    | some a =>
      have rest := later m (shrinks c a m ran)
      dsimp only
      rw [EStateM.run_bind, EStateM.run_bind, rest]

theorem upTo_enough {item item' : Parser (Option α)} (shrinks : Shrinks item) {n n' : Nat}
    {c : Cursor}
    (same : ∀ c' : Cursor, c'.ahead.length ≤ c.ahead.length → item.run c' = item'.run c')
    (enough : c.ahead.length < n) (enough' : c.ahead.length < n') :
    (upTo item n).run c = (upTo item' n').run c := by
  induction n generalizing n' c with
  | zero => omega
  | succ n ih =>
    obtain ⟨n', rfl⟩ : ∃ k, n' = k + 1 := ⟨n' - 1, by omega⟩
    rw [upTo_succ, upTo_succ]
    apply round_congr shrinks (same c le_rfl)
    intro c' short
    exact ih (fun c'' shorter => same c'' (by omega)) (by omega) (by omega)

theorem many_enough {item item' : Parser (Option α)} (shrinks : Shrinks item) {n : Nat} {c : Cursor}
    (same : ∀ c' : Cursor, c'.ahead.length ≤ c.ahead.length → item.run c' = item'.run c')
    (enough : c.ahead.length < n) : (many item).run c = (upTo item' n).run c := by
  unfold many
  rw [Run.bind_of_ok (EStateM.run_get c)]
  exact upTo_enough shrinks same (Nat.lt_succ_self _) enough

theorem many_congr {item item' : Parser (Option α)} (shrinks : Shrinks item) {c : Cursor}
    (same : ∀ c' : Cursor, c'.ahead.length ≤ c.ahead.length → item.run c' = item'.run c') :
    (many item).run c = (many item').run c := by
  rw [many_enough shrinks same (Nat.lt_succ_self _)]
  unfold many
  rw [Run.bind_of_ok (EStateM.run_get c)]

theorem round_many {item : Parser (Option α)} (shrinks : Shrinks item) (c : Cursor) :
    (round item (many item)).run c = (many item).run c := by
  have bounded : (many item).run c = (round item (upTo item c.ahead.length)).run c := by
    unfold many
    rw [Run.bind_of_ok (EStateM.run_get c), upTo_succ]
  rw [bounded]
  apply round_congr shrinks rfl
  intro c' short
  exact many_enough shrinks (fun _ _ => rfl) short

/-- Unrolled more often than there are tokens ahead, the recursion does not get to its bottom,
whatever that is: it has come to an end before, and to the same as the reader. -/
def Ends (unroll : Parser α → Parser α) (r : Parser α) : Prop :=
  ∀ (bottom : Parser α) (c : Cursor) (n : Nat), c.ahead.length < n →
    (unroll^[n] bottom).run c = r.run c

/-- A reader that solves the equation of a recursion which calls itself only with fewer tokens
ahead. -/
theorem Ends.of_shorter {unroll : Parser α → Parser α} {r : Parser α}
    (unrolled : ∀ c, (unroll r).run c = r.run c)
    (shorter : ∀ (c : Cursor) (r' : Parser α),
      (∀ c' : Cursor, c'.ahead.length < c.ahead.length → r.run c' = r'.run c') →
        (unroll r).run c = (unroll r').run c) : Ends unroll r := by
  intro bottom c n enough
  induction n generalizing c with
  | zero => omega
  | succ n ih =>
    rw [Function.iterate_succ_apply', ← unrolled c]
    symm
    apply shorter
    intro c' short
    exact (ih c' (by omega)).symm

theorem many_ends {item : Parser (Option α)} (shrinks : Shrinks item) :
    Ends (round item) (many item) :=
  .of_shorter (round_many shrinks) fun _ _ same => round_congr shrinks rfl same

theorem nextInBraces_congr {item item' : Parser α} {c : Cursor} (same : item.run c = item'.run c) :
    (nextInBraces item).run c = (nextInBraces item').run c := by
  unfold nextInBraces
  rw [Run.bind_of_ok (run_kind c), Run.bind_of_ok (run_kind c)]
  split
  · rfl
  · rfl
  · rw [map_eq_pure_bind, map_eq_pure_bind, EStateM.run_bind, EStateM.run_bind, same]

/-- Lists of items in which lists of the same sort can be read: a list of some level reads in its
items those of the level below, and only behind a token of the item. -/
structure Nests (item : Parser (List α) → Parser (Option α)) (level : Nat → Parser (List α)) :
    Prop where
  deeper : ∀ depth, level (depth + 1) = many (item (level depth))
  shrinks : ∀ depth, Shrinks (item (level depth))
  congr : ∀ {c : Cursor} {inside inside' : Parser (List α)},
    (∀ c' : Cursor, c'.ahead.length < c.ahead.length → inside.run c' = inside'.run c') →
      (item inside).run c = (item inside').run c

theorem Nests.enough {item : Parser (List α) → Parser (Option α)} {level : Nat → Parser (List α)}
    (nests : Nests item level) {n n' : Nat} {c : Cursor} (enough : c.ahead.length < n)
    (enough' : c.ahead.length < n') : (level n).run c = (level n').run c := by
  induction n generalizing n' c with
  | zero => omega
  | succ n ih =>
    obtain ⟨n', rfl⟩ : ∃ k, n' = k + 1 := ⟨n' - 1, by omega⟩
    rw [nests.deeper, nests.deeper]
    apply many_congr (nests.shrinks n)
    intro c' short
    apply nests.congr
    intro c'' shorter
    exact ih (by omega) (by omega)

/-- The list with more levels below it than there are tokens ahead. -/
def topmost (level : Nat → Parser (List α)) : Parser (List α) := do
  level ((← get).ahead.length + 1)

namespace Nests

variable {item : Parser (List α) → Parser (Option α)} {level : Nat → Parser (List α)}

theorem run_topmost (nests : Nests item level) {n : Nat} {c : Cursor}
    (enough : c.ahead.length < n) : (level n).run c = (topmost level).run c :=
  nests.enough enough (Nat.lt_succ_self _)

theorem shrinks_topmost (nests : Nests item level) : Shrinks (item (topmost level)) := by
  intro c a c' run
  have bounded : (item (level c.ahead.length)).run c = (item (topmost level)).run c :=
    nests.congr fun c'' short => nests.run_topmost short
  rw [← bounded] at run
  exact nests.shrinks _ c a c' run

theorem round_topmost (nests : Nests item level) (c : Cursor) :
    (round (item (topmost level)) (topmost level)).run c = (topmost level).run c := by
  let below := item (level c.ahead.length)
  have bounded : (topmost level).run c = (round below (many below)).run c := by
    rw [round_many (nests.shrinks _), ← nests.deeper]
    rfl
  rw [bounded]
  apply round_congr nests.shrinks_topmost
  · exact nests.congr fun c' short => (nests.run_topmost short).symm
  · intro c' short
    rw [← nests.deeper]
    exact (nests.run_topmost (by omega)).symm

/-- Items and the lists in them, read without a bound on either. -/
theorem ends (nests : Nests item level) :
    Ends (fun again => round (item again) again) (topmost level) :=
  .of_shorter nests.round_topmost fun _ _ same =>
    round_congr nests.shrinks_topmost (nests.congr same) same

end Nests

theorem blockOf_congr {inside inside' : Parser (List Statement)} {c : Cursor}
    (same : ∀ c' : Cursor, c'.ahead.length < c.ahead.length → inside.run c' = inside'.run c') :
    (blockOf inside).run c = (blockOf inside').run c := by
  unfold blockOf
  apply Run.bind_congr
  intro opening m ran
  have shorter := (expectPunct_takes _ _ _ _ ran).shorter rfl
  rw [EStateM.run_bind, EStateM.run_bind, same m shorter]

theorem statementOf_congr {inside inside' : Parser (List Statement)} {c : Cursor}
    (same : ∀ c' : Cursor, c'.ahead.length < c.ahead.length → inside.run c' = inside'.run c') :
    (statementOf g inside).run c = (statementOf g inside').run c := by
  unfold statementOf
  rw [Run.bind_of_ok (EStateM.run_get c), Run.bind_of_ok (EStateM.run_get c)]
  split
  · rw [EStateM.run_bind, EStateM.run_bind, blockOf_congr same]
  · rfl
  · rfl
  · rfl

/-- A statement shows what it is before any block in it is read. -/
theorem statements_nest :
    Nests (fun inside => nextInBraces (statementOf g inside)) (statements g) where
  deeper _ := rfl
  shrinks := statementOf_shrinks g
  congr same := nextInBraces_congr (statementOf_congr g same)

theorem statements_enough {n n' : Nat} {c : Cursor} (enough : c.ahead.length < n)
    (enough' : c.ahead.length < n') : (statements g n).run c = (statements g n').run c :=
  (statements_nest g).enough enough enough'

theorem classOf_congr {inside inside' : Parser (List Member)} {c : Cursor} (start : Position)
    (ms : List Modifier)
    (same : ∀ c' : Cursor, c'.ahead.length < c.ahead.length → inside.run c' = inside'.run c') :
    (classOf inside start ms).run c = (classOf inside' start ms).run c := by
  unfold classOf
  apply Run.bind_congr
  intro keyword m ran
  have shorter := (expectWord_takes _ _ _ _ ran).shorter rfl
  apply Run.bind_congr
  intro name m₁ ran
  have shorter₁ := (takeOr_takes _ _ _ _ ran).shorter rfl
  apply Run.bind_congr
  intro _ m₂ ran
  cases refuse_ok ran
  apply Run.bind_congr
  intro _ m₃ ran
  cases refuse_ok ran
  apply Run.bind_congr
  intro _ m₄ ran
  cases refuse_ok ran
  apply Run.bind_congr
  intro opening m₅ ran
  have shorter₂ := (expectPunct_takes _ _ _ _ ran).shorter rfl
  rw [EStateM.run_bind, EStateM.run_bind, same m₅ (by omega)]

theorem memberOf_congr {inside inside' : Parser (List Member)} {c : Cursor}
    (same : ∀ c' : Cursor, c'.ahead.length < c.ahead.length → inside.run c' = inside'.run c') :
    (memberOf g inside).run c = (memberOf g inside').run c := by
  unfold memberOf
  rw [Run.bind_of_ok (run_kind c), Run.bind_of_ok (run_kind c)]
  split
  · rfl
  · rw [Run.bind_of_ok (run_position c), Run.bind_of_ok (run_position c)]
    apply Run.bind_congr
    intro ms m ran
    obtain ⟨taken, here, _⟩ := modifiers_takes _ _ _ ran
    have lengths := congrArg List.length here
    simp only [Cursor.length_marks, List.length_append] at lengths
    rw [Run.bind_of_ok (EStateM.run_get m), Run.bind_of_ok (EStateM.run_get m)]
    split
    · have nested := classOf_congr (c := m) c.position ms fun c' short => same c' (by omega)
      rw [EStateM.run_bind, EStateM.run_bind, nested]
    · rfl
    · rfl
    · rfl
    · rfl
    · rfl

theorem members_nest : Nests (fun inside => nextInBraces (memberOf g inside)) (members g) where
  deeper _ := rfl
  shrinks := memberOf_shrinks g
  congr same := nextInBraces_congr (memberOf_congr g same)

theorem members_enough {n n' : Nat} {c : Cursor} (enough : c.ahead.length < n)
    (enough' : c.ahead.length < n') : (members g n).run c = (members g n').run c :=
  (members_nest g).enough enough enough'

end Parser
end Javelet
