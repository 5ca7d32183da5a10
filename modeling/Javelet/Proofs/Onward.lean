import Javelet.Proofs.Lockstep
import Javelet.Proofs.Outline

namespace Javelet

/-- The state that a run ends in, well or not. -/
def Run.last {ε σ α : Type} : EStateM.Result ε σ α → σ
  | .ok _ s | .error _ s => s

namespace Cursor

/-- From a token that is not an ending to the next. -/
def ClearStep (c c' : Cursor) : Prop := c.kind ≠ .eof ∧ c' = c.advance

/-- From a place to the same or a later one, with no ending on the way. -/
def Clears : Cursor → Cursor → Prop := Relation.ReflTransGen ClearStep

variable {a b c : Cursor}

theorem Clears.refl (c : Cursor) : c.Clears c := Relation.ReflTransGen.refl

theorem Clears.trans (first : a.Clears b) (second : b.Clears c) : a.Clears c :=
  Relation.ReflTransGen.trans first second

theorem clears_advance (inside : c.kind ≠ .eof) : c.Clears c.advance := .single ⟨inside, rfl⟩

theorem Clears.leads (clears : a.Clears b) : a.Leads b :=
  Relation.ReflTransGen.mono (fun _ _ step => ⟨ahead_ne_nil _ step.1, step.2⟩) a b clears

end Cursor

/-- A stream beside itself, from a place on. What takes a token has looked at its kind before. -/
def Lockstep.clear (start : Cursor) : Lockstep where
  move := .stay
  level c d := c = d ∧ start.Clears c
  fails _ c _ _ := start.Clears c
  stops _ _ := False
  kind_eq := by
    rintro c _ ⟨rfl, _⟩
    rfl
  position_eq := by
    rintro c _ ⟨rfl, _⟩
    rfl
  previousEnd_eq := by
    rintro c _ ⟨rfl, _⟩
    rfl
  step := by
    rintro c _ ⟨rfl, clears⟩ free
    refine ⟨rfl, rfl, clears.trans (Cursor.clears_advance ?_)⟩
    intro ended
    rw [ended] at free
    cases free
  number := by
    rintro c _ ⟨rfl, clears⟩ number
    refine .inr ⟨rfl, ⟨rfl, clears.trans (Cursor.clears_advance ?_)⟩, fun _ => clears⟩
    simp [number]
  declares := by
    rintro c _ ⟨rfl, _⟩
    rfl
  unexpected level := level.2
  expected level _ := level.2
  throws level _ := level.2

namespace Parser

variable {α : Type}

/-- The reader never goes back, nor over an ending. -/
def Onward (r : Parser α) : Prop := ∀ c : Cursor, c.Clears (Run.last (r.run c))

theorem Onward.of_inStep {r : Parser α} {f : Cursor → α → α}
    (steps : ∀ start, InStep (.clear start) (f start) r r) : Onward r := by
  intro c
  have ends := steps c c c ⟨rfl, .refl c⟩
  cases ran : r.run c with
  | ok a m =>
    rw [ran] at ends
    cases ends with
    | ok _ level => exact level.2
  | error e m =>
    rw [ran] at ends
    cases ends with
    | error together => exact together
    | stopped alone => exact alone.elim

theorem Onward.well {r : Parser α} (onward : Onward r) {c c' : Cursor} {a : α}
    (run : r.run c = .ok a c') : c.Clears c' := by
  have clears := onward c
  rwa [run] at clears

theorem Onward.badly {r : Parser α} (onward : Onward r) {c c' : Cursor} {e : Error}
    (run : r.run c = .error e c') : c.Clears c' := by
  have clears := onward c
  rwa [run] at clears

theorem leads_of_ok {r : Parser α} {f : Cursor → α → α}
    (steps : ∀ start, InStep (.clear start) (f start) r r) {c c' : Cursor} {a : α}
    (run : r.run c = .ok a c') : c.Leads c' :=
  ((Onward.of_inStep steps).well run).leads

/-- Also where a number is expected. -/
theorem expect_onward {wanted : Kind} (proper : wanted ≠ .eof) : Onward (expect wanted) := by
  intro c
  unfold expect take
  rw [Run.bind_of_ok (run_kind c)]
  split
  · rename_i here
    exact Cursor.clears_advance (here ▸ proper)
  · exact .refl c

end Parser
end Javelet
