import Javelet.Proofs.Scoping
import Javelet.Proofs.Shadowing

namespace Javelet
namespace Scopes

/-- On the way through the steps none of the scopes that are open now is closed. -/
def Keeps (scopes : Scopes) (steps : List ScopeStep) : Prop :=
  ∀ front ∈ steps.inits, scopes.depth ≤ (scopes.run front).depth

instance (scopes : Scopes) (steps : List ScopeStep) : Decidable (scopes.Keeps steps) :=
  inferInstanceAs (Decidable (∀ front ∈ steps.inits, _))

theorem run_append (scopes : Scopes) (first later : List ScopeStep) :
    scopes.run (first ++ later) = (scopes.run first).run later :=
  List.foldl_append

/-- All scopes of the old chain are open in the new one, at the same depth. There may be more inside
of them, and more names in the innermost, but no name that had a type in the old chain. -/
structure Grown (old new : Scopes) (inner : List Frame) (added : Frame) : Prop where
  globals : new.globals = old.globals
  frames : new.frames = inner ++ (old.extend added).frames
  free : ∀ entry ∈ inner.flatten ++ added, old.typeOf entry.1 = .error

theorem extend_globals (scopes : Scopes) (bindings : List (String × Tag)) :
    (scopes.extend bindings).globals = scopes.globals := by
  unfold extend
  split <;> rfl

theorem depth_extend (scopes : Scopes) (bindings : List (String × Tag)) :
    (scopes.extend bindings).depth = scopes.depth := by
  unfold extend depth
  split
  · rfl
  · rename_i frame outer here
    rw [here, List.length_cons, List.length_cons]

/-- Bindings in the innermost scope do not matter for the names that are not among them. -/
theorem typeOf_extend {scopes : Scopes} {bindings : List (String × Tag)} {name : String}
    (other : name ∉ bindings.map Prod.fst) :
    (scopes.extend bindings).typeOf name = scopes.typeOf name := by
  unfold extend
  split
  · rfl
  · rename_i frame outer here
    have unbound := (Bindings.lookup_eq_none_iff bindings name).mpr other
    simp only [typeOf, here, List.findSome?_cons, List.lookup_append, unbound, Option.none_or]

namespace Grown

variable {old new : Scopes} {inner : List Frame} {added : Frame}

theorem refl (scopes : Scopes) : Grown scopes scopes [] [] where
  globals := rfl
  frames := by rw [extend_nil, List.nil_append]
  free := List.forall_mem_nil _

theorem depth_eq (grown : Grown old new inner added) : new.depth = inner.length + old.depth := by
  rw [depth, grown.frames, List.length_append]
  exact congrArg _ (depth_extend old added)

/-- A name that had a type has it still. -/
theorem typeOf_eq (grown : Grown old new inner added) {name : String}
    (typed : old.typeOf name ≠ .error) : new.typeOf name = old.typeOf name := by
  have other : name ∉ (inner.flatten ++ added).map Prod.fst := by
    intro member
    obtain ⟨entry, own, rfl⟩ := List.mem_map.mp member
    exact typed (grown.free entry own)
  rw [List.map_append, List.mem_append, not_or] at other
  have unbound := (Bindings.lookup_eq_none_iff inner.flatten name).mpr other.1
  rw [Bindings.lookup_flatten] at unbound
  have passed : new.typeOf name = (old.extend added).typeOf name := by
    rw [typeOf, typeOf, grown.frames, grown.globals, extend_globals, List.findSome?_append,
      unbound, Option.none_or]
  rw [passed, typeOf_extend other.2]

theorem push (grown : Grown old new inner added) : Grown old new.push ([] :: inner) added where
  globals := grown.globals
  frames := by rw [Scopes.push, grown.frames, List.cons_append]
  free := grown.free

/-- Closing a scope either takes one away that was opened later, or there is nothing to close. -/
theorem pop (grown : Grown old new inner added) (kept : old.depth ≤ new.pop.depth) :
    ∃ inner, Grown old new.pop inner added := by
  have depth := grown.depth_eq
  cases inner with
  | cons frame inner =>
    refine ⟨inner, grown.globals, ?_, ?_⟩
    · rw [Scopes.pop, grown.frames, List.cons_append, List.tail_cons]
    · intro entry member
      apply grown.free entry
      rw [List.flatten_cons, List.append_assoc]
      exact List.mem_append_right _ member
  | nil =>
    have closed : new.frames = [] := by
      rw [List.length_nil, Nat.zero_add] at depth
      have shorter : new.pop.depth = new.depth - 1 := List.length_tail
      exact List.length_eq_zero_iff.mp (show new.depth = 0 by omega)
    have same : new.pop = new := by rw [Scopes.pop, closed, List.tail_nil, ← closed]
    exact ⟨[], by rw [same]; exact grown⟩

/-- Only a free name can be bound, and one that is free now was free before. -/
theorem bind (grown : Grown old new inner added) {name : String} {tag : Tag} {position : Position}
    {next : Scopes} (bound : new.bind name tag position = .ok next) :
    ∃ inner added, Grown old next inner added := by
  obtain ⟨free, opened, rfl⟩ := (bind_ok_iff ..).mp bound
  have before : old.typeOf name = .error := by
    by_contra typed
    exact typed ((grown.typeOf_eq typed).symm.trans free)
  cases inner with
  | nil =>
    have same : new = old.extend added := by
      rw [Scopes.mk.injEq]
      exact ⟨grown.globals.trans (extend_globals ..).symm, grown.frames⟩
    refine ⟨[], (name, tag) :: added, ?_, ?_, ?_⟩
    · rw [extend_globals, grown.globals]
    · rw [same, extend_extend]
      rfl
    · exact List.forall_mem_cons.mpr ⟨before, grown.free⟩
  | cons frame inner =>
    refine ⟨((name, tag) :: frame) :: inner, added, ?_, ?_, ?_⟩
    · rw [extend_globals, grown.globals]
    · rw [extend, grown.frames]
      rfl
    · exact List.forall_mem_cons.mpr ⟨before, grown.free⟩

theorem step (grown : Grown old new inner added) (s : ScopeStep)
    (kept : old.depth ≤ (new.step s).depth) :
    ∃ inner added, Grown old (new.step s) inner added := by
  cases s with
  | push => exact ⟨_, _, grown.push⟩
  | pop =>
    obtain ⟨inner, grown⟩ := grown.pop kept
    exact ⟨inner, added, grown⟩
  | bind name tag position =>
    obtain same | bound := new.step_bind_cases name tag position
    · rw [same]
      exact ⟨inner, added, grown⟩
    · exact grown.bind bound

theorem run (grown : Grown old new inner added) {steps : List ScopeStep}
    (kept : ∀ front ∈ steps.inits, old.depth ≤ (new.run front).depth) :
    ∃ inner added, Grown old (new.run steps) inner added := by
  induction steps generalizing new inner added with
  | nil => exact ⟨inner, added, grown⟩
  | cons s rest ih =>
    rw [List.inits_cons, List.forall_mem_cons, List.forall_mem_map] at kept
    obtain ⟨_, further⟩ := kept
    have first : old.depth ≤ (new.step s).depth :=
      further [] ((List.mem_inits ..).mpr List.nil_prefix)
    obtain ⟨_, _, grown⟩ := grown.step s first
    exact ih grown further

end Grown

theorem Keeps.grown {scopes : Scopes} {steps : List ScopeStep} (kept : scopes.Keeps steps) :
    ∃ inner added, Grown scopes (scopes.run steps) inner added :=
  (Grown.refl scopes).run kept

/-- Back at the depth of a scope just opened, only that scope can have changed. -/
theorem Grown.pop_of_depth {scopes new : Scopes} {inner : List Frame} {added : Frame}
    (grown : Grown scopes.push new inner added) (back : new.depth = scopes.push.depth) :
    new.pop = scopes := by
  have none : inner = [] := by
    have depth := grown.depth_eq
    exact List.length_eq_zero_iff.mp (by omega)
  have frames := grown.frames
  rw [none, List.nil_append] at frames
  rw [Scopes.pop, frames, grown.globals]
  rfl

end Scopes

/-- Scoping is lexical. As long as no scope that is open now gets closed, a name with a type keeps
it; and to open a scope, do anything inside of it and close it again changes nothing at all. -/
theorem scoping_lexical (scopes : Scopes) (steps : List ScopeStep) :
    (scopes.Keeps steps → ∀ name, scopes.typeOf name ≠ .error →
      (scopes.run steps).typeOf name = scopes.typeOf name) ∧
    (scopes.push.Keeps steps → (scopes.push.run steps).depth = scopes.push.depth →
      scopes.run (.push :: steps ++ [.pop]) = scopes) := by
  constructor
  · intro kept name typed
    obtain ⟨inner, added, grown⟩ := kept.grown
    exact grown.typeOf_eq typed
  · intro kept back
    obtain ⟨inner, added, grown⟩ := kept.grown
    have last : scopes.push.run (steps ++ [.pop]) = (scopes.push.run steps).pop :=
      scopes.push.run_append steps [.pop]
    exact last.trans (grown.pop_of_depth back)

/-- Two scopes are open. In a third one names are bound and refused, one of them an error that gets
a type in a fourth. -/
theorem scoping_lexical_sample :
    let scopes : Scopes := ⟨.mk [("C.x", .int)] [], [[("y", .error)], [("z", .boolean)]]⟩
    let bind (name : String) (tag : Tag) : ScopeStep := .bind name tag .unknown
    let inside := [bind "z" .int, bind "y" .error, .push, bind "y" .int, bind "C.x" .int, .pop]
    let steps := .push :: inside ++ [.pop]
    scopes.Keeps steps ∧ (scopes.run (.push :: inside.take 4)).typeOf "y" = .int ∧
      (scopes.run steps).typeOf "z" = .boolean ∧ scopes.run steps = scopes := by
  intro scopes bind inside steps
  have kept : scopes.Keeps steps := by decide
  have typed := (scoping_lexical scopes steps).1 kept "z" (by decide)
  exact ⟨kept, rfl, typed, (scoping_lexical scopes inside).2 (by decide) rfl⟩

end Javelet
