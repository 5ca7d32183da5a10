import Mathlib

namespace Javelet.Bindings

variable {α : Type}

theorem lookup_eq_none_iff (bindings : List (String × α)) (name : String) :
    bindings.lookup name = none ↔ name ∉ bindings.map Prod.fst := by
  simp only [List.lookup_eq_none_iff, bne_iff_ne, List.mem_map, not_exists, not_and]
  constructor
  · intro h b hb same; exact h b hb same.symm
  · intro h b hb same; exact h b hb same.symm

theorem mem_of_lookup {bindings : List (String × α)} {name : String} {a : α}
    (h : bindings.lookup name = some a) : (name, a) ∈ bindings := by
  obtain ⟨before, after, rfl, _⟩ := List.lookup_eq_some_iff.mp h
  simp

/-- Where no name is bound twice, to look up is to be a member. -/
theorem lookup_eq_some_iff_mem {bindings : List (String × α)}
    (distinct : (bindings.map Prod.fst).Nodup) (name : String) (a : α) :
    bindings.lookup name = some a ↔ (name, a) ∈ bindings := by
  constructor
  · exact mem_of_lookup
  · intro h
    obtain ⟨before, after, rfl⟩ := List.append_of_mem h
    refine List.lookup_eq_some_iff.mpr ⟨before, after, rfl, ?_⟩
    intro b hb
    rw [List.map_append, List.map_cons, List.nodup_append] at distinct
    have apart := distinct.2.2 b.1 (List.mem_map_of_mem hb) name (List.mem_cons_self ..)
    simpa using Ne.symm apart

/-- Frame by frame or in one list, the innermost binding is found. -/
theorem lookup_flatten (frames : List (List (String × α))) (name : String) :
    frames.flatten.lookup name = frames.findSome? (·.lookup name) := by
  induction frames with
  | nil => rfl
  | cons frame outer ih =>
    rw [List.flatten_cons, List.lookup_append, ih, List.findSome?_cons]
    cases frame.lookup name <;> rfl

end Javelet.Bindings
