import Mathlib

namespace Javelet.Run

variable {ε σ α β : Type}

theorem bind_ok_iff (x : EStateM ε σ α) (f : α → EStateM ε σ β) (s t : σ) (b : β) :
    (x >>= f).run s = .ok b t ↔ ∃ a m, x.run s = .ok a m ∧ (f a).run m = .ok b t := by
  rw [EStateM.run_bind]
  cases x.run s with
  | ok a m =>
    constructor
    · intro h; exact ⟨a, m, rfl, h⟩
    · rintro ⟨_, _, same, h⟩; cases same; exact h
  | error e m => simp

theorem bind_error_iff (x : EStateM ε σ α) (f : α → EStateM ε σ β) (s t : σ) (e : ε) :
    (x >>= f).run s = .error e t ↔
      x.run s = .error e t ∨ ∃ a m, x.run s = .ok a m ∧ (f a).run m = .error e t := by
  rw [EStateM.run_bind]
  cases x.run s with
  | ok a m =>
    constructor
    · intro h; exact .inr ⟨a, m, rfl, h⟩
    · rintro (h | ⟨_, _, same, h⟩)
      · cases h
      · cases same; exact h
  | error e m => simp

/-- After a step that ends well the rest of the run is the next one's. -/
theorem bind_of_ok {x : EStateM ε σ α} {s m : σ} {a : α} (h : x.run s = .ok a m)
    (f : α → EStateM ε σ β) : (x >>= f).run s = (f a).run m := by
  rw [EStateM.run_bind, h]

theorem pure_ok_iff (a b : α) (s t : σ) :
    (pure a : EStateM ε σ α).run s = .ok b t ↔ b = a ∧ t = s := by
  simp [eq_comm]

theorem pure_error_iff (a : α) (s t : σ) (e : ε) :
    (pure a : EStateM ε σ α).run s = .error e t ↔ False := by
  simp

theorem map_ok_iff (f : α → β) (x : EStateM ε σ α) (s t : σ) (b : β) :
    (f <$> x).run s = .ok b t ↔ ∃ a, x.run s = .ok a t ∧ b = f a := by
  simp only [EStateM.run, Functor.map, EStateM.map]
  cases x s with
  | ok a m =>
    constructor
    · intro h; cases h; exact ⟨a, rfl, rfl⟩
    · rintro ⟨_, same, rfl⟩; cases same; rfl
  | error e m => simp

theorem throw_ok_iff (e : ε) (s t : σ) (a : α) :
    (throw e : EStateM ε σ α).run s = .ok a t ↔ False := by
  constructor <;> intro h <;> cases h

theorem ofExcept_ok_iff (x : Except ε α) (s t : σ) (a : α) :
    (MonadExcept.ofExcept x : EStateM ε σ α).run s = .ok a t ↔ x = .ok a ∧ t = s := by
  cases x with
  | ok b => simp [MonadExcept.ofExcept, eq_comm]
  | error e => simp [MonadExcept.ofExcept, throw_ok_iff]

theorem ofExcept_error_iff (x : Except ε α) (s t : σ) (e : ε) :
    (MonadExcept.ofExcept x : EStateM ε σ α).run s = .error e t ↔ x = .error e ∧ t = s := by
  cases x with
  | ok b => simp [MonadExcept.ofExcept]
  | error f =>
    constructor
    · intro h; cases h; exact ⟨rfl, rfl⟩
    · rintro ⟨same, rfl⟩; cases same; rfl

theorem except_bind_ok_iff (x : Except ε α) (f : α → Except ε β) (b : β) :
    (x >>= f) = .ok b ↔ ∃ a, x = .ok a ∧ f a = .ok b := by
  cases x with
  | ok a =>
    constructor
    · intro h; exact ⟨a, rfl, h⟩
    · rintro ⟨_, same, h⟩; cases same; exact h
  | error e => simp [bind, Except.bind]

theorem exists_of_isOk {x : Except ε α} (h : x.isOk = true) : ∃ a, x = .ok a := by
  cases x with
  | ok a => exact ⟨a, rfl⟩
  | error e => cases h

/-- A list that is built head first. -/
theorem cons_ok_iff (x : EStateM ε σ α) (y : EStateM ε σ (List α)) (s t : σ) (all : List α) :
    (do let a ← x; return a :: (← y)).run s = .ok all t ↔
      ∃ a m rest, x.run s = .ok a m ∧ y.run m = .ok rest t ∧ all = a :: rest := by
  simp only [bind_ok_iff, pure_ok_iff]
  constructor
  · rintro ⟨a, m, head, rest, _, tail, rfl, rfl⟩
    exact ⟨a, m, rest, head, tail, rfl⟩
  · rintro ⟨a, m, rest, head, tail, rfl⟩
    exact ⟨a, m, head, rest, t, tail, rfl, rfl⟩

theorem cons_error_iff (x : EStateM ε σ α) (y : EStateM ε σ (List α)) (s t : σ) (e : ε) :
    (do let a ← x; return a :: (← y)).run s = .error e t ↔
      x.run s = .error e t ∨ ∃ a m, x.run s = .ok a m ∧ y.run m = .error e t := by
  simp only [bind_error_iff, pure_error_iff, and_false, exists_false, or_false]

end Javelet.Run
