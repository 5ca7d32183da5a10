import Javelet.Proofs.Run

namespace Javelet.Run

variable {ε σ α β γ δ : Type}

/-- Two answers: like results, or like errors. -/
inductive SameAnswer (E : ε → ε → Prop) (R : α → β → Prop) : Except ε α → Except ε β → Prop where
  | ok {a : α} {b : β} : R a b → SameAnswer E R (.ok a) (.ok b)
  | error {e f : ε} : E e f → SameAnswer E R (.error e) (.error f)

/-- The ends of two runs: both well, with like results and in like states, or both in like errors.
-/
inductive SameEnd (E : ε → ε → Prop) (S : σ → σ → Prop) (R : α → β → Prop) :
    EStateM.Result ε σ α → EStateM.Result ε σ β → Prop where
  | ok {a : α} {b : β} {s t : σ} : R a b → S s t → SameEnd E S R (.ok a s) (.ok b t)
  | error {e f : ε} {s t : σ} : E e f → SameEnd E S R (.error e s) (.error f t)

/-- Whatever like states two computations start from, they come to like ends. -/
def Alike (E : ε → ε → Prop) (S : σ → σ → Prop) (R : α → β → Prop) (x : EStateM ε σ α)
    (y : EStateM ε σ β) : Prop :=
  ∀ s t, S s t → SameEnd E S R (x.run s) (y.run t)

variable {E : ε → ε → Prop} {S : σ → σ → Prop} {R : α → β → Prop} {Q : γ → δ → Prop}

theorem SameAnswer.bind {x : Except ε α} {y : Except ε β} {f : α → Except ε γ}
    {g : β → Except ε δ} (first : SameAnswer E R x y)
    (further : ∀ a b, R a b → SameAnswer E Q (f a) (g b)) :
    SameAnswer E Q (x >>= f) (y >>= g) := by
  cases first with
  | ok related => exact further _ _ related
  | error related => exact .error related

/-- Two answers that are each like a third are like each other. -/
theorem SameAnswer.join {x : Except ε α} {y : Except ε β} {z : Except ε γ} {F : ε → ε → Prop}
    {P : α → γ → Prop} {P' : β → γ → Prop} (first : SameAnswer E P x z)
    (second : SameAnswer E P' y z) (errors : ∀ e f g, E e g → E f g → F e f)
    (results : ∀ a b c, P a c → P' b c → R a b) : SameAnswer F R x y := by
  cases first with
  | ok related =>
    cases second with
    | ok related' => exact .ok (results _ _ _ related related')
  | error related =>
    cases second with
    | error related' => exact .error (errors _ _ _ related related')

theorem SameEnd.imp {T : σ → σ → Prop} {x : EStateM.Result ε σ α} {y : EStateM.Result ε σ β}
    (h : SameEnd E S R x y) (states : ∀ s t, S s t → T s t) : SameEnd E T R x y := by
  cases h with
  | ok same like => exact .ok same (states _ _ like)
  | error same => exact .error same

theorem Alike.bind {x : EStateM ε σ α} {y : EStateM ε σ β} {f : α → EStateM ε σ γ}
    {g : β → EStateM ε σ δ} (first : Alike E S R x y)
    (further : ∀ a b, R a b → Alike E S Q (f a) (g b)) : Alike E S Q (x >>= f) (y >>= g) := by
  intro s t like
  have ends := first s t like
  rw [EStateM.run_bind, EStateM.run_bind]
  generalize x.run s = left at ends
  generalize y.run t = right at ends
  cases ends with
  | ok same states => exact further _ _ same _ _ states
  | error same => exact .error same

theorem Alike.pure {a : α} {b : β} (same : R a b) :
    Alike E S R (pure a : EStateM ε σ α) (pure b) :=
  fun _ _ like => .ok same like

theorem Alike.throw {e f : ε} (same : E e f) :
    Alike E S R (throw e : EStateM ε σ α) (throw f) :=
  fun _ _ _ => .error same

theorem Alike.get : Alike E S S (get : EStateM ε σ σ) get :=
  fun _ _ like => .ok like like

theorem Alike.modify {f g : σ → σ} (keeps : ∀ s t, S s t → S (f s) (g t)) :
    Alike E S Eq (modify f : EStateM ε σ PUnit) (modify g) :=
  fun s t like => .ok rfl (keeps s t like)

theorem Alike.ofExcept {x : Except ε α} {y : Except ε β} (same : SameAnswer E R x y) :
    Alike E S R (MonadExcept.ofExcept x : EStateM ε σ α) (MonadExcept.ofExcept y) := by
  cases same with
  | ok related => exact .pure related
  | error related => exact .throw related

theorem Alike.ite {p : Prop} [Decidable p] {x x' : EStateM ε σ α} {y y' : EStateM ε σ β}
    (yes : p → Alike E S R x y) (no : ¬p → Alike E S R x' y') :
    Alike E S R (if p then x else x') (if p then y else y') := by
  by_cases h : p
  · rw [if_pos h, if_pos h]
    exact yes h
  · rw [if_neg h, if_neg h]
    exact no h

/-- A list is gone through step by step on both sides. -/
theorem Alike.forM {f : α → EStateM ε σ PUnit} {g : β → EStateM ε σ PUnit} {change : α → β}
    (each : ∀ a, Alike E S Eq (f a) (g (change a))) (all : List α) :
    Alike E S Eq (all.forM f) ((all.map change).forM g) := by
  induction all with
  | nil => exact .pure rfl
  | cons a rest ih =>
    exact (each a).bind fun _ _ _ => ih

theorem Alike.mapM {f : α → EStateM ε σ γ} {g : β → EStateM ε σ γ} {change : α → β}
    (each : ∀ a, Alike E S Eq (f a) (g (change a))) (all : List α) :
    Alike E S Eq (all.mapM f) ((all.map change).mapM g) := by
  induction all with
  | nil => exact .pure rfl
  | cons a rest ih =>
    rw [List.map_cons, List.mapM_cons, List.mapM_cons]
    refine (each a).bind fun b _ same => ?_
    subst same
    refine ih.bind fun bs _ same => ?_
    subst same
    exact .pure rfl

end Javelet.Run
