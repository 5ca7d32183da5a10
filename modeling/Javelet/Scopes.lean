import Javelet.Error
import Javelet.Signatures

namespace Javelet

/-- The bindings of one scope, the latest first. -/
abbrev Frame := List (String × Tag)

/-- The open scopes, innermost first, around them what the class declares. -/
structure Scopes where
  globals : Signatures
  frames : List Frame := []

namespace Scopes

def depth (scopes : Scopes) : Nat := scopes.frames.length

/-- The innermost binding of a name. A name without one has the type `error`. -/
def typeOf (scopes : Scopes) (name : String) : Tag :=
  ((scopes.frames.findSome? (·.lookup name)).or (scopes.globals.type? name)).getD .error

def push (scopes : Scopes) : Scopes := { scopes with frames := [] :: scopes.frames }

/-- Does nothing when no scope is open. -/
def pop (scopes : Scopes) : Scopes := { scopes with frames := scopes.frames.tail }

/-- Binds a name in the innermost scope. A visible name cannot be bound again, wherever it comes
from; one that is bound to `error` counts as free. -/
def bind (scopes : Scopes) (name : String) (tag : Tag) (position : Position) :
    Except Error Scopes :=
  let existing := scopes.typeOf name
  if existing.isError then
    match scopes.frames with
    | [] => .error ⟨.noScope name, position⟩
    | frame :: outer => .ok { scopes with frames := ((name, tag) :: frame) :: outer }
  else .error ⟨.variableDeclared name existing.text, position⟩

@[simp] theorem pop_push (scopes : Scopes) : scopes.push.pop = scopes := rfl

/-- A new scope hides nothing. -/
@[simp] theorem typeOf_push (scopes : Scopes) (name : String) :
    scopes.push.typeOf name = scopes.typeOf name := by
  simp [typeOf, push, List.findSome?_cons]

/-- Binding succeeds exactly in an open scope and for a free name. -/
theorem bind_eq_ok_iff (scopes next : Scopes) (name : String) (tag : Tag) (position : Position) :
    scopes.bind name tag position = .ok next ↔
      scopes.typeOf name = .error ∧ ∃ frame outer, scopes.frames = frame :: outer ∧
        next = { scopes with frames := ((name, tag) :: frame) :: outer } := by
  unfold bind
  by_cases free : scopes.typeOf name = .error
  · cases h : scopes.frames with
    | nil => simp [free, Tag.isError]
    | cons frame outer =>
      simp only [free, Tag.isError, beq_self_eq_true, ↓reduceIte, Except.ok.injEq, true_and]
      constructor
      · rintro rfl
        exact ⟨frame, outer, rfl, rfl⟩
      · rintro ⟨_, _, same, rfl⟩
        cases same
        rfl
  · simp [free, Tag.isError]

end Scopes
end Javelet
