namespace Javelet

/-- `error` marks what has no type. A class is known by its simple name alone. -/
inductive Tag where
  | int
  | boolean
  | void
  | null
  | error
  | reference (name : String)
deriving DecidableEq

namespace Tag

def text : Tag → String
  | int => "int"
  | boolean => "boolean"
  | void => "void"
  | null => "nullType"
  | error => "ERROR"
  | reference name => name

def isError (tag : Tag) : Bool := tag == error

def isVoid (tag : Tag) : Bool := tag == void

def isNull (tag : Tag) : Bool := tag == null

def isPrimitive : Tag → Bool
  | int | boolean => true
  | _ => false

/-- Whether a variable of type `left` takes a value of type `right`. Equal types agree, any class
takes null, and nothing else is converted. -/
def assignable (left right : Tag) : Bool :=
  if left.isError || right.isError then false
  else if left.isNull || left.isVoid then false
  else if right.isNull && !left.isPrimitive then true
  else left == right

/-- The rule without its order of cases: the variable has a value type, and the value has the same
type or is null for a class. -/
theorem assignable_iff (left right : Tag) :
    left.assignable right = true ↔
      (left = int ∨ left = boolean ∨ ∃ name, left = reference name) ∧
      (right = left ∨ right = null ∧ ∃ name, left = reference name) := by
  cases left <;> cases right <;> simp [assignable, isError, isNull, isVoid, isPrimitive]
  exact eq_comm

/-- Void if every one of the types is. -/
def allVoid (tags : List Tag) : Tag := if tags.all isVoid then void else error

end Tag
end Javelet
