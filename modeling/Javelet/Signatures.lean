import Javelet.Tag

namespace Javelet

/-- What a class declares: the types of its fields and methods and the parameters of its methods, by
qualified name and in the order of declaration. -/
structure Signatures where
  types : List (String × Tag) := []
  parameters : List (String × List (String × Tag)) := []
deriving DecidableEq

namespace Signatures

/-- A member is known as `Class.member`. -/
def memberName (owner member : String) : String := owner ++ "." ++ member

def type? (signatures : Signatures) (name : String) : Option Tag := signatures.types.lookup name

def parameters? (signatures : Signatures) (method : String) : Option (List (String × Tag)) :=
  signatures.parameters.lookup method

end Signatures
end Javelet
