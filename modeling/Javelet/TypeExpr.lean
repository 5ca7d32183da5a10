import Javelet.Position
import Javelet.Token.Kind

namespace Javelet

/-- Types as a program writes them. -/
inductive TypeShape where
  | primitive (p : Primitive)
  | simple (name : String)
  | qualified (parts : List String)
  | array (element : TypeShape)
deriving DecidableEq

def TypeShape.text : TypeShape → String
  | primitive p => p.spelling
  | simple name => name
  | qualified parts => ".".intercalate parts
  | array element => element.text ++ "[]"

/-- A written type and where it starts. -/
structure TypeExpr where
  shape : TypeShape
  position : Position
deriving DecidableEq

namespace TypeExpr

def text (typeExpr : TypeExpr) : String := typeExpr.shape.text

def array (typeExpr : TypeExpr) : TypeExpr :=
  { typeExpr with shape := .array typeExpr.shape }

end TypeExpr
end Javelet
