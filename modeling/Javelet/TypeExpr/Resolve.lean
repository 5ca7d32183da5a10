import Javelet.TypeExpr
import Javelet.Error
import Javelet.Tag

namespace Javelet.TypeExpr

/-- The type that a written type stands for: `int`, `boolean`, a class by its simple name and, where
a method's result is declared, `void`. -/
def resolve (typeExpr : TypeExpr) (allowVoid : Bool) : Except Error Tag :=
  match typeExpr.shape with
  | .primitive .int => .ok .int
  | .primitive .boolean => .ok .boolean
  | .primitive p =>
    if p = .void ∧ allowVoid then .ok .void
    else .error ⟨.unsupportedPrimitive p.spelling, typeExpr.position⟩
  | .simple name => .ok (.reference name)
  | .qualified _ => .error ⟨.qualifiedType typeExpr.text, typeExpr.position⟩
  | .array _ => .error ⟨.unsupportedType typeExpr.text, typeExpr.position⟩

end Javelet.TypeExpr
