import Javelet.TypeExpr
import Javelet.Error
import Javelet.Expression

namespace Javelet

/-- One variable of a declaration: `name` or `name = value`. -/
structure Declarator where
  name : String
  value : Option Expression
  span : Span
deriving DecidableEq

/-- The language declares exactly one variable at a time. -/
def Declarator.single (declarators : List Declarator) (span : Span) : Except Error Declarator :=
  match declarators with
  | [declarator] => .ok declarator
  | several => .error ⟨.severalDeclarators (several.map (·.name)), span.start⟩

structure LocalDeclaration where
  type : TypeExpr
  declarators : List Declarator
  span : Span
deriving DecidableEq

def LocalDeclaration.declarator (declaration : LocalDeclaration) : Except Error Declarator :=
  Declarator.single declaration.declarators declaration.span

inductive Statement where
  | block (body : List Statement) (span : Span)
  | declaration (declaration : LocalDeclaration)

structure Block where
  body : List Statement
  span : Span

def Statement.ofBlock (block : Block) : Statement := .block block.body block.span

end Javelet
