import Javelet.TypeExpr
import Javelet.Grammar
import Javelet.Parser

namespace Javelet.Parser

/-- A dot and the name behind it, both or neither. -/
def dottedName : Parser (Option String) := do
  let cursor ← get
  if cursor.kind = .punct .dot ∧ cursor.kindAt 1 = .identifier then
    let _ ← advance
    return some (← advance).value
  else return none

/-- `a` or `a.b.c`. -/
def qualifiedName : Parser String := do
  let first ← expect .identifier
  let others ← many dottedName
  return ".".intercalate (first.value :: others)

/-- A class name. One with dots keeps its parts. -/
def namedType : Parser TypeExpr := do
  let first ← expect .identifier
  match ← many dottedName with
  | [] => return ⟨.simple first.value, first.span.start⟩
  | others => return ⟨.qualified (first.value :: others), first.span.start⟩

def primitiveType : Parser TypeExpr := do
  match ← kind with
  | .primitive p => return ⟨.primitive p, (← advance).span.start⟩
  | _ => expected "expected a primitive type"

def brackets : Parser Unit := do
  let _ ← expectPunct .openBracket
  let _ ← expectPunct .closeBracket

/-- An array of the type in front. -/
def arrayType (element : TypeExpr) : Parser TypeExpr := do
  brackets
  return element.array

def typeHead (g : Grammar) : Parser TypeExpr := do
  match g.typeHead (← kind) with
  | some .name => namedType
  | some .primitive => primitiveType
  | none => expected "expected a type"

def typeSuffix (g : Grammar) (floor : Power) : Parser (Option Unit) := do
  if floor < g.typeSuffix (← kind) then some <$> brackets else return none

/-- A type and the suffixes behind it that bind more strongly than `floor`. -/
def typeExpr (g : Grammar) (floor : Power) : Parser TypeExpr := do
  let head ← typeHead g
  let suffixes ← many (typeSuffix g floor)
  return suffixes.foldl (fun element _ => element.array) head

end Javelet.Parser
