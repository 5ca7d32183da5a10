import Javelet.TypeExpr.Parser
import Javelet.Expression.Parser
import Javelet.Statement

namespace Javelet.Parser

def endOfFile : String := "expected '\x7d' before end of file"

/-- The value behind an equals sign, if there is one. -/
def initializer (g : Grammar) : Parser (Option Expression) := do
  if (← kind) = .punct .assign then
    let _ ← advance
    some <$> expression g .lowest
  else return none

def declarator (g : Grammar) : Parser Declarator := do
  let name ← take .identifier (expected "expected identifier during variable declaration")
  refuse (.punct .openBracket) "array declarator"
  let value ← initializer g
  return ⟨name.value, value, ← spanFrom name.span.start⟩

def nextDeclarator (g : Grammar) : Parser (Option Declarator) := do
  if (← kind) = .punct .comma then
    let _ ← advance
    some <$> declarator g
  else return none

/-- One declarator or more, with commas between them. -/
def declarators (g : Grammar) : Parser (List Declarator) := do
  let first ← declarator g
  let others ← many (nextDeclarator g)
  return first :: others

def localDeclaration (g : Grammar) : Parser LocalDeclaration := do
  let start ← position
  let type ← typeExpr g .lowest
  let declarators ← declarators g
  let _ ← expectPunct .semicolon
  return ⟨type, declarators, ← spanFrom start⟩

def skipDotted : List Kind → List Kind
  | .punct .dot :: .identifier :: kinds => skipDotted kinds
  | kinds => kinds

def skipBrackets : List Kind → List Kind
  | .punct .openBracket :: .punct .closeBracket :: kinds => skipBrackets kinds
  | kinds => kinds

/-- The shape of a local declaration whose type is a class name: `Name[.Name]*[[]]* name`. -/
def startsDeclaration : List Kind → Bool
  | .identifier :: kinds => (skipBrackets (skipDotted kinds)).head? == some .identifier
  | _ => false

/-- A block, given how to read what is inside. -/
def blockOf (statements : Parser (List Statement)) : Parser Block := do
  let opening ← expectPunct .openCurly
  let body ← statements
  let _ ← expectPunct .closeCurly
  return ⟨body, ← spanFrom opening.span.start⟩

/-- A statement that the language leaves out. -/
def refusedStatement : Parser Statement := do unsupported (← kind).construct

/-- A statement, given how to read the inside of a block. An expression is read to its end before it
is refused, so that an operator in it is what the error names. -/
def statementOf (g : Grammar) (statements : Parser (List Statement)) : Parser Statement := do
  let cursor ← get
  match g.statement cursor.kind with
  | some .block => return .ofBlock (← blockOf statements)
  | some .declaration => return .declaration (← localDeclaration g)
  | some .refused => refusedStatement
  | none =>
    if startsDeclaration (cursor.ahead.map (·.kind)) then
      return .declaration (← localDeclaration g)
    else
      let value ← expression g .lowest
      throw ⟨.unsupported "expression statement", value.span.start⟩

/-- The next item of a body in braces, none before the closing one. -/
def nextInBraces {α : Type} (item : Parser α) : Parser (Option α) := do
  match ← kind with
  | .punct .closeCurly => return none
  | .eof => expected endOfFile
  | _ => some <$> item

/-- The inside of a block, with no more than the given number of blocks around one another. -/
def statements (g : Grammar) : Nat → Parser (List Statement)
  | 0 => expected endOfFile
  | depth + 1 => many (nextInBraces (statementOf g (statements g depth)))

/-- Every block opens with a token of its own, so the tokens ahead bound the depth. -/
def body (g : Grammar) : Parser (List Statement) := do statements g ((← get).ahead.length + 1)

def block (g : Grammar) : Parser Block := blockOf (body g)

def statement (g : Grammar) : Parser Statement := statementOf g (body g)

end Javelet.Parser
