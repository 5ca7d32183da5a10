import Javelet.Declaration
import Javelet.Statement.Parser

namespace Javelet

/-- A semicolon on its own is a member that declares nothing. -/
inductive Member where
  | empty
  | field (f : Field)
  | method (m : Method)
  | nested (c : Class)

namespace Member

def field? : Member → Option Field
  | field f => some f
  | _ => none

def method? : Member → Option Method
  | method m => some m
  | _ => none

def nested? : Member → Option Class
  | nested c => some c
  | _ => none

end Member

namespace Parser

def nextModifier : Parser (Option Modifier) := do
  match ← kind with
  | .modifier m =>
    let _ ← advance
    return some m
  | _ => return none

def modifiers : Parser (List Modifier) := many nextModifier

/-- A parameter cannot have modifiers. -/
def refuseModifier : Parser Unit := do
  let cursor ← get
  if cursor.kind.isModifier then
    throw ⟨.unsupportedModifier cursor.current.value, cursor.position⟩
  else return ()

def parameter (g : Grammar) : Parser Parameter := do
  let start ← position
  refuseModifier
  let type ← typeExpr g .lowest
  refuse (.punct .dot) "variable arity parameter"
  let name ← take .identifier (expected "expected parameter name")
  refuse (.punct .openBracket) "array declarator"
  return ⟨name.value, type, ← spanFrom start⟩

/-- The comma behind a parameter, which only the last can do without. -/
def parameterEnd : Parser Unit := do
  match ← kind with
  | .punct .comma =>
    let _ ← advance
  | .punct .closeParen => return ()
  | _ => expected "expected ',' or ')' in parameter list"

def nextParameter (g : Grammar) : Parser (Option Parameter) := do
  if (← kind) = .punct .closeParen then return none
  else
    let parameter ← parameter g
    parameterEnd
    return some parameter

/-- The parameters up to the closing parenthesis. -/
def parameters (g : Grammar) : Parser (List Parameter) := many (nextParameter g)

/-- Not a reserved word, but refused behind the parameters of a method. -/
def refuseThrows : Parser Unit := do
  let cursor ← get
  if cursor.kind = .identifier ∧ cursor.current.value = "throws" then unsupported "throws clause"
  else return ()

/-- A block, or a semicolon in its place. -/
def methodBody (g : Grammar) : Parser (Option Block) := do
  if (← kind) = .punct .semicolon then
    let _ ← advance
    return none
  else some <$> block g

/-- A method from its name on. -/
def method (g : Grammar) (start : Position) (modifiers : List Modifier) (type : TypeExpr) :
    Parser Method := do
  let name ← expect .identifier
  let _ ← expectPunct .openParen
  let parameters ← parameters g
  let _ ← expectPunct .closeParen
  refuse (.punct .openBracket) "array declarator"
  refuseThrows
  let body ← methodBody g
  return ⟨modifiers, type, name.value, parameters, body, ← spanFrom start⟩

/-- A field from its first variable on. -/
def field (g : Grammar) (start : Position) (modifiers : List Modifier) (type : TypeExpr) :
    Parser Field := do
  let declarators ← declarators g
  let _ ← expectPunct .semicolon
  return ⟨modifiers, type, declarators, ← spanFrom start⟩

/-- A class from its keyword on, given how to read its members. -/
def classOf (members : Parser (List Member)) (start : Position) (modifiers : List Modifier) :
    Parser Class := do
  let _ ← expect (.keyword .classWord)
  let name ← take .identifier (expected "expected identifier after 'class'")
  refuse (.keyword .extendsWord) "inheritance"
  refuse (.keyword .implementsWord) "inheritance"
  refuse (.punct .less) "type parameters"
  let _ ← expectPunct .openCurly
  let members ← members
  let _ ← expectPunct .closeCurly
  return ⟨name.value, modifiers, members.filterMap Member.field?,
    members.filterMap Member.method?, members.filterMap Member.nested?, ← spanFrom start⟩

/-- A field or method from its type on. -/
def typedMember (g : Grammar) (start : Position) (modifiers : List Modifier) : Parser Member := do
  let type ← typeExpr g .lowest
  let cursor ← get
  if cursor.kind = .identifier ∧ cursor.kindAt 1 = .punct .openParen then
    return .method (← method g start modifiers type)
  else if cursor.kind = .identifier ∧ cursor.kindAt 1 = .punct .openCurly then
    throw ⟨.methodUndeclared cursor.current.value, cursor.position⟩
  else return .field (← field g start modifiers type)

/-- A member, given how to read those of a nested class. -/
def memberOf (g : Grammar) (members : Parser (List Member)) : Parser Member := do
  if (← kind) = .punct .semicolon then
    let _ ← advance
    return .empty
  else
    let start ← position
    let modifiers ← modifiers
    let cursor ← get
    match cursor.kind with
    | .keyword .classWord => return .nested (← classOf members start modifiers)
    | .keyword .interfaceWord | .keyword .enumWord => unsupported cursor.kind.construct
    | .punct .openCurly => unsupported "initializer block"
    | .identifier =>
      if cursor.kindAt 1 = .punct .openParen then unsupported "constructor"
      else typedMember g start modifiers
    | _ => typedMember g start modifiers

/-- The members of a class, with no more than the given number of classes around one another. -/
def members (g : Grammar) : Nat → Parser (List Member)
  | 0 => expected endOfFile
  | depth + 1 => many (nextInBraces (memberOf g (members g depth)))

/-- A class with the modifiers in front of it. -/
def typeDeclaration (g : Grammar) : Parser Class := do
  let start ← position
  let modifiers ← modifiers
  let cursor ← get
  match cursor.kind with
  | .keyword .classWord => classOf (members g (cursor.ahead.length + 1)) start modifiers
  | .keyword .interfaceWord | .keyword .enumWord => unsupported cursor.kind.construct
  | _ => expected "expected a class declaration"

/-- The star of an import of all names, if it is there. -/
def wildcard : Parser String := do
  let cursor ← get
  if cursor.kind = .punct .dot ∧ cursor.kindAt 1 = .punct .star then
    let _ ← advance
    let _ ← advance
    return ".*"
  else return ""

/-- An import, whose keyword is taken unseen. -/
def importDeclaration : Parser Import := do
  let first ← advance
  let name ← qualifiedName
  let all ← wildcard
  let _ ← expectPunct .semicolon
  return ⟨name ++ all, ← spanFrom first.span.start⟩

def nextImport : Parser (Option Import) := do
  if (← kind) = .keyword .importWord then some <$> importDeclaration else return none

def packageName : Parser (Option String) := do
  if (← kind) = .keyword .packageWord then
    let _ ← advance
    let name ← qualifiedName
    let _ ← expectPunct .semicolon
    return some name
  else return none

/-- A class or a semicolon, which stands for nothing. -/
def nextClass (g : Grammar) : Parser (Option (Option Class)) := do
  match ← kind with
  | .eof => return none
  | .punct .semicolon =>
    let _ ← advance
    return some none
  | _ => return some (some (← typeDeclaration g))

/-- A whole unit. Its span starts at the first token, even when that is the ending. -/
def compilationUnit (g : Grammar) : Parser CompilationUnit := do
  let start ← position
  let package ← packageName
  let imports ← many nextImport
  let classes ← many (nextClass g)
  return ⟨package, imports, classes.filterMap id, ← spanFrom start⟩

end Parser

/-- Reads a unit by the standard grammar. -/
def CompilationUnit.ofTokens (tokens : List Token) (file : String) :
    Except Error CompilationUnit :=
  match (Parser.compilationUnit .standard).run (.ofTokens tokens file) with
  | .ok unit _ => .ok unit
  | .error e _ => .error e

end Javelet
