import Javelet.TypeExpr.Resolve
import Javelet.Declaration
import Javelet.Event
import Javelet.Obligation
import Javelet.Scopes

/-! Deriving the type of every construct together with the obligations that justify it. A type error
makes an obligation fail and the derivation goes on; what the language does not have ends it. -/
namespace Javelet

/-- A type and the tree that justifies it. -/
structure Derivation where
  tag : Tag
  tree : Obligation

/-- Blocks and statements are numbered within a method, in the order in which they are done. -/
structure Checker where
  scopes : Scopes
  className : String := ""
  blocks : Nat := 0
  statements : Nat := 0
  /-- The latest event first. -/
  events : List Event := []

/-- A check that fails leaves its scopes open. -/
abbrev Check := EStateM Error Checker

namespace Derivation

def judgment (subject : String) (tag : Tag) : String := subject ++ " : " ++ tag.text

/-- A name or literal with its type: one leaf says that it has one. -/
def lookup (name : String) (tag : Tag) : Derivation :=
  ⟨tag, .ofChildren (judgment name tag) [.leaf ("E(" ++ name ++ ") = " ++ tag.text) !tag.isError]⟩

/-- A construct that is in order exactly if all its parts are. -/
def ofParts (subject : String) (parts : List Derivation) : Derivation :=
  let tag := Tag.allVoid (parts.map (·.tag))
  ⟨tag, .ofChildren (judgment subject tag) (parts.map (·.tree))⟩

end Derivation

namespace Check

def emit (event : Event) : Check Unit :=
  modify fun c => { c with events := event :: c.events }

def pushScope : Check Unit := do
  modify fun c => { c with scopes := c.scopes.push }
  emit (.entered (← get).scopes.depth)

def popScope : Check Unit := do
  emit (.left (← get).scopes.depth)
  modify fun c => { c with scopes := c.scopes.pop }

def bindName (name : String) (tag : Tag) (position : Position) : Check Unit := do
  let scopes ← MonadExcept.ofExcept ((← get).scopes.bind name tag position)
  emit (.bound name tag)
  modify fun c => { c with scopes }

def typeOf (name : String) : Check Tag := do return (← get).scopes.typeOf name

def resetNumbers : Check Unit := modify fun c => { c with blocks := 0, statements := 0 }

def nextBlock : Check String :=
  modifyGet fun c => (s!"B{c.blocks}", { c with blocks := c.blocks + 1 })

def nextStatement : Check String :=
  modifyGet fun c => (s!"S{c.statements}", { c with statements := c.statements + 1 })

def typeOfExpression : Expression → Check Tag
  | .name text _ => typeOf text
  | .number _ _ _ => return .int
  | .boolean _ _ => return .boolean
  | .null _ => return .null

def expression (e : Expression) : Check Derivation := do
  let tag ← typeOfExpression e
  emit (.typed e.text tag)
  return .lookup e.text tag

/-- Whether a variable's value fits its type, with the obligations that say so: the value's own, and
that it can be assigned. Without a value, the variable needs a type and no more. -/
def initializer (left : Tag) : Option Expression → Check (Bool × List Obligation)
  | none => return (!left.isError, [])
  | some value => do
    let right ← expression value
    let fits := left.assignable right.tag
    return (fits, [right.tree, .leaf (left.text ++ " := " ++ right.tag.text) fits])

/-- The variable is in scope in its own value. -/
def localDeclaration (declaration : LocalDeclaration) : Check Derivation := do
  let declarator ← MonadExcept.ofExcept declaration.declarator
  let declared ← MonadExcept.ofExcept (declaration.type.resolve false)
  bindName declarator.name declared declaration.span.start
  let left := Derivation.lookup declarator.name (← typeOf declarator.name)
  let (fits, obligations) ← initializer left.tag declarator.value
  let tag : Tag := if fits then .void else .error
  return ⟨tag, .ofChildren (Derivation.judgment (← nextStatement) tag) (left.tree :: obligations)⟩

/-- A block, given how to check what is inside. -/
def blockOf (statements : Check (List Derivation)) : Check Derivation := do
  pushScope
  let parts ← statements
  popScope
  return .ofParts (← nextBlock) parts

mutual

def statement : Statement → Check Derivation
  | .block body _ => blockOf (statements body)
  | .declaration declaration => localDeclaration declaration

def statements : List Statement → Check (List Derivation)
  | [] => return []
  | first :: rest => do
    let part ← statement first
    return part :: (← statements rest)

end

def block (b : Block) : Check Derivation := blockOf (statements b.body)

/-- Binds parameters as they are on record. An error points to the parameter that is written in the
same place, or to the method's start if there is none. -/
def bindParameters (start : Position) : List (String × Tag) → List Parameter → Check Unit
  | [], _ => return ()
  | (name, tag) :: rest, [] => do
    bindName name tag start
    bindParameters start rest []
  | (name, tag) :: rest, written :: others => do
    bindName name tag written.span.start
    bindParameters start rest others

/-- A method's body, with its parameters, `this` and `return` in scope. -/
def method (m : Method) (body : Block) : Check Derivation := do
  resetNumbers
  let owner := (← get).className
  let name := Signatures.memberName owner m.name
  match (← get).scopes.globals.parameters? name with
  | none => throw ⟨.methodUndeclared name, m.span.start⟩
  | some parameters =>
    pushScope
    bindParameters m.span.start parameters m.parameters
    bindName "this" (.reference owner) m.span.start
    bindName "return" (← typeOf name) m.span.start
    let inner ← block body
    popScope
    emit (.methodChecked name inner.tag)
    return ⟨inner.tag, .ofChildren (Derivation.judgment ("method " ++ name) inner.tag) [inner.tree]⟩

/-- The methods that have a body, in order. -/
def methods : List Method → Check (List Derivation)
  | [] => return []
  | m :: rest => do
    match m.body with
    | none => methods rest
    | some body =>
      let part ← method m body
      return part :: (← methods rest)

def ofClass (c : Class) : Check Derivation := do
  modify fun checker => { checker with className := c.name }
  return .ofParts ("class " ++ c.name) (← methods c.methods)

def classes : List Class → Check (List Derivation)
  | [] => return []
  | c :: rest => do
    let part ← ofClass c
    return part :: (← classes rest)

def unit (u : CompilationUnit) : Check Derivation := do
  return .ofParts "CompilationUnit" (← classes u.classes)

end Check

/-- The verdict on a unit, given what is declared. -/
def Verdict.ofUnit (signatures : Signatures) (u : CompilationUnit) : Except Error Verdict :=
  match (Check.unit u).run { scopes := { globals := signatures } } with
  | .ok derivation _ => .ok ⟨derivation.tag.isVoid, derivation.tree⟩
  | .error e _ => .error e

end Javelet
