import Javelet.TypeExpr.Resolve
import Javelet.Declaration
import Javelet.Signatures

/-! Collecting what a unit declares. Here a program is held to the shape of the language: one class,
no imports, no nested classes, no modifiers but visibility, one variable per field, and no two
members of one name. -/
namespace Javelet

/-- Collecting stops at the first error, with what was declared before it at hand. -/
abbrev Collector := EStateM Error Signatures

namespace Collector

def requireVisibility (modifiers : List Modifier) (position : Position) : Collector Unit :=
  match modifiers.find? fun m => !m.isVisibility with
  | some m => throw ⟨.unsupportedModifier m.spelling, position⟩
  | none => return ()

/-- Records a member whose name is not taken. -/
def declare (name : String) (tag : Tag) (position : Position) : Collector Unit := do
  match (← get).type? name with
  | some existing => throw ⟨.memberDeclared name existing.text, position⟩
  | none => modify fun s => { s with types := s.types ++ [(name, tag)] }

def field (owner : String) (field : Field) : Collector Unit := do
  requireVisibility field.modifiers field.span.start
  let tag ← MonadExcept.ofExcept (field.type.resolve false)
  let declarator ← MonadExcept.ofExcept field.declarator
  declare (Signatures.memberName owner declarator.name) tag field.span.start

def parameters (parameters : List Parameter) : Collector (List (String × Tag)) :=
  parameters.mapM fun parameter => do
    return (parameter.name, ← MonadExcept.ofExcept (parameter.type.resolve false))

def method (owner : String) (method : Method) : Collector Unit := do
  requireVisibility method.modifiers method.span.start
  let tag ← MonadExcept.ofExcept (method.type.resolve true)
  let parameters ← parameters method.parameters
  let name := Signatures.memberName owner method.name
  declare name tag method.span.start
  modify fun s => { s with parameters := s.parameters ++ [(name, parameters)] }

def requireNoNested (c : Class) : Collector Unit :=
  match c.nested with
  | [] => return ()
  | first :: _ => throw ⟨.nestedType c.name, first.span.start⟩

/-- Fields come before methods, whatever their order in the class. -/
def ofClass (c : Class) : Collector Unit := do
  requireVisibility c.modifiers c.span.start
  requireNoNested c
  c.fields.forM (field c.name)
  c.methods.forM (method c.name)

def requireNoImport (unit : CompilationUnit) : Collector Unit :=
  match unit.imports with
  | [] => return ()
  | first :: _ => throw ⟨.importPresent first.name, first.span.start⟩

def requireOneClass (unit : CompilationUnit) : Collector Unit :=
  match unit.classes with
  | _ :: second :: _ => throw ⟨.severalTypes unit.classes.length, second.span.start⟩
  | _ => return ()

def unit (unit : CompilationUnit) : Collector Unit := do
  requireNoImport unit
  requireOneClass unit
  unit.classes.forM ofClass

end Collector

/-- The declarations of a unit. -/
def Signatures.ofUnit (unit : CompilationUnit) : Except Error Signatures :=
  match (Collector.unit unit).run {} with
  | .ok _ signatures => .ok signatures
  | .error e _ => .error e

end Javelet
