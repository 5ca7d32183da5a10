import Javelet.Statement

/-! Compilation units, classes and members. More can be written down here than the language
supports: imports, several or nested classes and every modifier are kept, to be refused by name. -/
namespace Javelet

structure Field where
  modifiers : List Modifier
  type : TypeExpr
  declarators : List Declarator
  span : Span
deriving DecidableEq

def Field.declarator (field : Field) : Except Error Declarator :=
  Declarator.single field.declarators field.span

structure Parameter where
  name : String
  type : TypeExpr
  span : Span
deriving DecidableEq

/-- A method without a body ends in a semicolon. -/
structure Method where
  modifiers : List Modifier
  type : TypeExpr
  name : String
  parameters : List Parameter
  body : Option Block
  span : Span

structure Class where
  name : String
  modifiers : List Modifier
  fields : List Field
  methods : List Method
  nested : List Class
  span : Span

structure Import where
  name : String
  span : Span
deriving DecidableEq

structure CompilationUnit where
  package : Option String
  imports : List Import
  classes : List Class
  span : Span

end Javelet
