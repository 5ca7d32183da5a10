import Javelet.Position
import Javelet.Text.Quoted

/-! Fatal errors: the input is outside the supported language. A program that is merely ill typed
never ends in one of these; its failing obligations say what is wrong. -/
namespace Javelet

/-- What is wrong. Types are given as they are written in the program. -/
inductive Cause where
  | unrecognised (token : String)
  | unexpected (token : String)
  | expected (token message : String)
  | badNumber (token : String)
  | unsupported (construct : String)
  | importPresent (name : String)
  | severalTypes (count : Nat)
  | nestedType (owner : String)
  | unsupportedModifier (modifier : String)
  | unsupportedPrimitive (type : String)
  | qualifiedType (type : String)
  | unsupportedType (type : String)
  | severalDeclarators (names : List String)
  | memberDeclared (name type : String)
  | variableDeclared (name type : String)
  | methodUndeclared (method : String)
  | noScope (name : String)
deriving DecidableEq

namespace Cause
open Text

def name : Cause → String
  | unrecognised _ => "UnrecognisedToken"
  | unexpected _ => "UnexpectedToken"
  | expected _ _ => "UnexpectedTokenDetailed"
  | badNumber _ => "NumberParseError"
  | unsupported _ => "UnsupportedConstruct"
  | importPresent _ => "ImportNotAllowed"
  | severalTypes _ => "MultipleTypeDeclarations"
  | nestedType _ => "NestedTypeDeclaration"
  | unsupportedModifier _ => "UnsupportedModifier"
  | unsupportedPrimitive _ => "UnsupportedPrimitiveType"
  | qualifiedType _ => "TypeNameNotSimple"
  | unsupportedType _ => "UnsupportedType"
  | severalDeclarators _ => "MultipleFragments"
  | memberDeclared _ _ => "MemberAlreadyDeclared"
  | variableDeclared _ _ => "VariableAlreadyDeclared"
  | methodUndeclared _ => "MethodNotDeclared"
  | noScope _ => "NoActiveScope"

/-- Names from the program are quoted; a type that is already on record is not. -/
def message : Cause → String
  | unrecognised token => "unrecognised token: " ++ quoted token
  | unexpected token => "unexpected token: " ++ quoted token
  | expected token message => "unexpected token (" ++ quoted message ++ "): " ++ quoted token
  | badNumber token => "error parsing number: " ++ quoted token
  | unsupported construct => "unsupported construct: " ++ construct
  | importPresent name =>
    "no imports are allowed in the compilation unit, found " ++ quoted name
  | severalTypes count =>
    "only one type declaration allowed in the compilation unit, found " ++ toString count
  | nestedType owner => "no type declarations allowed in " ++ quoted owner
  | unsupportedModifier modifier =>
    "only private, public, and protected are supported as modifiers, found " ++ quoted modifier
  | unsupportedPrimitive type =>
    "primitive type " ++ quoted type ++ " is not an int, boolean, or void"
  | qualifiedType type => quoted type ++ " is not a simple name"
  | unsupportedType type => quoted type ++ " is not a simple or primitive type"
  | severalDeclarators names =>
    "only one variable per declaration is supported, found " ++ quotedList names
  | memberDeclared name type => quoted name ++ " already exists in symbol table with type " ++ type
  | variableDeclared name type =>
    quoted name ++ " already exists in symbol table with type " ++ type
  | methodUndeclared method => "method " ++ quoted method ++ " not found in symbol table"
  | noScope name => "no scope is open to bind " ++ quoted name

/-- A hint for the author of the program, with names as they are. -/
def tip? : Cause → Option String
  | unrecognised _ => none
  | unexpected token => some ("Unexpected token: `" ++ token ++ "`, did you miss a semicolon?")
  | expected token message => some ("Unexpected token: `" ++ token ++ "`, " ++ message)
  | badNumber token =>
    some ("Invalid number: `" ++ token ++ "`, is it above the integer limit?")
  | unsupported construct => some (construct ++ " is not part of the supported language")
  | importPresent _ => some "Remove the import, no external references are allowed"
  | severalTypes count =>
    some ("Only one type declaration is allowed per unit, found " ++ toString count)
  | nestedType owner => some ("Move the nested type out of `" ++ owner ++ "`")
  | unsupportedModifier modifier =>
    some ("Modifier `" ++ modifier ++ "` is not supported, use public, private or protected")
  | unsupportedPrimitive type =>
    some ("Primitive type `" ++ type ++ "` is not supported, use int or boolean")
  | qualifiedType type => some ("Type `" ++ type ++ "` must be a simple name")
  | unsupportedType type => some ("Type `" ++ type ++ "` is not a simple or primitive type")
  | severalDeclarators names =>
    some ("Declare `" ++ "`, `".intercalate names ++ "` in separate declarations")
  | memberDeclared name type =>
    some ("`" ++ name ++ "` already declared with type `" ++ type ++ "`")
  | variableDeclared name type =>
    some ("Variable `" ++ name ++ "` already visible with type `" ++ type ++ "`")
  | methodUndeclared method =>
    some ("Method `" ++ method ++
      "` is missing from the symbol table, was it built from this unit?")
  | noScope name => some ("Push a scope before binding `" ++ name ++ "`")

end Cause

structure Error where
  cause : Cause
  position : Position
deriving DecidableEq

end Javelet
