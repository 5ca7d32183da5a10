import Javelet.Tag

namespace Javelet

/-- The gravest first. -/
inductive Level where
  | error | info | debug | trace
deriving DecidableEq

def Level.name : Level → String
  | error => "ERROR"
  | info => "INFO"
  | debug => "DEBUG"
  | trace => "TRACE"

/-- What a run reports on its way, for those who follow it. -/
inductive Event where
  | checking (file : String)
  | unreadable (file reason : String)
  | parsed (file : String) (imports classes : Nat)
  | declared (name : String) (tag : Tag)
  | collected (declarations classes : Nat)
  | entered (depth : Nat)
  | left (depth : Nat)
  | bound (name : String) (tag : Tag)
  | typed (text : String) (tag : Tag)
  | methodChecked (name : String) (tag : Tag)
  | unitChecked (wellTyped : Bool)
deriving DecidableEq

namespace Event

def level : Event → Level
  | unreadable _ _ => .error
  | checking _ | collected _ _ | unitChecked _ => .info
  | parsed _ _ _ | declared _ _ | bound _ _ | methodChecked _ _ => .debug
  | entered _ | left _ | typed _ _ => .trace

def text : Event → String
  | checking file => "checking " ++ file
  | unreadable file reason => "failed to read " ++ file ++ ": " ++ reason
  | parsed file imports classes =>
    s!"parsed {file} with {imports} import(s) and {classes} type declaration(s)"
  | declared name tag => "declared " ++ name ++ " : " ++ tag.text
  | collected declarations classes =>
    s!"collected {declarations} declaration(s) across {classes} type(s)"
  | entered depth => s!"entered scope {depth}"
  | left depth => s!"left scope {depth}"
  | bound name tag => "local " ++ name ++ " : " ++ tag.text
  | typed text tag => text ++ " : " ++ tag.text
  | methodChecked name tag => "method " ++ name ++ " : " ++ tag.text
  | unitChecked true => "compilation unit is well typed"
  | unitChecked false => "compilation unit is ill typed"

end Event
end Javelet
