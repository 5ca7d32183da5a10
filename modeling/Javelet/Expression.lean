import Javelet.Position

namespace Javelet

/-- A number keeps its text, since labels show it as it is written. -/
inductive Expression where
  | number (value : Int32) (text : String) (span : Span)
  | boolean (value : Bool) (span : Span)
  | null (span : Span)
  | name (text : String) (span : Span)
deriving DecidableEq

namespace Expression

def text : Expression → String
  | number _ text _ => text
  | boolean true _ => "true"
  | boolean false _ => "false"
  | null _ => "null"
  | name text _ => text

def span : Expression → Span
  | number _ _ span | boolean _ span | null span | name _ span => span

end Expression
end Javelet
