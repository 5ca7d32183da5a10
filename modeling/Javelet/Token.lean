import Javelet.Position
import Javelet.Token.Kind

namespace Javelet

/-- A token of the source. A string's value leaves out the quotes that its span includes. -/
structure Token where
  kind : Kind
  value : String
  span : Span
deriving DecidableEq

namespace Token

/-- The empty token that ends every program. -/
def ending (position : Position) : Token := ⟨.eof, "EOF", ⟨position, position⟩⟩

def describe (token : Token) : String :=
  token.kind.name ++ " `" ++ token.value ++ "` at " ++ toString token.span.start.offset.toNat

end Token
end Javelet
