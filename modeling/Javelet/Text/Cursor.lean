import Javelet.Position
import Javelet.Text.Bytes

namespace Javelet.Text

/-- The byte may lie past the end of the source or inside a character. -/
structure Cursor where
  source : List Char
  byte : Nat
  file : String

namespace Cursor

def ofSource (source file : String) : Cursor := ⟨source.toList, 0, file⟩

def advance (cursor : Cursor) (bytes : Nat) : Cursor :=
  { cursor with byte := cursor.byte + bytes }

/-- What is left. There is no answer past the end or inside a character. -/
def remainder? (cursor : Cursor) : Option (List Char) := dropBytes? cursor.byte cursor.source

/-- The next character, NUL at the end. -/
def next? (cursor : Cursor) : Option Char := cursor.remainder?.map (·.headD '\x00')

def atEnd (cursor : Cursor) : Bool := byteLength cursor.source ≤ cursor.byte

def position (cursor : Cursor) : Position := .ofByte cursor.byte cursor.file

/-- Covers the next bytes. -/
def span (cursor : Cursor) (bytes : Nat) : Span :=
  ⟨cursor.position, .ofByte (cursor.byte + bytes) cursor.file⟩

end Cursor
end Javelet.Text
