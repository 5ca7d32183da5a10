namespace Javelet

/-- A byte offset into a named file. Offsets are 32-bit and wrap past that. -/
structure Position where
  offset : UInt32
  file : String
deriving DecidableEq

namespace Position

/-- Stands in where no source is at hand. -/
def unknown : Position := ⟨0, "<null>"⟩

def ofByte (byte : Nat) (file : String) : Position := ⟨byte.toUInt32, file⟩

end Position

structure Span where
  start : Position
  stop : Position
deriving DecidableEq

end Javelet
