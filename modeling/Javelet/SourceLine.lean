import Javelet.Text.Bytes

namespace Javelet

/-- A line, numbered from 1, with the line break that ends it, and a place in it. -/
structure SourceLine where
  number : Nat
  text : List Char
  byte : Nat
deriving DecidableEq

namespace SourceLine
open Text

/-- Cuts a text behind every line break. No line is empty. -/
def split : List Char → List (List Char)
  | [] => []
  | c :: cs =>
    if c = '\n' then [c] :: split cs
    else
      match split cs with
      | [] => [[c]]
      | line :: lines => (c :: line) :: lines

/-- Counts lines and bytes until the line is reached. The end of the last line belongs to it. -/
def locate (number byte : Nat) : List (List Char) → SourceLine
  | [] => ⟨number, [], 0⟩
  | line :: lines =>
    if byte < byteLength line ∨ (lines.isEmpty ∧ byte = byteLength line) then ⟨number, line, byte⟩
    else locate (number + 1) (byte - byteLength line) lines

/-- The line of a byte, if the text reaches so far. -/
def find? (content : String) (byte : Nat) : Option SourceLine :=
  if byteLength content.toList < byte then none
  else some (locate 1 byte (split content.toList))

theorem flatten_split (cs : List Char) : (split cs).flatten = cs := by
  induction cs with
  | nil => rfl
  | cons c cs ih =>
    unfold split
    split
    · simp [ih]
    · split
      · rename_i none
        rw [none] at ih
        simp [← ih]
      · rename_i line lines some
        rw [some] at ih
        simp [← ih]

end SourceLine
end Javelet
