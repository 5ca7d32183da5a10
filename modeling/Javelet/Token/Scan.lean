import Javelet.Error
import Javelet.Text.Bytes
import Javelet.Token
import Javelet.Token.Lexeme

namespace Javelet.Token

/-- The token for the text of a lexeme that starts at a byte. -/
def ofLexeme? (file : String) (byte : Nat) (lexeme : Lexeme) (text : List Char) : Option Token :=
  (lexeme.token? text).map fun (kind, value) =>
    ⟨kind, value, .ofByte byte file, .ofByte (byte + Text.byteLength text) file⟩

/-- Scans characters of which the first stands at the given byte of the file. -/
def scanFrom (file : String) (byte : Nat) : List Char → Except Error (List Token)
  | [] => .ok [ending (.ofByte byte file)]
  | c :: cs =>
    match _h : Lexeme.first? (c :: cs) with
    | none => .error ⟨.unrecognised (String.ofList [c]), .ofByte byte file⟩
    | some (lexeme, width) =>
      let text := (c :: cs).take width
      (scanFrom file (byte + Text.byteLength text) ((c :: cs).drop width)).map
        ((ofLexeme? file byte lexeme text).toList ++ ·)
termination_by cs => cs.length
decreasing_by
  have := Lexeme.first?_bounds _h
  rw [List.length_drop]
  omega

/-- The tokens of a source. The last is the ending, just past the last byte. -/
def scan (source file : String) : Except Error (List Token) := scanFrom file 0 source.toList

theorem scanFrom_nil (file : String) (byte : Nat) :
    scanFrom file byte [] = .ok [ending (.ofByte byte file)] := by
  rw [scanFrom]

/-- Where no lexeme starts, scanning ends. -/
theorem scanFrom_eq_error (file : String) (byte : Nat) {c : Char} {cs : List Char}
    (h : Lexeme.first? (c :: cs) = none) :
    scanFrom file byte (c :: cs) =
      .error ⟨.unrecognised (String.ofList [c]), .ofByte byte file⟩ := by
  rw [scanFrom]
  split
  · rfl
  · simp_all

/-- A lexeme is cut off and scanning goes on behind it. -/
theorem scanFrom_eq_append (file : String) (byte : Nat) {cs : List Char} {lexeme : Lexeme}
    {width : Nat} (h : Lexeme.first? cs = some (lexeme, width)) :
    scanFrom file byte cs =
      (scanFrom file (byte + Text.byteLength (cs.take width)) (cs.drop width)).map
        ((ofLexeme? file byte lexeme (cs.take width)).toList ++ ·) := by
  cases cs with
  | nil =>
    have := Lexeme.first?_bounds h
    simp only [List.length_nil] at this
    omega
  | cons c cs =>
    rw [scanFrom]
    split
    · simp_all
    · rename_i found
      rw [h] at found
      cases found
      rfl

end Javelet.Token
