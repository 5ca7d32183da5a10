import Javelet.Text.Cursor
import Javelet.Token.Scan

/-! Scanning round by round, with places counted in bytes. A round that would cut text past the end
or inside a character has no answer. -/
namespace Javelet

namespace Lexeme

/-- The first lexeme that is there, in the order in which they are tried. -/
def found? (rest : List Char) : Option Lexeme := all.find? fun lexeme => (lexeme.width? rest).isSome

/-- The text that the lexeme takes from the front, empty if it is not there. -/
def matched (lexeme : Lexeme) (rest : List Char) : List Char :=
  rest.take ((lexeme.width? rest).getD 0)

theorem byteLength_matched_pos {lexeme : Lexeme} {rest : List Char}
    (found : found? rest = some lexeme) : 0 < Text.byteLength (lexeme.matched rest) := by
  unfold found? at found
  have there := List.find?_some found
  obtain ⟨n, width⟩ := Option.isSome_iff_exists.mp there
  have bounds := width?_bounds width
  apply Text.byteLength_pos
  rw [matched, width, Option.getD_some, ← List.length_pos_iff, List.length_take]
  omega

end Lexeme

/-- A scan on its way: where it has come to, and the tokens that it has made. -/
structure Scanner where
  place : Text.Cursor
  tokens : List Token

namespace Scanner

def ofSource (source file : String) : Scanner := ⟨.ofSource source file, []⟩

/-- Moves on by so many bytes. -/
def skip (s : Scanner) (bytes : Nat) : Scanner := { s with place := s.place.advance bytes }

/-- Makes a token of the next bytes and moves on behind them. -/
def push (s : Scanner) (kind : Kind) (value : String) (bytes : Nat) : Scanner :=
  ⟨s.place.advance bytes, s.tokens ++ [⟨kind, value, s.place.span bytes⟩]⟩

/-- What is done with a lexeme in front of the rest. Punctuation is not looked at again: it moves on
by the length of its spelling. -/
def handle? (s : Scanner) (rest : List Char) : Lexeme → Option Scanner
  | .word =>
    let text := Lexeme.word.matched rest
    let word := String.ofList text
    some (s.push ((Kind.reserved? word).getD .identifier) word (Text.byteLength text))
  | .number =>
    let text := Lexeme.number.matched rest
    some (s.push .number (String.ofList text) (Text.byteLength text))
  | .quoted => do
    let text := Lexeme.quoted.matched rest
    let inside ← Text.slice? text 1 (Text.byteLength text - 1)
    return s.push .string (String.ofList inside) (Text.byteLength text)
  | .punct p => some (s.push (.punct p) p.spelling (Text.byteLength p.spelling.toList))
  | lexeme => some (s.skip (Text.byteLength (lexeme.matched rest)))

/-- One round. There is no answer if it would cut text where no character begins. -/
def round? (s : Scanner) : Option (Except Error Scanner) := do
  let rest ← s.place.remainder?
  match Lexeme.found? rest with
  | none =>
    let next ← s.place.next?
    return .error ⟨.unrecognised (String.ofList [next]), s.place.position⟩
  | some lexeme =>
    let s' ← s.handle? rest lexeme
    return .ok s'

/-- What is done with a lexeme that is there moves on by some bytes. -/
theorem exists_advance_of_handle? {s s' : Scanner} {rest : List Char} {lexeme : Lexeme}
    (found : Lexeme.found? rest = some lexeme) (handled : s.handle? rest lexeme = some s') :
    ∃ bytes, 0 < bytes ∧ s'.place = s.place.advance bytes := by
  have positive := Lexeme.byteLength_matched_pos found
  cases lexeme with
  | quoted =>
    obtain ⟨inside, _, done⟩ := Option.bind_eq_some_iff.mp handled
    cases done
    exact ⟨_, positive, rfl⟩
  | punct p =>
    cases handled
    exact ⟨_, Text.byteLength_pos (List.length_pos_iff.mp (Lexeme.punct_spelling_pos p)), rfl⟩
  | word | number | blank | lineComment | blockComment =>
    cases handled
    exact ⟨_, positive, rfl⟩

theorem exists_advance_of_round? {s s' : Scanner} (ran : s.round? = some (.ok s')) :
    ∃ bytes, 0 < bytes ∧ s'.place = s.place.advance bytes := by
  obtain ⟨rest, _, step⟩ := Option.bind_eq_some_iff.mp ran
  cases found : Lexeme.found? rest with
  | none =>
    rw [found] at step
    obtain ⟨next, _, failed⟩ := Option.bind_eq_some_iff.mp step
    cases failed
  | some lexeme =>
    rw [found] at step
    obtain ⟨moved, handled, done⟩ := Option.bind_eq_some_iff.mp step
    cases done
    exact exists_advance_of_handle? found handled

/-- Goes on round by round to the end of the source or to the first failure. -/
def finish? (s : Scanner) : Option (Except Error (List Token)) :=
  if s.place.atEnd then
    some (.ok (s.tokens ++ [.ending s.place.position]))
  else
    match _h : s.round? with
    | none => none
    | some (.error e) => some (.error e)
    | some (.ok s') => s'.finish?
termination_by Text.byteLength s.place.source - s.place.byte
decreasing_by
  rename_i inside
  obtain ⟨bytes, positive, moved⟩ := exists_advance_of_round? _h
  simp only [Text.Cursor.atEnd, decide_eq_true_eq] at inside
  rw [moved]
  simp only [Text.Cursor.advance]
  omega

theorem finish?_atEnd {s : Scanner} (ended : s.place.atEnd = true) :
    s.finish? = some (.ok (s.tokens ++ [.ending s.place.position])) := by
  rw [finish?, if_pos ended]

theorem finish?_error {s : Scanner} {e : Error} (inside : s.place.atEnd = false)
    (ran : s.round? = some (.error e)) : s.finish? = some (.error e) := by
  rw [finish?, if_neg (by simp [inside])]
  split <;> simp_all

theorem finish?_ok {s s' : Scanner} (inside : s.place.atEnd = false)
    (ran : s.round? = some (.ok s')) : s.finish? = s'.finish? := by
  rw [finish?, if_neg (by simp [inside])]
  split <;> simp_all

end Scanner
end Javelet
