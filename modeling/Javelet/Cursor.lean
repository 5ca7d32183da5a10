import Javelet.Error
import Javelet.Token

namespace Javelet

/-- The tokens still ahead, without the ending that closes every stream. Once nothing is ahead, the
ending is the current token for good. -/
structure Cursor where
  ahead : List Token
  ending : Token
  ending_eof : ending.kind = .eof
  /-- Where the token before the current one ended. -/
  previousEnd : Position

namespace Cursor

/-- Starts at the first token. A stream that does not close with an ending is given one. -/
def ofTokens (tokens : List Token) (file : String) : Cursor :=
  let start : Position := ⟨0, file⟩
  match tokens.getLast? with
  | none => ⟨[], .ending start, rfl, start⟩
  | some last =>
    if closed : last.kind = .eof then ⟨tokens.dropLast, last, closed, start⟩
    else ⟨tokens, .ending last.span.stop, rfl, start⟩

def current (cursor : Cursor) : Token := cursor.ahead.headD cursor.ending

def kind (cursor : Cursor) : Kind := cursor.current.kind

/-- The kind of the token so many places ahead, past the end that of the ending. -/
def kindAt (cursor : Cursor) (places : Nat) : Kind :=
  (cursor.ahead[places]?.map (·.kind)).getD .eof

def position (cursor : Cursor) : Position := cursor.current.span.start

/-- Steps over the current token, but never over the ending. -/
def advance (cursor : Cursor) : Cursor :=
  match cursor.ahead with
  | [] => cursor
  | token :: rest => { cursor with ahead := rest, previousEnd := token.span.stop }

def unexpected (cursor : Cursor) : Error := ⟨.unexpected cursor.current.value, cursor.position⟩

def expected (cursor : Cursor) (message : String) : Error :=
  ⟨.expected cursor.current.value message, cursor.position⟩

def unsupported (cursor : Cursor) (construct : String) : Error :=
  ⟨.unsupported construct, cursor.position⟩

/-- A stream that closes with an ending is taken as it is. -/
theorem ofTokens_concat (spelled : List Token) {last : Token} (closed : last.kind = .eof)
    (file : String) : ofTokens (spelled ++ [last]) file = ⟨spelled, last, closed, ⟨0, file⟩⟩ := by
  simp [ofTokens, closed]

theorem mem_of_mem_ofTokens {tokens : List Token} {file : String} {token : Token}
    (member : token ∈ (ofTokens tokens file).ahead) : token ∈ tokens := by
  unfold ofTokens at member
  split at member
  · cases member
  · dsimp only at member
    split at member
    · exact (List.dropLast_sublist tokens).subset member
    · exact member

theorem advance_ahead (cursor : Cursor) : cursor.advance.ahead = cursor.ahead.tail := by
  unfold advance
  split <;> simp_all

theorem advance_ending (cursor : Cursor) : cursor.advance.ending = cursor.ending := by
  unfold advance
  split <;> rfl

/-- The current token is the first of the places ahead. -/
theorem kindAt_zero (cursor : Cursor) : cursor.kindAt 0 = cursor.kind := by
  cases h : cursor.ahead with
  | nil => simp [kindAt, kind, current, h, cursor.ending_eof]
  | cons token rest => simp [kindAt, kind, current, h]

/-- Only a token before the ending can be of another kind than the ending's. -/
theorem ahead_ne_nil (cursor : Cursor) (h : cursor.kind ≠ .eof) : cursor.ahead ≠ [] := by
  intro none
  exact h (by simp [kind, current, none, cursor.ending_eof])

end Cursor
end Javelet
