import Javelet.Proofs.Lockstep

namespace Javelet

namespace Cursor

def move (r : Relocation) (c : Cursor) : Cursor :=
  ⟨c.ahead.map (Token.move r), c.ending.move r, c.ending_eof, r.stop c.previousEnd⟩

variable (r : Relocation) (c : Cursor)

@[simp] theorem current_move : (c.move r).current = c.current.move r := by
  unfold current
  cases h : c.ahead with
  | nil => simp [move, h]
  | cons token rest => simp [move, h]

@[simp] theorem kind_move : (c.move r).kind = c.kind := by
  rw [kind, current_move]
  rfl

@[simp] theorem position_move : (c.move r).position = r.start c.position := by
  rw [position, current_move]
  rfl

theorem advance_move : (c.move r).advance = c.advance.move r := by
  cases h : c.ahead with
  | nil => simp [advance, move, h]
  | cons token rest =>
    simp [advance, move, h]
    rfl

theorem kinds_move : (c.move r).ahead.map (·.kind) = c.ahead.map (·.kind) := by
  simp [move, Function.comp_def, Token.move]

end Cursor

/-- A stream beside the same stream with its places moved. Readers carry places along and never look
at them. -/
def Lockstep.moved (r : Relocation) : Lockstep where
  move := r
  level c d := d = c.move r
  fails e _ e' _ := e' = e.move r
  stops _ _ := False
  kind_eq := by
    rintro c _ rfl
    exact c.kind_move r
  position_eq := by
    rintro c _ rfl
    exact c.position_move r
  previousEnd_eq := by
    rintro c _ rfl
    rfl
  step := by
    rintro c _ rfl _
    exact ⟨c.current_move r, c.advance_move r⟩
  number := by
    rintro c _ rfl _
    exact .inr ⟨c.current_move r, c.advance_move r, fun _ => rfl⟩
  declares := by
    rintro c _ rfl
    rw [c.kinds_move r]
  unexpected := by
    rintro c _ rfl
    simp [Cursor.unexpected, Error.move, Token.move]
  expected := by
    rintro c _ rfl message
    simp [Cursor.expected, Error.move, Token.move]
  throws _ _ := rfl

end Javelet
