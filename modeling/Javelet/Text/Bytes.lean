namespace Javelet.Text

/-- The length of the UTF-8 form. -/
def byteLength (cs : List Char) : Nat := cs.foldr (fun c rest => c.utf8Size + rest) 0

/-- Drops the characters that fill exactly the given number of bytes, if there are such. -/
def dropBytes? : Nat → List Char → Option (List Char)
  | 0, cs => some cs
  | _ + 1, [] => none
  | n + 1, c :: cs => if c.utf8Size ≤ n + 1 then dropBytes? (n + 1 - c.utf8Size) cs else none

/-- The text from one byte to another. There is no answer if a byte is past the end or inside a
character, or if they are out of order. -/
def slice? (cs : List Char) (start stop : Nat) : Option (List Char) := do
  let front ← dropBytes? start cs
  let back ← dropBytes? stop cs
  if start ≤ stop then some (front.take (front.length - back.length)) else none

@[simp] theorem byteLength_nil : byteLength [] = 0 := rfl

@[simp] theorem byteLength_cons (c : Char) (cs : List Char) :
    byteLength (c :: cs) = c.utf8Size + byteLength cs := rfl

@[simp] theorem byteLength_append (cs ds : List Char) :
    byteLength (cs ++ ds) = byteLength cs + byteLength ds := by
  induction cs with
  | nil => simp
  | cons c cs ih => simp [ih, Nat.add_assoc]

theorem byteLength_pos {cs : List Char} (some : cs ≠ []) : 0 < byteLength cs := by
  cases cs with
  | nil => exact absurd rfl some
  | cons c cs =>
    have size := c.utf8Size_pos
    rw [byteLength_cons]
    omega

theorem dropBytes?_append (cs ds : List Char) :
    dropBytes? (byteLength cs) (cs ++ ds) = some ds := by
  induction cs with
  | nil => cases ds <;> rfl
  | cons c cs ih =>
    obtain ⟨n, hn⟩ : ∃ n, byteLength (c :: cs) = n + 1 :=
      ⟨c.utf8Size + byteLength cs - 1, by have := c.utf8Size_pos; simp; omega⟩
    have rest : n + 1 - c.utf8Size = byteLength cs := by simp at hn; omega
    have fits : c.utf8Size ≤ n + 1 := by simp at hn; omega
    rw [hn, List.cons_append, dropBytes?, if_pos fits, rest, ih]

theorem slice?_append (before text after : List Char) :
    slice? (before ++ text ++ after) (byteLength before) (byteLength before + byteLength text) =
      some text := by
  have front : dropBytes? (byteLength before) (before ++ text ++ after) = some (text ++ after) := by
    rw [List.append_assoc]
    exact dropBytes?_append before _
  have back := dropBytes?_append (before ++ text) after
  rw [byteLength_append] at back
  simp only [slice?, front, back, Option.bind_eq_bind, Option.bind_some, Nat.le_add_right, if_true]
  simp

end Javelet.Text
