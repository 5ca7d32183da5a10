import Javelet.SourceLine
import Javelet.Proofs.Partition

namespace Javelet
namespace Text

theorem bytes_eq (source : String) :
    source.toByteArray.data.toList = source.toList.flatMap String.utf8EncodeChar := by
  rw [← String.utf8Encode_toList, List.utf8Encode, List.data_toByteArray]

theorem length_flatMap_encode (cs : List Char) :
    (cs.flatMap String.utf8EncodeChar).length = byteLength cs := by
  induction cs with
  | nil => rfl
  | cons c cs ih =>
    rw [List.flatMap_cons, List.length_append, String.length_utf8EncodeChar, ih, byteLength_cons]

/-- The byte of a line break is in no other character. -/
theorem break_mem_encode_iff (c : Char) :
    '\n'.toUInt8 ∈ String.utf8EncodeChar c ↔ c = '\n' := by
  have code : c = '\n' ↔ c.val.toNat = 10 := by
    rw [Char.ext_iff, ← UInt32.toNat_inj]
    rfl
  have byte (n : Nat) : '\n'.toUInt8 = UInt8.ofNat n ↔ n % 256 = 10 := by
    rw [← UInt8.toNat_inj, UInt8.toNat_ofNat', eq_comm]
    rfl
  rw [code]
  unfold String.utf8EncodeChar
  dsimp only
  -- one case for each width, where only the narrowest has bytes below 128
  split_ifs <;> simp only [List.mem_cons, List.not_mem_nil, or_false, byte] <;> omega

theorem count_break_flatMap_encode (cs : List Char) :
    (cs.flatMap String.utf8EncodeChar).count '\n'.toUInt8 = cs.count '\n' := by
  induction cs with
  | nil => rfl
  | cons c cs ih =>
    rw [List.flatMap_cons, List.count_append, ih, List.count_cons, Nat.add_comm]
    congr 1
    split
    · rename_i broken
      rw [beq_iff_eq.mp broken]
      rfl
    · rename_i other
      rw [beq_iff_eq, ← break_mem_encode_iff] at other
      exact List.count_eq_zero_of_not_mem other

/-- Before the last byte of a line there is no line break. -/
theorem break_not_mem_take {cs : List Char} (unbroken : '\n' ∉ cs.dropLast) {byte : Nat}
    (inside : byte < byteLength cs) :
    '\n'.toUInt8 ∉ (cs.flatMap String.utf8EncodeChar).take byte := by
  obtain rfl | ⟨body, last, rfl⟩ := List.eq_nil_or_concat' cs
  · exact absurd inside (Nat.not_lt_zero _)
  rw [List.dropLast_concat] at unbroken
  rw [List.flatMap_append, List.flatMap_singleton, List.take_append, List.mem_append]
  rintro (front | back)
  · obtain ⟨c, own, broken⟩ := List.mem_flatMap.mp (List.mem_of_mem_take front)
    rw [break_mem_encode_iff] at broken
    exact unbroken (broken ▸ own)
  · have broken := (break_mem_encode_iff last).mp (List.mem_of_mem_take back)
    -- the break is a single byte, and the bytes taken do not reach it
    rw [broken, byteLength_append, ← length_flatMap_encode body] at inside
    rw [Nat.sub_eq_zero_of_le (Nat.le_of_lt_succ inside), List.take_zero] at back
    exact List.not_mem_nil back

end Text

namespace SourceLine
open Text

/-- There is a line break at the end, and nowhere else. -/
def Ended (line : List Char) : Prop := ∃ body, line = body ++ ['\n'] ∧ '\n' ∉ body

/-- Lines of a text. All are ended, except that the last need not be if there is something in it. -/
inductive Lines : List (List Char) → Prop where
  | none : Lines []
  | last {line : List Char} : line ≠ [] → '\n' ∉ line → Lines [line]
  | more {line : List Char} {lines : List (List Char)} : Ended line → Lines lines →
      Lines (line :: lines)

theorem split_lines (cs : List Char) : Lines (split cs) := by
  induction cs with
  | nil => exact .none
  | cons c cs ih =>
    unfold split
    split
    · rename_i broken
      exact .more ⟨[], by rw [broken]; rfl, List.not_mem_nil⟩ ih
    · rename_i other
      have other := Ne.symm other
      cases lines : split cs with
      | nil => exact .last (List.cons_ne_nil _ _) (by simpa using other)
      | cons line rest =>
        rw [lines] at ih
        cases ih with
        | last _ unbroken =>
          exact .last (List.cons_ne_nil _ _) (List.not_mem_cons_of_ne_of_not_mem other unbroken)
        | more ended later =>
          obtain ⟨body, rfl, unbroken⟩ := ended
          exact .more ⟨c :: body, rfl, List.not_mem_cons_of_ne_of_not_mem other unbroken⟩ later

theorem Ended.ne_nil {line : List Char} (ended : Ended line) : line ≠ [] := by
  obtain ⟨body, rfl, _⟩ := ended
  simp

theorem Ended.count {line : List Char} (ended : Ended line) : line.count '\n' = 1 := by
  obtain ⟨body, rfl, unbroken⟩ := ended
  rw [List.count_append, List.count_eq_zero_of_not_mem unbroken, List.count_singleton_self]

theorem count_flatten {lines : List (List Char)} (ended : ∀ line ∈ lines, Ended line) :
    lines.flatten.count '\n' = lines.length := by
  induction lines with
  | nil => rfl
  | cons line lines ih =>
    obtain ⟨first, others⟩ := List.forall_mem_cons.mp ended
    rw [List.flatten_cons, List.count_append, first.count, ih others, List.length_cons,
      Nat.add_comm]

/-- A line that is cut off has no break inside, and one at its end unless it is the last. -/
theorem Lines.middle {earlier later : List (List Char)} {line : List Char}
    (lines : Lines (earlier ++ line :: later)) :
    (∀ l ∈ earlier, Ended l) ∧ line ≠ [] ∧ '\n' ∉ line.dropLast ∧ (later ≠ [] → Ended line) := by
  induction earlier with
  | nil =>
    refine ⟨List.forall_mem_nil _, ?_⟩
    cases lines with
    | last nonempty unbroken =>
      exact ⟨nonempty, fun inside => unbroken (List.mem_of_mem_dropLast inside), absurd rfl⟩
    | more ended _ =>
      refine ⟨ended.ne_nil, ?_, fun _ => ended⟩
      obtain ⟨body, rfl, unbroken⟩ := ended
      rwa [List.dropLast_concat]
  | cons first earlier ih =>
    cases rest : earlier ++ line :: later with
    | nil => simp at rest
    | cons second others =>
      rw [List.cons_append, rest] at lines
      cases lines with
      | more ended others =>
        rw [← rest] at others
        obtain ⟨front, here⟩ := ih others
        exact ⟨List.forall_mem_cons.mpr ⟨ended, front⟩, here⟩

/-- Counting goes over the lines before the one with the byte, and stops there. -/
theorem locate_splits {lines : List (List Char)} (nonempty : lines ≠ []) (number byte : Nat)
    (inside : byte ≤ byteLength lines.flatten) :
    let found := locate number byte lines
    ∃ earlier later, lines = earlier ++ found.text :: later ∧
      found.number = number + earlier.length ∧ byteLength earlier.flatten + found.byte = byte ∧
      (found.byte < byteLength found.text ∨ found.byte = byteLength found.text ∧ later = []) := by
  induction lines generalizing number byte with
  | nil => exact absurd rfl nonempty
  | cons line lines ih =>
    rw [List.flatten_cons, byteLength_append] at inside
    unfold locate
    split
    · rename_i here
      refine ⟨[], lines, rfl, rfl, Nat.zero_add _, ?_⟩
      simpa [and_comm] using here
    · rename_i further
      rw [not_or, not_lt] at further
      obtain ⟨passed, further⟩ := further
      have more : lines ≠ [] := by
        rintro rfl
        rw [List.flatten_nil, byteLength_nil] at inside
        exact further ⟨rfl, by omega⟩
      obtain ⟨earlier, later, cut, number, place, ending⟩ :=
        ih more (number + 1) (byte - byteLength line) (by omega)
      refine ⟨line :: earlier, later, congrArg _ cut, ?_, ?_, ending⟩
      · rw [number, List.length_cons]
        omega
      · rw [List.flatten_cons, byteLength_append]
        omega

/-- The byte is on the line, which stands between the earlier lines of the text and the rest. -/
structure Placed (line : SourceLine) (content : String) (byte : Nat) (earlier : List (List Char))
    (rest : List Char) : Prop where
  whole : content.toList = earlier.flatten ++ line.text ++ rest
  number : line.number = earlier.length + 1
  earlier_ended : ∀ l ∈ earlier, Ended l
  text_ne_nil : line.text ≠ []
  unbroken : '\n' ∉ line.text.dropLast
  ended : rest ≠ [] → line.text.getLast? = some '\n'
  place : byteLength earlier.flatten + line.byte = byte
  inside : line.byte < byteLength line.text ∨
    line.byte = byteLength line.text ∧ byte = content.utf8ByteSize

theorem find?_eq_none_iff (content : String) (byte : Nat) :
    find? content byte = none ↔ content.utf8ByteSize < byte := by
  rw [find?, utf8ByteSize_eq]
  split
  · exact iff_of_true rfl ‹_›
  · exact iff_of_false nofun ‹_›

theorem find?_placed {content : String} (nonempty : content ≠ "") {byte : Nat}
    (inside : byte ≤ content.utf8ByteSize) : ∃ line earlier rest,
      find? content byte = some line ∧ line.Placed content byte earlier rest := by
  have whole := flatten_split content.toList
  have lines := split_lines content.toList
  have pieces : split content.toList ≠ [] := by
    intro none
    rw [none, List.flatten_nil] at whole
    exact nonempty (String.toList_eq_nil_iff.mp whole.symm)
  rw [utf8ByteSize_eq] at inside
  obtain ⟨earlier, later, cut, number, place, ending⟩ :=
    locate_splits pieces 1 byte (by rwa [whole])
  refine ⟨_, earlier, later.flatten, if_neg (not_lt.mpr inside), ?_⟩
  generalize locate 1 byte (split content.toList) = line at *
  rw [cut] at lines
  obtain ⟨front, text, unbroken, ended⟩ := lines.middle
  rw [cut, List.flatten_append, List.flatten_cons, ← List.append_assoc] at whole
  constructor
  case whole => exact whole.symm
  case number => rw [number, Nat.add_comm]
  case earlier_ended => exact front
  case text_ne_nil => exact text
  case unbroken => exact unbroken
  case ended =>
    intro more
    obtain ⟨body, shown, _⟩ := ended (by rintro rfl; exact more rfl)
    rw [shown, List.getLast?_concat]
  case place => exact place
  case inside =>
    apply ending.imp_right
    rintro ⟨atEnd, rfl⟩
    refine ⟨atEnd, ?_⟩
    rw [utf8ByteSize_eq, ← whole, List.flatten_nil, List.append_nil, byteLength_append, ← place,
      atEnd]

namespace Placed

variable {content : String} {byte : Nat} {line : SourceLine} {earlier : List (List Char)}
  {rest : List Char}

/-- Inside of the text, the number of the line tells how many breaks there are before the byte. -/
theorem number_eq (placed : line.Placed content byte earlier rest)
    (inside : byte < content.utf8ByteSize) :
    line.number = 1 + (content.toByteArray.data.toList.take byte).count '\n'.toUInt8 := by
  have within : line.byte < byteLength line.text := by
    obtain within | ⟨_, atEnd⟩ := placed.inside
    · exact within
    · omega
  have unbroken := break_not_mem_take placed.unbroken within
  rw [← length_flatMap_encode] at within
  rw [bytes_eq, placed.whole, List.append_assoc, List.flatMap_append, List.flatMap_append,
    ← placed.place, ← length_flatMap_encode, List.take_length_add_append,
    List.take_append_of_le_length within.le, List.count_append, count_break_flatMap_encode,
    count_flatten placed.earlier_ended, List.count_eq_zero_of_not_mem unbroken, placed.number,
    Nat.add_comm]
  rfl

end Placed
end SourceLine

/-- Looking up the line of a byte is exact. Only a byte beyond the end of the text has none. In a
text that is not empty it is the line with the byte in it, or the last one for the very end, and its
number counts the line breaks before the byte. No line is empty but that of the empty text. -/
theorem line_lookup_exact (content : String) (byte : Nat) :
    (SourceLine.find? content byte = none ↔ content.utf8ByteSize < byte) ∧
    (content ≠ "" → byte ≤ content.utf8ByteSize → ∃ line earlier rest,
      SourceLine.find? content byte = some line ∧ line.Placed content byte earlier rest ∧
      (byte < content.utf8ByteSize →
        line.number = 1 + (content.toByteArray.data.toList.take byte).count '\n'.toUInt8)) ∧
    ∀ line, SourceLine.find? content byte = some line →
      content = "" ∧ line = ⟨1, [], 0⟩ ∨ content ≠ "" ∧ line.text ≠ [] := by
  refine ⟨SourceLine.find?_eq_none_iff content byte, ?_, ?_⟩
  · intro nonempty inside
    obtain ⟨line, earlier, rest, found, placed⟩ := SourceLine.find?_placed nonempty inside
    exact ⟨line, earlier, rest, found, placed, placed.number_eq⟩
  · intro line found
    by_cases empty : content = ""
    · subst empty
      unfold SourceLine.find? at found
      split at found
      · cases found
      · cases found
        exact .inl ⟨rfl, rfl⟩
    · have inside : byte ≤ content.utf8ByteSize := by
        rw [← not_lt, ← SourceLine.find?_eq_none_iff, found]
        exact Option.some_ne_none line
      obtain ⟨same, _, _, foundToo, placed⟩ := SourceLine.find?_placed empty inside
      cases found.symm.trans foundToo
      exact .inr ⟨empty, placed.text_ne_nil⟩

/-- The byte is in the middle of a character, on the third of three lines. -/
theorem line_lookup_exact_sample :
    let content := "a\n\né"
    let line : SourceLine := ⟨3, ['é'], 1⟩
    content ≠ "" ∧ 4 < content.utf8ByteSize ∧ SourceLine.find? content 4 = some line ∧
      (∃ earlier rest, line.Placed content 4 earlier rest) ∧
      line.number = 1 + (content.toByteArray.data.toList.take 4).count '\n'.toUInt8 := by
  intro content line
  have nonempty : content ≠ "" := by decide
  have inside : 4 < content.utf8ByteSize := by decide
  have found : SourceLine.find? content 4 = some line := by decide
  obtain ⟨_, located, _⟩ := line_lookup_exact content 4
  obtain ⟨same, earlier, rest, foundToo, placed, number⟩ := located nonempty inside.le
  cases found.symm.trans foundToo
  exact ⟨nonempty, inside, found, ⟨earlier, rest, placed⟩, number inside⟩

end Javelet
