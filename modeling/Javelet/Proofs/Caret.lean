import Javelet.Error.Render
import Javelet.Proofs.Legibility
import Javelet.Proofs.Lines
import Javelet.Proofs.Stray

/-! The caret below the line of an error. It stands as many columns behind the indentation as there
are bytes before the character that it is for, which is below the character exactly if each of
those before it takes one byte. -/
namespace Javelet
namespace Text

theorem trimRight_eq_rdropWhile (cs : List Char) : trimRight cs = cs.rdropWhile isBlank := rfl

/-- Trimming stops at a character that is no blank. -/
theorem trimRight_append_cons {c : Char} (visible : isBlank c = false) (front back : List Char) :
    trimRight (front ++ c :: back) = front ++ c :: trimRight back := by
  unfold trimRight
  rw [List.reverse_append, List.reverse_cons, List.append_assoc, List.dropWhile_append]
  split
  · rename_i allBlank
    rw [List.isEmpty_iff] at allBlank
    simp [allBlank, visible]
  · simp

/-- A break that is only at the end is trimmed. -/
theorem break_not_mem_trimRight {cs : List Char} (unbroken : '\n' ∉ cs.dropLast) :
    '\n' ∉ trimRight cs := by
  obtain rfl | ⟨body, last, rfl⟩ := List.eq_nil_or_concat' cs
  · exact List.not_mem_nil
  rw [List.dropLast_concat] at unbroken
  rw [trimRight_eq_rdropWhile, List.rdropWhile_concat]
  split
  · intro inside
    exact unbroken ((List.rdropWhile_prefix _ body).subset inside)
  · rename_i visible
    rw [List.mem_append, List.mem_singleton, not_or]
    refine ⟨unbroken, ?_⟩
    rintro rfl
    exact visible (by decide)

theorem length_le_byteLength (cs : List Char) : cs.length ≤ byteLength cs := by
  induction cs with
  | nil => exact Nat.le_refl 0
  | cons c cs ih =>
    have wide := c.utf8Size_pos
    rw [List.length_cons, byteLength_cons]
    omega

/-- There are as many bytes as characters only if each takes one. -/
theorem byteLength_eq_length_iff (cs : List Char) :
    byteLength cs = cs.length ↔ ∀ c ∈ cs, c.utf8Size = 1 := by
  induction cs with
  | nil => simp
  | cons c cs ih =>
    have wide := c.utf8Size_pos
    have rest := length_le_byteLength cs
    rw [List.forall_mem_cons, ← ih, List.length_cons, byteLength_cons]
    omega

theorem utf8Size_of_indent {c : Char} (blank : c = ' ' ∨ c = '\t') : c.utf8Size = 1 := by
  obtain rfl | rfl := blank <;> rfl

theorem eq_nil_of_byteLength {cs : List Char} (none : byteLength cs = 0) : cs = [] := by
  have bound := length_le_byteLength cs
  exact List.length_eq_zero_iff.mp (by omega)

/-- Of two fronts of a text, the one with fewer bytes is a front of the other. -/
theorem exists_between {front back front' back' : List Char}
    (same : front ++ back = front' ++ back') (fewer : byteLength front ≤ byteLength front') :
    ∃ between, front' = front ++ between ∧ back = between ++ back' := by
  obtain ⟨between, whole, rest⟩ | ⟨between, whole, rest⟩ := List.append_eq_append_iff.mp same
  · exact ⟨between, whole, rest⟩
  · rw [whole, byteLength_append] at fewer
    obtain rfl : between = [] := eq_nil_of_byteLength (by omega)
    exact ⟨[], by simpa using whole.symm, by simpa using rest.symm⟩

/-- The lines of a text, the last first. Behind the last line break there is none. -/
def linesUp (text : List Char) : List (List Char) := (text.splitOn '\n').reverse.tail

theorem linesUp_append_line (above : List Char) {line : List Char} (unbroken : '\n' ∉ line) :
    linesUp (above ++ '\n' :: (line ++ ['\n'])) = line :: linesUp (above ++ ['\n']) := by
  unfold linesUp
  rw [List.splitOn_append_cons_self, List.splitOn_append_cons_self_of_not_mem unbroken,
    List.splitOn_append_cons_self, List.splitOn_nil]
  simp

end Text

/-- An error is at a character of the source that is no blank, behind some others. -/
structure Error.Meets (e : Error) (source : String) (before : List Char) (c : Char) : Prop where
  whole : ∃ after, source.toList = before ++ c :: after
  place : e.position.offset.toNat = Text.byteLength before
  visible : Text.isBlank c = false

/-- Inside of its source, an error is at such a character. -/
theorem check_error_character {source file : String} {e : Error}
    (short : source.utf8ByteSize < 2 ^ 32) (failed : check source file = .error e)
    (inside : e.position.offset.toNat < source.utf8ByteSize) :
    ∃ before c, e.Meets source before c := by
  have offset {before after : List Char} (split : source.toList = before ++ after) :
      (Position.ofByte (Text.byteLength before) file).offset.toNat = Text.byteLength before := by
    rw [Text.utf8ByteSize_eq, split, Text.byteLength_append] at short
    exact Position.offset_ofByte (by omega) file
  cases scanned : Token.scan source file with
  | ok tokens =>
    obtain ⟨l, whole, rfl⟩ := Token.exists_layout scanned
    obtain ⟨spelled, all, each⟩ := l.tokens_spelled file 0
    rw [whole, Nat.zero_add, ← Text.utf8ByteSize_eq] at all
    rw [all] at scanned
    rw [whole] at each
    obtain ⟨t, member, start⟩ := check_error_start scanned rfl failed
    obtain own | ending := List.mem_append.mp member
    · obtain ⟨before, s, after, split, rfl⟩ := each t own
      obtain ⟨c, cs, text, visible⟩ := s.text_head
      rw [text, List.append_assoc, List.cons_append] at split
      refine ⟨before, c, ⟨_, split⟩, ?_, visible⟩
      rw [start, Spelling.token, Nat.zero_add]
      exact offset split
    · -- the ending is behind the last byte
      rw [List.mem_singleton] at ending
      have atEnd : e.position.offset.toNat = source.utf8ByteSize := by
        rw [start, ending]
        exact Position.offset_ofByte short file
      omega
  | error e' =>
    have same : e' = e := by
      unfold check CompilationUnit.ofSource at failed
      rw [scanned] at failed
      exact Except.error.inj failed
    subst same
    obtain ⟨before, c, rest, split, _, absent, rfl⟩ := Token.scanFrom_error scanned
    rw [Nat.zero_add]
    exact ⟨before, c, ⟨rest, split⟩, offset split, (Lexeme.Stray.of_first? absent).not_blank⟩

/-- The column of the caret, which is on the last line. -/
def caretColumn (rendered : String) : Nat :=
  ((Text.linesUp rendered.toList).headD []).idxOf '^'

/-- The line above that of the caret. -/
def pointedLine (rendered : String) : List Char := (Text.linesUp rendered.toList).getD 1 []

def aboveCaret? (rendered : String) : Option Char :=
  (pointedLine rendered)[caretColumn rendered]?

/-- A text that ends in a line and a caret below it. -/
structure Text.Pointed (text shown : List Char) (column : Nat) : Prop where
  ends : ∃ above pointer, text = above ++ '\n' :: (shown ++ '\n' :: (pointer ++ ['^', '\n'])) ∧
    '\n' ∉ pointer ∧ '^' ∉ pointer ∧ pointer.length = column
  unbroken : '\n' ∉ shown

namespace Text.Pointed

variable {rendered : String} {shown : List Char} {column : Nat}

theorem append (front : List Char) {text : List Char} (h : Pointed text shown column) :
    Pointed (front ++ text) shown column := by
  obtain ⟨⟨above, pointer, rfl, plain⟩, unbroken⟩ := h
  exact ⟨⟨front ++ above, pointer, by rw [List.append_assoc], plain⟩, unbroken⟩

theorem lines (h : Pointed rendered.toList shown column) :
    pointedLine rendered = shown ∧ caretColumn rendered = column := by
  obtain ⟨⟨above, pointer, whole, unbroken, plain, rfl⟩, oneLine⟩ := h
  have last : '\n' ∉ pointer ++ ['^'] := by simpa using unbroken
  have regroup : rendered.toList =
      (above ++ '\n' :: shown) ++ '\n' :: ((pointer ++ ['^']) ++ ['\n']) := by
    rw [whole]
    simp
  have up : linesUp rendered.toList = (pointer ++ ['^']) :: shown :: linesUp (above ++ ['\n']) := by
    rw [regroup, linesUp_append_line _ last, List.append_assoc, List.cons_append,
      linesUp_append_line _ oneLine]
  unfold pointedLine caretColumn
  rw [up]
  constructor
  · rfl
  · rw [List.headD_cons, List.idxOf_append_of_notMem plain, List.idxOf_cons_self, Nat.add_zero]

end Text.Pointed

/-- The line of an error and the caret are the last that is rendered. -/
theorem Error.render_lines {e : Error} {source : String} {line : SourceLine} {shown : List Char}
    {column : Nat} (found : SourceLine.find? source e.position.offset.toNat = some line)
    (pointed : Text.Pointed line.excerpt.toList shown column) :
    pointedLine (e.render source) = shown ∧ caretColumn (e.render source) = column := by
  obtain ⟨heading, rendered⟩ : ∃ heading, e.render source = heading ++ line.excerpt :=
    ⟨_, e.render_shows found⟩
  have below := pointed.append heading.toList
  rw [← String.toList_append, ← rendered] at below
  exact below.lines

/-- The number of a line and a bar, in front of the line itself. -/
def gutter (number : Nat) : List Char := (toString number).toList ++ [' ', '|', ' ']

theorem length_gutter (number : Nat) : (gutter number).length = (toString number).length + 3 := by
  rw [gutter, List.length_append, String.length_toList]
  rfl

theorem gutter_unbroken (number : Nat) : '\n' ∉ gutter number := by
  have digits : OneLine number.repr := .repr number
  unfold OneLine at digits
  simpa [gutter] using digits

/-- The indentation in front of a character that is no blank, and what else is in front of it. -/
theorem SourceLine.exists_indent {c : Char} (visible : Text.isBlank c = false)
    (onLine tail : List Char) :
    ∃ indent lead, onLine = indent ++ lead ∧ (∀ d ∈ indent, d = ' ' ∨ d = '\t') ∧
      (onLine ++ c :: tail).takeWhile (fun d => d == ' ' || d == '\t') = indent := by
  obtain ⟨indent, lead, rfl, _, indented, stops⟩ :=
    Lexeme.exists_run (fun d => d == ' ' || d == '\t') onLine
  have blanks : ∀ d ∈ indent, d = ' ' ∨ d = '\t' := by
    intro d member
    simpa using indented d member
  refine ⟨indent, lead, rfl, blanks, ?_⟩
  rw [List.append_assoc]
  apply Lexeme.takeWhile_stops indented
  cases lead with
  | cons d lead => exact stops
  | nil =>
    rintro _ ⟨⟩
    rw [Bool.eq_false_iff]
    intro indents
    have blank : c = ' ' ∨ c = '\t' := by simpa using indents
    obtain rfl | rfl := blank <;> exact absurd visible (by decide)

/-- A line as it is shown, for a character of it that is no blank. -/
theorem SourceLine.excerpt_pointed {line : SourceLine} {onLine tail : List Char} {c : Char}
    (text : line.text = onLine ++ c :: tail) (byte : line.byte = Text.byteLength onLine)
    (unbroken : '\n' ∉ line.text.dropLast) (visible : Text.isBlank c = false) :
    ∃ indent lead, onLine = indent ++ lead ∧ (∀ d ∈ indent, d = ' ' ∨ d = '\t') ∧
      Text.Pointed line.excerpt.toList (gutter line.number ++ lead ++ c :: Text.trimRight tail)
        ((gutter line.number).length + Text.byteLength lead) := by
  obtain ⟨indent, lead, rfl, blanks, cut⟩ := exists_indent visible onLine tail
  rw [← text] at cut
  rw [List.append_assoc] at text
  have narrow : Text.byteLength indent = indent.length := by
    rw [Text.byteLength_eq_length_iff]
    exact fun d member => Text.utf8Size_of_indent (blanks d member)
  have shown : Text.trimRight (line.text.drop indent.length) =
      lead ++ c :: Text.trimRight tail := by
    rw [text, List.drop_left, Text.trimRight_append_cons visible]
  have dashes : line.byte - indent.length = Text.byteLength lead := by
    rw [byte, Text.byteLength_append, narrow, Nat.add_sub_cancel_left]
  let margin := List.replicate ((toString line.number).length + 1) ' ' ++ ['|']
  let dash := List.replicate (Text.byteLength lead) '-'
  refine ⟨indent, lead, rfl, blanks, ⟨margin, margin ++ ' ' :: dash, ?_, ?_, ?_, ?_⟩, ?_⟩
  · unfold excerpt
    dsimp only
    rw [cut, shown, dashes]
    simp [margin, dash, gutter, Obligation.toList_pushn]
  · simp [margin, dash]
  · simp [margin, dash]
  · rw [length_gutter]
    simp only [margin, dash, List.length_append, List.length_cons, List.length_replicate,
      List.length_nil]
    omega
  · rw [List.append_assoc, ← shown, List.mem_append, not_or]
    refine ⟨gutter_unbroken line.number, Text.break_not_mem_trimRight ?_⟩
    rw [text, List.drop_left]
    rw [text, List.dropLast_append_of_ne_nil (by simp)] at unbroken
    exact fun inside => unbroken (List.mem_append_right _ inside)

theorem SourceLine.getLast?_flatten {lines : List (List Char)} (ended : ∀ l ∈ lines, Ended l) :
    ∀ d ∈ lines.flatten.getLast?, d = '\n' := by
  obtain rfl | ⟨front, last, rfl⟩ := List.eq_nil_or_concat' lines
  · rintro d ⟨⟩
  · obtain ⟨body, rfl, _⟩ := ended last (by simp)
    rw [List.flatten_concat, ← List.append_assoc, List.getLast?_concat]
    rintro d ⟨⟩
    rfl

/-- What comes before a byte is the earlier lines and the front of its own, if it is the first byte
of a character. -/
theorem SourceLine.Placed.exists_front {line : SourceLine} {source : String} {byte : Nat}
    {lines : List (List Char)} {rest before after : List Char} {c : Char}
    (placed : line.Placed source byte lines rest) (whole : source.toList = before ++ c :: after)
    (place : byte = Text.byteLength before) :
    ∃ onLine, (∃ tail, line.text = onLine ++ c :: tail) ∧ line.byte = Text.byteLength onLine ∧
      before = lines.flatten ++ onLine := by
  have wide := c.utf8Size_pos
  have size := Text.utf8ByteSize_eq source
  rw [whole, Text.byteLength_append, Text.byteLength_cons] at size
  have start := placed.place
  have same := placed.whole
  rw [whole, List.append_assoc] at same
  obtain ⟨onLine, rfl, behind⟩ := Text.exists_between same.symm (by omega)
  rw [Text.byteLength_append] at place size
  have within : line.byte < Text.byteLength line.text := by
    obtain within | ⟨_, atEnd⟩ := placed.inside
    · exact within
    · omega
  obtain ⟨more, text, further⟩ := Text.exists_between behind.symm (by omega)
  refine ⟨onLine, ?_, by omega, rfl⟩
  cases more with
  | nil =>
    rw [text, List.append_nil] at within
    omega
  | cons d tail =>
    cases further
    exact ⟨tail, text⟩

/-- How an error shows the character that comes behind `before`: with a part of `before` in front of
it, that is all of its line without the indentation, and with a caret on the next line, behind as
many columns as the part has bytes. -/
structure Error.Shows (e : Error) (source : String) (before : List Char) (c : Char)
    (earlier indent lead : List Char) : Prop where
  split : before = earlier ++ (indent ++ lead)
  line_start : ∀ d ∈ earlier.getLast?, d = '\n'
  unbroken : '\n' ∉ indent ++ lead
  blanks : ∀ d ∈ indent, d = ' ' ∨ d = '\t'
  shown : ∃ tail, pointedLine (e.render source) =
    gutter (earlier.count '\n' + 1) ++ lead ++ c :: tail
  caret : caretColumn (e.render source) =
    (gutter (earlier.count '\n' + 1)).length + Text.byteLength lead

theorem Error.Meets.shows {e : Error} {source : String} {before : List Char} {c : Char}
    (meets : e.Meets source before c) :
    ∃ earlier indent lead, e.Shows source before c earlier indent lead := by
  obtain ⟨⟨after, whole⟩, place, visible⟩ := meets
  have size : source.utf8ByteSize =
      Text.byteLength before + (c.utf8Size + Text.byteLength after) := by
    rw [Text.utf8ByteSize_eq, whole, Text.byteLength_append, Text.byteLength_cons]
  have wide := c.utf8Size_pos
  have nonempty : source ≠ "" := by
    rintro rfl
    simp at whole
  obtain ⟨line, lines, rest, found, placed⟩ :=
    SourceLine.find?_placed nonempty (show e.position.offset.toNat ≤ _ by omega)
  obtain ⟨onLine, text, byte, rfl⟩ := placed.exists_front whole place
  obtain ⟨tail, text⟩ := text
  have unbroken := placed.unbroken
  obtain ⟨indent, lead, rfl, blanks, pointed⟩ :=
    SourceLine.excerpt_pointed text byte unbroken visible
  rw [text, List.dropLast_append_of_ne_nil (List.cons_ne_nil _ _)] at unbroken
  have number : line.number = lines.flatten.count '\n' + 1 := by
    rw [SourceLine.count_flatten placed.earlier_ended, placed.number]
  rw [number] at pointed
  obtain ⟨shown, caret⟩ := e.render_lines found pointed
  refine ⟨lines.flatten, indent, lead, rfl, ?_, ?_, blanks, ⟨_, shown⟩, caret⟩
  · exact SourceLine.getLast?_flatten placed.earlier_ended
  · exact fun inside => unbroken (List.mem_append_left _ inside)

/-- The caret of an error is in the column of its character exactly if every character before that,
on the same line, takes one byte; each further byte moves it on by a column. In a source that is
not too long for its offsets, the error is at a character. -/
theorem caret_counts_bytes (source file : String) {e : Error}
    (failed : check source file = .error e)
    (inside : e.position.offset.toNat < source.utf8ByteSize) :
    (source.utf8ByteSize < 2 ^ 32 → ∃ before c, e.Meets source before c) ∧
    ∀ before c, e.Meets source before c → ∃ earlier indent lead,
      e.Shows source before c earlier indent lead ∧
      (caretColumn (e.render source) = (gutter (earlier.count '\n' + 1) ++ lead).length ↔
        ∀ d ∈ indent ++ lead, d.utf8Size = 1) ∧
      ((∀ d ∈ indent ++ lead, d.utf8Size = 1) → aboveCaret? (e.render source) = some c) := by
  refine ⟨fun short => check_error_character short failed inside, ?_⟩
  intro before c meets
  obtain ⟨earlier, indent, lead, shows⟩ := meets.shows
  have narrow : ∀ d ∈ indent, d.utf8Size = 1 := fun d member =>
    Text.utf8Size_of_indent (shows.blanks d member)
  have column : caretColumn (e.render source) =
      (gutter (earlier.count '\n' + 1) ++ lead).length ↔ ∀ d ∈ indent ++ lead, d.utf8Size = 1 := by
    rw [shows.caret, List.length_append, Nat.add_left_cancel_iff, Text.byteLength_eq_length_iff,
      List.forall_mem_append, and_iff_right narrow]
  refine ⟨earlier, indent, lead, shows, column, ?_⟩
  intro single
  obtain ⟨tail, shown⟩ := shows.shown
  rw [aboveCaret?, shown, column.mpr single,
    List.getElem?_append_right (Nat.le_refl _), Nat.sub_self, List.getElem?_cons_zero]

/-- A stray character on the tenth line, behind a tab and a comment. -/
theorem caret_counts_bytes_sample :
    let source := "\n\n\n\n\n\n\n\n\n\t/**/#;"
    source.utf8ByteSize < 2 ^ 32 ∧ ∃ e, check source "a" = .error e ∧
      e.position.offset.toNat < source.utf8ByteSize ∧ e.position.offset.toNat = 14 ∧
      (∃ before c, e.Meets source before c) ∧ aboveCaret? (e.render source) = some '#' := by
  intro source
  have short : source.utf8ByteSize < 2 ^ 32 := by decide
  have failed : check "\n\n\n\n\n\n\n\n\n\t/**/#;" "a" =
      .error ⟨.unrecognised "#", .ofByte 14 "a"⟩ := by cbv
  have inside : (Position.ofByte 14 "a").offset.toNat < source.utf8ByteSize := by decide
  obtain ⟨found, shown⟩ := caret_counts_bytes _ "a" failed inside
  have meets : Error.Meets ⟨.unrecognised "#", .ofByte 14 "a"⟩ source
      (List.replicate 9 '\n' ++ ['\t', '/', '*', '*', '/']) '#' :=
    ⟨⟨[';'], by decide⟩, by decide, by decide⟩
  obtain ⟨earlier, indent, lead, shows, _, under⟩ := shown _ _ meets
  have narrow : ∀ d ∈ List.replicate 9 '\n' ++ ['\t', '/', '*', '*', '/'], d.utf8Size = 1 :=
    (Text.byteLength_eq_length_iff _).mp (by decide)
  refine ⟨short, _, failed, inside, rfl, found short, under fun d member => narrow d ?_⟩
  rw [shows.split]
  exact List.mem_append_right _ member

/-- Behind a character of two bytes, the caret is below the next character. -/
theorem caret_beside_character :
    let source := "/*é*/#;"
    ∃ e, check source "a" = .error e ∧ e.position.offset.toNat < source.utf8ByteSize ∧
      e.Meets source ['/', '*', 'é', '*', '/'] '#' ∧
      aboveCaret? (e.render source) = some ';' := by
  intro source
  let e : Error := ⟨.unrecognised "#", .ofByte 6 "a"⟩
  have failed : check "/*é*/#;" "a" = .error e := by cbv
  let line : SourceLine := ⟨1, ['/', '*', 'é', '*', '/', '#', ';'], 6⟩
  have found : SourceLine.find? source e.position.offset.toNat = some line := by decide
  have excerpt : Text.Pointed line.excerpt.toList "1 | /*é*/#;".toList 10 :=
    ⟨⟨"  |".toList, "  | ------".toList, by decide, by decide, by decide, by decide⟩, by decide⟩
  obtain ⟨shown, caret⟩ := Error.render_lines found excerpt
  refine ⟨e, failed, by decide, ⟨⟨[';'], by decide⟩, by decide, by decide⟩, ?_⟩
  rw [aboveCaret?, shown, caret]
  decide

end Javelet
