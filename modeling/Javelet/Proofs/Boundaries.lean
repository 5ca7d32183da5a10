import Javelet.Proofs.Stray
import Javelet.Token.Scanner

/-! No round of a scanner cuts text past the end or inside a character: every round starts between
characters and moves on by exactly the bytes of the lexeme that it finds, which is never empty. -/
namespace Javelet

/-- The bytes in front of a closing quote. -/
theorem Text.byteLength_quoted (inside : List Char) :
    byteLength (['"'] ++ inside ++ ['"']) - 1 = byteLength ['"'] + byteLength inside := by
  rw [byteLength_append]
  rfl

namespace Lexeme

/-- A text is what the lexeme takes from the front, and no lexeme is there that is tried before. -/
structure Heads (lexeme : Lexeme) (text rest : List Char) : Prop where
  nonempty : text ≠ []
  front : text <+: rest
  width : lexeme.width? rest = some text.length
  earlier : ∃ before after, all = before ++ lexeme :: after ∧
    ∀ other ∈ before, other.width? rest = none

theorem exists_heads {lexeme : Lexeme} {rest : List Char} (found : found? rest = some lexeme) :
    ∃ text, lexeme.Heads text rest := by
  obtain ⟨there, before, after, order, earlier⟩ := List.find?_eq_some_iff_append.mp found
  obtain ⟨n, width⟩ := Option.isSome_iff_exists.mp there
  obtain ⟨positive, fits⟩ := width?_bounds width
  have length : (rest.take n).length = n := List.length_take_of_le fits
  refine ⟨rest.take n, ?_, List.take_prefix n rest, by rw [length, width], before, after, order, ?_⟩
  · rw [← List.length_pos_iff, length]
    exact positive
  · intro other member
    simpa using earlier other member

theorem width?_of_found? {rest : List Char} (none : found? rest = none) (lexeme : Lexeme) :
    lexeme.width? rest = Option.none := by
  simpa using List.find?_eq_none.mp none lexeme (mem_all lexeme)

theorem Heads.first? {lexeme : Lexeme} {text rest : List Char} (heads : lexeme.Heads text rest) :
    first? rest = some (lexeme, text.length) := by
  obtain ⟨before, after, order, earlier⟩ := heads.earlier
  exact first?_eq before after order earlier heads.width

theorem Heads.matched_eq {lexeme : Lexeme} {text rest : List Char}
    (heads : lexeme.Heads text rest) : lexeme.matched rest = text := by
  rw [matched, heads.width, Option.getD_some]
  exact (List.prefix_iff_eq_take.mp heads.front).symm

theorem Heads.quoted_eq {text rest : List Char} (heads : quoted.Heads text rest) :
    ∃ inside, text = ['"'] ++ inside ++ ['"'] := by
  have taken := List.prefix_iff_eq_take.mp heads.front
  obtain ⟨body, more, rfl, length, _⟩ := exists_of_quoted heads.width
  refine ⟨body, ?_⟩
  rw [taken, length]
  simp [List.take_length_add_append]

theorem Heads.punct_eq {p : Punct} {text rest : List Char} (heads : (punct p).Heads text rest) :
    text = p.spelling.toList := by
  have width := heads.width
  have taken := List.prefix_iff_eq_take.mp heads.front
  simp only [width?_punct, Option.ite_none_right_eq_some, Option.some.injEq,
    List.isPrefixOf_iff_prefix] at width
  obtain ⟨⟨more, rfl⟩, length⟩ := width
  rw [taken, ← length, List.take_left]

end Lexeme

namespace Scanner

/-- So many rounds lead from the start of a source to a scanner. -/
inductive After (source file : String) : Nat → Scanner → Prop
  | start : After source file 0 (ofSource source file)
  | round {n : Nat} {s s' : Scanner} : After source file n s → s.place.atEnd = false →
      s.round? = some (.ok s') → After source file (n + 1) s'

/-- Behind the text of a lexeme. -/
def past (s : Scanner) (lexeme : Lexeme) (text : List Char) : Scanner :=
  ⟨s.place.advance (Text.byteLength text),
    s.tokens ++ (Token.ofLexeme? s.place.file s.place.byte lexeme text).toList⟩

/-- Whatever is done with a lexeme, it moves on by the bytes of the text that was found. -/
theorem handle?_eq (s : Scanner) {lexeme : Lexeme} {text rest : List Char}
    (heads : lexeme.Heads text rest) : s.handle? rest lexeme = some (s.past lexeme text) := by
  have same := heads.matched_eq
  cases lexeme with
  | word => simp only [handle?, same]; rfl
  | number => simp only [handle?, same]; rfl
  | blank => simp [handle?, same, past, skip, Token.ofLexeme?, Lexeme.token?]
  | lineComment => simp [handle?, same, past, skip, Token.ofLexeme?, Lexeme.token?]
  | blockComment => simp [handle?, same, past, skip, Token.ofLexeme?, Lexeme.token?]
  | quoted =>
    obtain ⟨inside, rfl⟩ := heads.quoted_eq
    have sliced : Text.slice? (['"'] ++ inside ++ ['"']) 1
        (Text.byteLength (['"'] ++ inside ++ ['"']) - 1) = some inside := by
      rw [Text.byteLength_quoted]
      exact Text.slice?_append ['"'] inside ['"']
    have value : (['"'] ++ inside ++ ['"']).drop 1 = inside ++ ['"'] := rfl
    simp only [handle?, same, sliced, past, push, Token.ofLexeme?, Lexeme.token?, value,
      List.dropLast_concat]
    rfl
  | punct p =>
    obtain rfl := heads.punct_eq
    simp only [handle?, past, push, Token.ofLexeme?, Lexeme.token?, String.ofList_toList]
    rfl

/-- The scanner has some of the source behind it and the rest in front, and the scan of the source
is its tokens and those of the rest. -/
structure Along (source file : String) (s : Scanner) (before rest : List Char) : Prop where
  split : source.toList = before ++ rest
  place : s.place = ⟨source.toList, Text.byteLength before, file⟩
  scanned : Token.scan source file =
    (Token.scanFrom file (Text.byteLength before) rest).map (s.tokens ++ ·)

theorem along_ofSource (source file : String) :
    (ofSource source file).Along source file [] source.toList := by
  constructor
  · rfl
  · rfl
  · change Token.scan source file = (Token.scan source file).map fun tokens => tokens
    cases Token.scan source file <;> rfl

namespace Along

variable {source file : String} {s : Scanner} {before rest : List Char}

theorem byte_eq (h : s.Along source file before rest) : s.place.byte = Text.byteLength before := by
  rw [h.place]

theorem size_eq (h : s.Along source file before rest) :
    source.utf8ByteSize = s.place.byte + Text.byteLength rest := by
  rw [h.byte_eq, Text.utf8ByteSize_eq, h.split, Text.byteLength_append]

theorem boundary (h : s.Along source file before rest) :
    String.Pos.Raw.IsValid source ⟨s.place.byte⟩ := by
  have whole : source = String.ofList (before ++ rest) := by
    rw [← h.split, String.ofList_toList]
  rw [h.byte_eq, whole]
  exact Text.isValid_append before rest

theorem atEnd_iff (h : s.Along source file before rest) : s.place.atEnd = true ↔ rest = [] := by
  have size := h.size_eq
  rw [Text.utf8ByteSize_eq] at size
  have own : s.place.source = source.toList := by rw [h.place]
  rw [Text.Cursor.atEnd, own, size, decide_eq_true_iff]
  constructor
  · intro none
    by_contra some
    have positive := Text.byteLength_pos some
    omega
  · rintro rfl
    exact le_rfl

theorem remainder?_eq (h : s.Along source file before rest) : s.place.remainder? = some rest := by
  rw [Text.Cursor.remainder?, h.place, h.split]
  exact Text.dropBytes?_append before rest

/-- Before the end, a round goes behind the text of a lexeme or fails at the next character. -/
theorem round_cases (h : s.Along source file before rest) (inside : s.place.atEnd = false) :
    (∃ lexeme text after, rest = text ++ after ∧ Lexeme.Heads lexeme text rest ∧
      s.round? = some (.ok (s.past lexeme text))) ∨
    ∃ c cs, rest = c :: cs ∧ (∀ lexeme : Lexeme, lexeme.width? rest = none) ∧
      s.round? = some (.error ⟨.unrecognised (String.ofList [c]), s.place.position⟩) := by
  have remainder := h.remainder?_eq
  cases found : Lexeme.found? rest with
  | some lexeme =>
    obtain ⟨text, heads⟩ := Lexeme.exists_heads found
    obtain ⟨after, whole⟩ := heads.front
    refine .inl ⟨lexeme, text, after, whole.symm, heads, ?_⟩
    simp [round?, remainder, found, s.handle?_eq heads]
  | none =>
    cases rest with
    | nil =>
      rw [h.atEnd_iff.mpr rfl] at inside
      cases inside
    | cons c cs =>
      refine .inr ⟨c, cs, rfl, Lexeme.width?_of_found? found, ?_⟩
      simp [round?, Text.Cursor.next?, remainder, found]

theorem past {lexeme : Lexeme} {text after : List Char}
    (h : s.Along source file before (text ++ after)) (heads : lexeme.Heads text (text ++ after)) :
    (s.past lexeme text).Along source file (before ++ text) after := by
  constructor
  · rw [h.split, List.append_assoc]
  · rw [Scanner.past, h.place, Text.byteLength_append]
    rfl
  · rw [h.scanned, Token.scanFrom_eq_append _ _ heads.first?, List.take_left, List.drop_left,
      Text.byteLength_append, Scanner.past, h.place]
    cases Token.scanFrom file (Text.byteLength before + Text.byteLength text) after with
    | error e => rfl
    | ok more => simp [Except.map]

end Along

/-- Every round takes a byte at least. -/
theorem After.along {source file : String} {n : Nat} {s : Scanner} (run : After source file n s) :
    ∃ before rest, s.Along source file before rest ∧ n ≤ s.place.byte := by
  induction run with
  | start => exact ⟨[], source.toList, along_ofSource source file, Nat.zero_le _⟩
  | round _ inside step ih =>
    obtain ⟨before, rest, along, bound⟩ := ih
    obtain ⟨lexeme, text, after, rfl, heads, ran⟩ | ⟨c, cs, rfl, _, ran⟩ := along.round_cases inside
    · rw [ran] at step
      cases step
      have positive := Text.byteLength_pos heads.nonempty
      refine ⟨before ++ text, after, along.past heads, ?_⟩
      dsimp only [past, Text.Cursor.advance]
      omega
    · rw [ran] at step
      cases step

/-- What a round comes to. The rest of the source is cut off between characters. Either a lexeme is
in front, with a text that is not empty and ends between characters, and the round moves on by the
bytes of this text; quotes are stripped between characters too. Or no lexeme is there, and the round
fails at the next character. -/
inductive Proceeds (source : String) (s : Scanner) : Prop
  | moves {rest text : String} {lexeme : Lexeme} {s' : Scanner} :
      Text.Slice source s.place.byte source.utf8ByteSize rest →
      lexeme.Heads text.toList rest.toList →
      Text.Slice source s.place.byte (s.place.byte + text.utf8ByteSize) text →
      (lexeme = .quoted → ∃ inside, Text.Slice text 1 (text.utf8ByteSize - 1) inside) →
      s.round? = some (.ok s') → s'.place = s.place.advance text.utf8ByteSize → Proceeds source s
  | fails {rest : String} {c : Char} {cs : List Char} :
      Text.Slice source s.place.byte source.utf8ByteSize rest → rest.toList = c :: cs →
      (∀ lexeme : Lexeme, lexeme.width? rest.toList = none) →
      s.round? = some (.error ⟨.unrecognised (String.ofList [c]), s.place.position⟩) →
      Proceeds source s

theorem Along.proceeds {source file : String} {s : Scanner} {before rest : List Char}
    (h : s.Along source file before rest) (inside : s.place.atEnd = false) :
    s.Proceeds source := by
  have remainder : Text.Slice source s.place.byte source.utf8ByteSize (String.ofList rest) := by
    have whole : source.toList = before ++ rest ++ [] := by rw [h.split, List.append_nil]
    rw [h.size_eq, h.byte_eq]
    exact Text.slice_of_split whole
  obtain ⟨lexeme, text, after, rfl, heads, ran⟩ | ⟨c, cs, rfl, absent, ran⟩ := h.round_cases inside
  · have front : lexeme.Heads (String.ofList text).toList
        (String.ofList (text ++ after)).toList := by
      rw [String.toList_ofList, String.toList_ofList]
      exact heads
    have whole : source.toList = before ++ text ++ after := by rw [h.split, List.append_assoc]
    refine .moves remainder front ?_ ?_ ran ?_
    · rw [h.byte_eq, Text.utf8ByteSize_eq, String.toList_ofList]
      exact Text.slice_of_split whole
    · rintro rfl
      obtain ⟨inside, rfl⟩ := heads.quoted_eq
      refine ⟨String.ofList inside, ?_⟩
      rw [Text.utf8ByteSize_eq, String.toList_ofList, Text.byteLength_quoted]
      exact Text.slice_of_split (String.toList_ofList ..)
    · rw [Text.utf8ByteSize_eq, String.toList_ofList]
      rfl
  · refine .fails remainder (String.toList_ofList ..) ?_ ran
    rw [String.toList_ofList]
    exact absent

theorem Along.finish?_eq {source file : String} {s : Scanner} {before rest : List Char}
    (h : s.Along source file before rest) : s.finish? = some (Token.scan source file) := by
  induction size : rest.length using Nat.strong_induction_on generalizing s before rest with
  | _ k ih =>
  cases ended : s.place.atEnd with
  | true =>
    obtain rfl := h.atEnd_iff.mp ended
    rw [finish?_atEnd ended, h.scanned, Token.scanFrom_nil, h.place]
    rfl
  | false =>
    obtain ⟨lexeme, text, after, rfl, heads, ran⟩ | ⟨c, cs, rfl, absent, ran⟩ := h.round_cases ended
    · have some := List.length_pos_iff.mpr heads.nonempty
      rw [List.length_append] at size
      rw [finish?_ok ended ran]
      exact ih after.length (by omega) (h.past heads) rfl
    · have stuck := (Lexeme.first?_eq_none_iff (c :: cs)).mpr absent
      rw [finish?_error ended ran, h.scanned, Token.scanFrom_eq_error _ _ stuck, h.place]
      rfl

/-- There is nothing left to do: the source is at its end and its tokens are made, or the next round
fails, and so does the scan. -/
inductive Finished (source file : String) (s : Scanner) : Prop
  | atEnd : s.place.byte = source.utf8ByteSize →
      Token.scan source file = .ok (s.tokens ++ [.ending s.place.position]) →
      Finished source file s
  | failed {c : Char} {e : Error} : s.place.atEnd = false → s.round? = some (.error e) →
      e = ⟨.unrecognised (String.ofList [c]), s.place.position⟩ →
      Token.scan source file = .error e → Finished source file s

theorem After.exists_finished {source file : String} {n : Nat} {s : Scanner}
    {before rest : List Char} (run : After source file n s)
    (h : s.Along source file before rest) :
    ∃ m s', After source file m s' ∧ s'.Finished source file := by
  induction size : rest.length using Nat.strong_induction_on generalizing n s before rest with
  | _ k ih =>
  cases ended : s.place.atEnd with
  | true =>
    obtain rfl := h.atEnd_iff.mp ended
    refine ⟨n, s, run, .atEnd ?_ ?_⟩
    · rw [h.size_eq, Text.byteLength_nil, Nat.add_zero]
    · rw [h.scanned, Token.scanFrom_nil, h.place]
      rfl
  | false =>
    obtain ⟨lexeme, text, after, rfl, heads, ran⟩ | ⟨c, cs, rfl, absent, ran⟩ := h.round_cases ended
    · have some := List.length_pos_iff.mpr heads.nonempty
      rw [List.length_append] at size
      exact ih after.length (by omega) (run.round ended ran) (h.past heads) rfl
    · have stuck := (Lexeme.first?_eq_none_iff (c :: cs)).mpr absent
      refine ⟨n, s, run, .failed ended ran rfl ?_⟩
      rw [h.scanned, Token.scanFrom_eq_error _ _ stuck, h.place]
      rfl

end Scanner

/-- Scanning makes progress and stays in bounds. After any number of rounds the place is between
characters and no further back than there were rounds; before the end a round always has an answer;
and the rounds come to an end, with the tokens of the source or its error. -/
theorem scanning_stays_in_bounds (source file : String) :
    (∀ n s, Scanner.After source file n s →
      n ≤ s.place.byte ∧ s.place.byte ≤ source.utf8ByteSize ∧
      String.Pos.Raw.IsValid source ⟨s.place.byte⟩ ∧
      (s.place.atEnd = false → s.place.byte < source.utf8ByteSize ∧ s.Proceeds source)) ∧
    (∃ n s, Scanner.After source file n s ∧ n ≤ source.utf8ByteSize ∧ s.Finished source file) ∧
    (Scanner.ofSource source file).finish? = some (Token.scan source file) := by
  refine ⟨?_, ?_, (Scanner.along_ofSource source file).finish?_eq⟩
  · intro n s run
    obtain ⟨before, rest, along, bound⟩ := run.along
    have size := along.size_eq
    refine ⟨bound, by omega, along.boundary, ?_⟩
    intro inside
    refine ⟨?_, along.proceeds inside⟩
    have some : rest ≠ [] := by
      rintro rfl
      rw [along.atEnd_iff.mpr rfl] at inside
      cases inside
    have positive := Text.byteLength_pos some
    omega
  · obtain ⟨n, s, run, finished⟩ :=
      Scanner.After.exists_finished .start (Scanner.along_ofSource source file)
    obtain ⟨before, rest, along, bound⟩ := run.along
    have size := along.size_eq
    exact ⟨n, s, run, by omega, finished⟩

/-- A blank of three bytes, a string with a character of two, a punctuation mark that begins like a
shorter one, and a character that nothing begins with. -/
theorem scanning_stays_in_bounds_sample :
    let source := "\u2003\"é\"!=#"
    ∃ s, Scanner.After source "a" 3 s ∧ s.place.byte = 9 ∧ s.place.atEnd = false ∧
      s.tokens.map (fun t => (t.kind, t.value)) =
        [(.string, "é"), (.punct .notEquals, "!=")] ∧ s.Proceeds source := by
  intro source
  have whole : source.toList = ['\u2003', '"', 'é', '"', '!', '=', '#'] := by decide
  let string : Token := ⟨.string, "é", ⟨⟨3, "a"⟩, ⟨7, "a"⟩⟩⟩
  let mark : Token := ⟨.punct .notEquals, "!=", ⟨⟨7, "a"⟩, ⟨9, "a"⟩⟩⟩
  let first : Scanner := ⟨⟨source.toList, 3, "a"⟩, []⟩
  let second : Scanner := ⟨⟨source.toList, 7, "a"⟩, [string]⟩
  let third : Scanner := ⟨⟨source.toList, 9, "a"⟩, [string, mark]⟩
  have blank : (Scanner.ofSource source "a").round? = some (.ok first) := by
    simp only [Scanner.ofSource, Text.Cursor.ofSource, first, whole]
    rfl
  have quoted : first.round? = some (.ok second) := by
    simp only [first, second, whole]
    rfl
  have punctuation : second.round? = some (.ok third) := by
    simp only [second, third, whole]
    rfl
  have run : Scanner.After source "a" 3 third :=
    .round (.round (.round .start (by decide) blank) (by decide) quoted) (by decide) punctuation
  obtain ⟨_, _, _, proceeds⟩ := (scanning_stays_in_bounds source "a").1 3 third run
  exact ⟨third, run, rfl, by decide, rfl, (proceeds (by decide)).2⟩

end Javelet
