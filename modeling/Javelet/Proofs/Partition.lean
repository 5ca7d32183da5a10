import Javelet.Proofs.Cutting
import Mathlib.Data.String.Basic

namespace Javelet

namespace Text

theorem byteLength_eq_utf8Len (cs : List Char) : byteLength cs = String.utf8Len cs := by
  induction cs with
  | nil => rfl
  | cons c cs ih => rw [byteLength_cons, String.utf8Len_cons, ih, Nat.add_comm]

theorem utf8ByteSize_eq (source : String) : source.utf8ByteSize = byteLength source.toList := by
  rw [byteLength_eq_utf8Len, String.utf8Len_toList]

/-- Two places between characters of a source, and the text from the one to the other. -/
structure Slice (source : String) (start stop : Nat) (text : String) : Prop where
  start_valid : String.Pos.Raw.IsValid source ⟨start⟩
  stop_valid : String.Pos.Raw.IsValid source ⟨stop⟩
  extract : String.Pos.Raw.extract source ⟨start⟩ ⟨stop⟩ = text

theorem isValid_append (front back : List Char) :
    String.Pos.Raw.IsValid (String.ofList (front ++ back)) ⟨byteLength front⟩ := by
  rw [String.Pos.Raw.isValid_iff_exists_append]
  refine ⟨String.ofList front, String.ofList back, String.ofList_append, ?_⟩
  rw [String.rawEndPos_ofList, byteLength_eq_utf8Len]

theorem slice_of_split {source : String} {before text after : List Char}
    (split : source.toList = before ++ text ++ after) :
    Slice source (byteLength before) (byteLength before + byteLength text)
      (String.ofList text) := by
  have whole : source = String.ofList (before ++ text ++ after) := by
    rw [← split, String.ofList_toList]
  rw [whole]
  constructor
  · rw [List.append_assoc]
    exact isValid_append before _
  · rw [← byteLength_append]
    exact isValid_append _ after
  · rw [byteLength_eq_utf8Len, byteLength_eq_utf8Len]
    exact String.extract_of_valid before text after

end Text

/-- A source as its tokens, each behind a filler, and the filler that closes it. -/
inductive Layout where
  | last (gap : List Char) (filler : Filler True gap)
  | next (gap : List Char) (filler : Filler False gap) (s : Spelling) (rest : Layout)

namespace Layout

def text : Layout → List Char
  | last gap _ => gap
  | next gap _ s rest => gap ++ s.text ++ rest.text

/-- The tokens of a layout that starts at a byte of a file. -/
def tokens (file : String) (byte : Nat) : Layout → List Token
  | last gap _ => [.ending (.ofByte (byte + Text.byteLength gap) file)]
  | next gap _ s rest =>
    s.token file (byte + Text.byteLength gap) ::
      rest.tokens file (byte + Text.byteLength (gap ++ s.text))

/-- The filler in front. -/
def front : Layout → List Char
  | last gap _ | next gap _ _ _ => gap

/-- No token is left. -/
def Tokenless : Layout → Prop
  | last _ _ => True
  | next _ _ _ _ => False

theorem filler_front (l : Layout) : Filler l.Tokenless l.front := by
  cases l with
  | last gap filler => exact filler
  | next gap filler s rest => exact filler

theorem exists_prepend (l : Layout) {piece : List Char}
    (filler : Filler l.Tokenless (piece ++ l.front)) :
    ∃ l' : Layout, l'.text = piece ++ l.text ∧
      ∀ file byte, l'.tokens file byte = l.tokens file (byte + Text.byteLength piece) := by
  cases l with
  | last gap _ =>
    refine ⟨last (piece ++ gap) filler, rfl, fun file byte => ?_⟩
    simp [tokens, Nat.add_assoc]
  | next gap _ s rest =>
    refine ⟨next (piece ++ gap) filler s rest, by simp [text], fun file byte => ?_⟩
    simp [tokens, Nat.add_assoc]

/-- What stops a line comment is a line break of the filler behind it, or the end: no token begins
with a line break. -/
theorem filler_line (l : Layout) {body : List Char} (single : '\n' ∉ body)
    (stops : ∀ c ∈ l.text.head?, c = '\n') :
    Filler l.Tokenless ('/' :: '/' :: body ++ l.front) := by
  have filler := l.filler_front
  cases whole : l.front with
  | nil =>
    cases l with
    | last gap _ =>
      rw [List.append_nil]
      exact .lastLine body trivial single
    | next gap _ s rest =>
      obtain ⟨c, cs, spelled, other⟩ := s.text_head
      have newline : c = '\n' := by
        apply stops
        rw [text, show gap = [] from whole, spelled]
        rfl
      rw [newline] at other
      cases other
  | cons c gap =>
    have newline : c = '\n' := by
      apply stops
      cases l with
      | last _ _ => cases whole; rfl
      | next _ _ _ _ => cases whole; rfl
    rw [whole, newline] at filler
    rw [newline]
    exact .line body single filler

theorem filler_passed (l : Layout) {lexeme : Lexeme} {piece : List Char}
    (passed : Lexeme.Passed lexeme piece l.text) : Filler l.Tokenless (piece ++ l.front) := by
  cases passed with
  | blanks blank => exact l.filler_front.blanks blank
  | line single stops => exact l.filler_line single stops
  | @block body _ first =>
    have filler := l.filler_front.block body first
    simpa using filler

end Layout

theorem Lexeme.width?_of_first? {cs : List Char} {lexeme : Lexeme} {n : Nat}
    (found : first? cs = some (lexeme, n)) : lexeme.width? cs = some n := by
  obtain ⟨_, _, hit⟩ := List.exists_of_findSome?_eq_some found
  obtain ⟨m, width, same⟩ := Option.map_eq_some_iff.mp hit
  cases same
  exact width

namespace Token

/-- Scanning finds a layout of the source. -/
theorem exists_layout {file : String} {byte : Nat} {cs : List Char} {tokens : List Token}
    (scanned : scanFrom file byte cs = .ok tokens) :
    ∃ l : Layout, l.text = cs ∧ l.tokens file byte = tokens := by
  induction size : cs.length using Nat.strong_induction_on generalizing cs byte tokens with
  | _ n ih =>
  cases first : Lexeme.first? cs with
  | none =>
    cases cs with
    | nil =>
      rw [scanFrom_nil] at scanned
      cases scanned
      exact ⟨.last [] .nil, rfl, rfl⟩
    | cons c cs =>
      rw [scanFrom_eq_error file byte first] at scanned
      cases scanned
  | some found =>
    obtain ⟨lexeme, width⟩ := found
    have bounds := Lexeme.first?_bounds first
    rw [scanFrom_eq_append file byte first] at scanned
    cases later : scanFrom file (byte + Text.byteLength (cs.take width)) (cs.drop width) with
    | error e =>
      rw [later] at scanned
      cases scanned
    | ok more =>
      have shorter : (cs.drop width).length < n := by
        rw [List.length_drop]
        omega
      obtain ⟨l, text, rfl⟩ := ih _ shorter later rfl
      rw [later] at scanned
      cases scanned
      obtain ⟨s, rest, rfl, rfl, rfl⟩ | ⟨piece, rest, rfl, rfl, passed⟩ :=
        Lexeme.cut_of_width? (Lexeme.width?_of_first? first)
      · rw [List.take_left, ofLexeme?, s.token?_lexeme]
        rw [List.drop_left] at text
        exact ⟨.next [] .nil s l, by rw [← text]; rfl, rfl⟩
      · rw [List.take_left, ofLexeme?, passed.token?]
        rw [List.drop_left] at text
        rw [← text] at passed ⊢
        obtain ⟨l', whole, moved⟩ := l.exists_prepend (l.filler_passed passed)
        exact ⟨l', whole, moved file byte⟩

def startByte (t : Token) : Nat := t.span.start.offset.toNat

def stopByte (t : Token) : Nat := t.span.stop.offset.toNat

/-- From the given byte to the first token, and from each token to the next. -/
def gaps : Nat → List Token → List (Nat × Nat)
  | _, [] => []
  | byte, t :: rest => (byte, t.startByte) :: gaps t.stopByte rest

theorem startByte_token (s : Spelling) (file : String) (byte : Nat) (fits : byte < 2 ^ 32) :
    (s.token file byte).startByte = byte := Nat.mod_eq_of_lt fits

theorem stopByte_token (s : Spelling) (file : String) (byte : Nat)
    (fits : byte + Text.byteLength s.text < 2 ^ 32) :
    (s.token file byte).stopByte = byte + Text.byteLength s.text := Nat.mod_eq_of_lt fits

theorem startByte_ending (file : String) {byte : Nat} (fits : byte < 2 ^ 32) :
    (ending (.ofByte byte file)).startByte = byte := Nat.mod_eq_of_lt fits

theorem stopByte_ending (file : String) {byte : Nat} (fits : byte < 2 ^ 32) :
    (ending (.ofByte byte file)).stopByte = byte := Nat.mod_eq_of_lt fits

end Token

namespace Layout

/-- All tokens but the ending are spelled out in the source, where they say. -/
theorem tokens_spelled (l : Layout) (file : String) (byte : Nat) :
    ∃ spelled, l.tokens file byte =
        spelled ++ [.ending (.ofByte (byte + Text.byteLength l.text) file)] ∧
      ∀ t ∈ spelled, ∃ before s after, l.text = before ++ Spelling.text s ++ after ∧
        t = s.token file (byte + Text.byteLength before) := by
  induction l generalizing byte with
  | last gap filler => exact ⟨[], rfl, List.forall_mem_nil _⟩
  | next gap filler s rest ih =>
    obtain ⟨spelled, whole, each⟩ := ih (byte + Text.byteLength (gap ++ s.text))
    refine ⟨s.token file (byte + Text.byteLength gap) :: spelled, ?_, ?_⟩
    · rw [tokens, whole, text, Text.byteLength_append _ rest.text, Nat.add_assoc]
      rfl
    · rw [List.forall_mem_cons]
      constructor
      · exact ⟨gap, s, rest.text, rfl, rfl⟩
      · intro t member
        obtain ⟨before, s', after, split, rfl⟩ := each t member
        refine ⟨gap ++ s.text ++ before, s', after, ?_, ?_⟩
        · simp [text, split]
        · rw [Text.byteLength_append _ before, Nat.add_assoc]

/-- No token starts before its layout does. -/
theorem startByte_ge (l : Layout) (file : String) {byte : Nat}
    (fits : byte + Text.byteLength l.text < 2 ^ 32) :
    ∀ t ∈ l.tokens file byte, byte ≤ t.startByte := by
  obtain ⟨spelled, whole, each⟩ := l.tokens_spelled file byte
  intro t member
  rw [whole, List.mem_append, List.mem_singleton] at member
  obtain inside | rfl := member
  · obtain ⟨before, s, after, split, rfl⟩ := each t inside
    simp only [split, Text.byteLength_append] at fits
    rw [Token.startByte_token s file _ (by omega)]
    omega
  · rw [Token.startByte_ending file fits]
    omega

theorem fits_next {gap : List Char} {filler : Filler False gap} {s : Spelling} {rest : Layout}
    {byte : Nat} (fits : byte + Text.byteLength (next gap filler s rest).text < 2 ^ 32) :
    byte + Text.byteLength gap + Text.byteLength s.text < 2 ^ 32 ∧
      byte + Text.byteLength (gap ++ s.text) + Text.byteLength rest.text < 2 ^ 32 := by
  simp only [text, Text.byteLength_append] at fits ⊢
  omega

theorem tokens_ordered (l : Layout) (file : String) {byte : Nat}
    (fits : byte + Text.byteLength l.text < 2 ^ 32) :
    (l.tokens file byte).Pairwise fun t t' => t.stopByte ≤ t'.startByte := by
  induction l generalizing byte with
  | last gap filler => exact List.pairwise_singleton ..
  | next gap filler s rest ih =>
    obtain ⟨here, later⟩ := fits_next fits
    apply List.pairwise_cons.mpr
    constructor
    · intro t member
      have start := rest.startByte_ge file later t member
      rw [Text.byteLength_append] at start
      rw [Token.stopByte_token s file _ here]
      omega
    · exact ih later

/-- Each gap between tokens holds a filler. Only one that reaches the end may close the source. -/
theorem gaps_filled (l : Layout) (file : String) {byte : Nat}
    (fits : byte + Text.byteLength l.text < 2 ^ 32) :
    ∀ gap ∈ Token.gaps byte (l.tokens file byte), ∃ before between after,
      l.text = before ++ between ++ after ∧ gap.1 = byte + Text.byteLength before ∧
        gap.2 = byte + Text.byteLength before + Text.byteLength between ∧
        Filler (after = []) between := by
  induction l generalizing byte with
  | last gap filler =>
    rw [tokens, Token.gaps, Token.gaps, List.forall_mem_singleton]
    refine ⟨[], gap, [], by simp [text], rfl, ?_, filler.mono fun _ => rfl⟩
    exact Token.startByte_ending file fits
  | next gap filler s rest ih =>
    obtain ⟨here, later⟩ := fits_next fits
    rw [tokens, Token.gaps, List.forall_mem_cons]
    constructor
    · refine ⟨[], gap, s.text ++ rest.text, by simp [text], rfl, ?_, filler.mono False.elim⟩
      rw [Token.startByte_token s file _ (by omega)]
      rfl
    · intro further member
      rw [Token.stopByte_token s file _ here, Nat.add_assoc, ← Text.byteLength_append] at member
      obtain ⟨before, between, after, split, start, stop, filled⟩ := ih later further member
      refine ⟨gap ++ s.text ++ before, between, after, by simp [text, split], ?_, ?_, filled⟩
      · rw [start, Text.byteLength_append _ before, Nat.add_assoc]
      · rw [stop, Text.byteLength_append _ before, Nat.add_assoc byte]

end Layout

/-- Where a token stands in a source, and that it shows what is written there. -/
theorem Token.placed_of_split {source : String} (short : source.utf8ByteSize < 2 ^ 32)
    (file : String) (s : Spelling) {before after : List Char}
    (split : source.toList = before ++ s.text ++ after) :
    let t := s.token file (0 + Text.byteLength before)
    t.startByte < t.stopByte ∧ t.stopByte ≤ source.utf8ByteSize ∧
      Text.Slice source t.startByte t.stopByte (String.ofList s.text) := by
  have length := congrArg Text.byteLength split
  simp only [← Text.utf8ByteSize_eq, Text.byteLength_append] at length
  have start := startByte_token s file (0 + Text.byteLength before) (by omega)
  have stop := stopByte_token s file (0 + Text.byteLength before) (by omega)
  have pos := s.text_pos
  dsimp only
  rw [start, stop, Nat.zero_add]
  exact ⟨by omega, by omega, Text.slice_of_split split⟩

/-- The tokens of a source and their ending, which stands at its very end and shows no text. The
others stand one behind the other, each from one place between characters to a later one, and the
text there dictates their value and kind. What is before, between and behind them is filler. -/
structure Token.Partition (source : String) (spelled : List Token) (last : Token) : Prop where
  ending : last.kind = .eof ∧ last.value = "EOF"
  ending_place : last.startByte = source.utf8ByteSize ∧ last.stopByte = source.utf8ByteSize
  only_ending : ∀ t ∈ spelled, t.kind ≠ .eof
  nonempty : ∀ t ∈ spelled, t.startByte < t.stopByte
  inside : ∀ t ∈ spelled, t.stopByte ≤ source.utf8ByteSize
  ordered : spelled.Pairwise fun t t' => t.stopByte ≤ t'.startByte
  shown : ∀ t ∈ spelled, ∃ text, Text.Slice source t.startByte t.stopByte text ∧
    t.SpelledBy text.toList
  filled : ∀ gap ∈ gaps 0 (spelled ++ [last]), ∃ text, Text.Slice source gap.1 gap.2 text ∧
    Filler (gap.2 = source.utf8ByteSize) text.toList

/-- Scanning cuts every source that it accepts into tokens and fillers. -/
theorem scanning_partitions (source file : String) {tokens : List Token}
    (short : source.utf8ByteSize < 2 ^ 32) (scanned : Token.scan source file = .ok tokens) :
    ∃ spelled last, tokens = spelled ++ [last] ∧ Token.Partition source spelled last := by
  obtain ⟨l, whole, rfl⟩ := Token.exists_layout scanned
  have size : source.utf8ByteSize = 0 + Text.byteLength l.text := by
    rw [whole, Text.utf8ByteSize_eq, Nat.zero_add]
  have fits := size ▸ short
  obtain ⟨spelled, all, each⟩ := l.tokens_spelled file 0
  have ordered := l.tokens_ordered file fits
  have filled := l.gaps_filled file fits
  rw [all] at ordered filled
  rw [whole] at each
  refine ⟨spelled, _, all, ?_⟩
  constructor
  case ending => exact ⟨rfl, rfl⟩
  case ending_place =>
    rw [Token.startByte_ending file fits, Token.stopByte_ending file fits, size]
    exact ⟨rfl, rfl⟩
  case only_ending =>
    intro t member
    obtain ⟨before, s, after, split, rfl⟩ := each t member
    exact s.kind_ne_eof
  case nonempty =>
    intro t member
    obtain ⟨before, s, after, split, rfl⟩ := each t member
    exact (Token.placed_of_split short file s split).1
  case inside =>
    intro t member
    obtain ⟨before, s, after, split, rfl⟩ := each t member
    exact (Token.placed_of_split short file s split).2.1
  case ordered => exact (List.pairwise_append.mp ordered).1
  case shown =>
    intro t member
    obtain ⟨before, s, after, split, rfl⟩ := each t member
    refine ⟨String.ofList s.text, (Token.placed_of_split short file s split).2.2, ?_⟩
    rw [String.toList_ofList]
    exact Token.spelledBy_text s file _
  case filled =>
    intro gap member
    obtain ⟨before, between, after, split, start, stop, filler⟩ := filled gap member
    rw [whole] at split
    refine ⟨String.ofList between, ?_, ?_⟩
    · rw [start, stop, Nat.zero_add]
      exact Text.slice_of_split split
    · rw [String.toList_ofList]
      apply filler.mono
      rintro rfl
      rw [stop, Text.utf8ByteSize_eq, split]
      simp

/-- A string with a character of two bytes, and comments with a quote and at the very end. -/
theorem scanning_partitions_sample :
    let source := "x/*\"*/=\"é\"//"
    source.utf8ByteSize < 2 ^ 32 ∧ ∃ tokens, Token.scan source "a" = .ok tokens ∧
      ∃ spelled last, tokens = spelled ++ [last] ∧ Token.Partition source spelled last := by
  have short : "x/*\"*/=\"é\"//".utf8ByteSize < 2 ^ 32 := by decide
  have well : (Token.scan "x/*\"*/=\"é\"//" "a").isOk = true := by cbv
  obtain ⟨tokens, scanned⟩ := Run.exists_of_isOk well
  exact ⟨short, tokens, scanned, scanning_partitions _ "a" short scanned⟩

end Javelet
