import Javelet.Proofs.Pointing

/-! Scanning fails at the first character with which no lexeme begins, and only there: what comes
before that character scans by itself, although lexemes may look far ahead. -/
namespace Javelet
namespace Lexeme

/-- Cutting a text short does not matter to what is found in front of it: what fits in the part that
is left is found again, and where nothing was found nothing is found now. -/
def CutStable (width? : List Char → Option Nat) : Prop :=
  ∀ cs rest, (width? (cs ++ rest) = none → width? cs = none) ∧
    ∀ n ≤ cs.length, width? (cs ++ rest) = some n → width? cs = some n

theorem CutStable.or {first second : List Char → Option Nat} (one : CutStable first)
    (other : CutStable second) : CutStable fun cs => (first cs).or (second cs) := by
  intro cs rest
  obtain ⟨absent, present⟩ := one cs rest
  obtain ⟨absentToo, presentToo⟩ := other cs rest
  simp only [Option.or_eq_none_iff, Option.or_eq_some_iff]
  refine ⟨fun none => ⟨absent none.1, absentToo none.2⟩, fun n fits found => ?_⟩
  obtain here | ⟨none, there⟩ := found
  · exact .inl (present n fits here)
  · exact .inr ⟨absent none, presentToo n fits there⟩

/-- A piece that is found by itself, whatever stands behind it. -/
theorem CutStable.of_piece {width? : List Char → Option Nat} (Good : List Char → Prop)
    (found_iff : ∀ cs n, width? cs = some n ↔
      ∃ piece rest, cs = piece ++ rest ∧ n = piece.length ∧ Good piece) : CutStable width? := by
  intro cs rest
  constructor
  · intro absent
    cases found : width? cs with
    | none => rfl
    | some n =>
      obtain ⟨piece, more, rfl, same, good⟩ := (found_iff ..).mp found
      have present : width? (piece ++ more ++ rest) = some n :=
        (found_iff ..).mpr ⟨piece, more ++ rest, List.append_assoc .., same, good⟩
      rw [absent] at present
      cases present
  · intro n fits found
    obtain ⟨piece, more, split, rfl, good⟩ := (found_iff ..).mp found
    have front : piece <+: cs ++ rest := ⟨more, split.symm⟩
    obtain ⟨left, whole⟩ := List.prefix_of_prefix_length_le front (List.prefix_append cs rest) fits
    exact (found_iff ..).mpr ⟨piece, left, whole.symm, rfl, good⟩

/-- A measure that depends on nothing behind the place where it ends. -/
def Settled (measure : List Char → Nat) : Prop :=
  ∀ cs rest, measure (cs ++ rest) ≤ cs.length → measure (cs ++ rest) = measure cs

/-- A piece that is found by its first characters and goes as far as a measure of what comes behind
some of them. -/
theorem CutStable.of_start {width? : List Char → Option Nat} (starts : List Char → Bool)
    {measure : List Char → Nat} (settled : Settled measure) (count offset : Nat)
    (inside : offset ≤ count) (full : ∀ front, starts front = true → front.length = count)
    (width : ∀ cs, width? cs =
      if starts (cs.take count) then some (offset + measure (cs.drop offset)) else none)
    (enough : ∀ cs n, width? cs = some n → count ≤ n) : CutStable width? := by
  intro cs rest
  by_cases long : count ≤ cs.length
  · rw [width, width, List.take_append_of_le_length long,
      List.drop_append_of_le_length (inside.trans long)]
    split
    · refine ⟨nofun, fun n fits found => ?_⟩
      cases found
      rw [settled (cs.drop offset) rest (by rw [List.length_drop]; omega)]
    · exact ⟨id, nofun⟩
  · have absent : width? cs = none := by
      rw [width, if_neg]
      intro start
      have length := full _ start
      rw [List.length_take] at length
      omega
    refine ⟨fun _ => absent, fun n fits found => ?_⟩
    have least := enough _ n found
    omega

/-- A run that ends before the cut ends there for the same reason. -/
theorem takeWhile_settled (p : Char → Bool) : Settled fun cs => (cs.takeWhile p).length := by
  intro cs rest fits
  dsimp only at fits ⊢
  rw [List.takeWhile_append] at fits ⊢
  split at fits
  · rename_i whole
    rw [List.length_append] at fits
    rw [if_pos whole, List.length_append]
    omega
  · rename_i stopped
    rw [if_neg stopped]

/-- A run of digits may go on behind the cut, but only with underscores, which it gives up again. -/
theorem digitRun_settled (isDigit : Char → Bool) : Settled (digitRun isDigit) := by
  intro cs rest fits
  unfold digitRun at fits ⊢
  rw [List.takeWhile_append] at fits ⊢
  split at fits
  · rename_i whole
    have all := (List.takeWhile_prefix (l := cs) fun c => isDigit c || c == '_').eq_of_length whole
    rw [if_pos whole, all]
    rw [List.reverse_append, List.dropWhile_append] at fits ⊢
    split at fits
    · rename_i marks
      rw [if_pos marks]
    · rename_i digits
      rw [List.isEmpty_iff_length_eq_zero] at digits
      rw [List.length_append, List.length_reverse] at fits
      omega
  · rename_i stopped
    rw [if_neg stopped]

/-- A single character that may begin a piece. -/
def isStart (start : Char → Bool) : List Char → Bool
  | [c] => start c
  | _ => false

theorem length_of_isStart {start : Char → Bool} {front : List Char}
    (begun : isStart start front = true) : front.length = 1 := by
  unfold isStart at begun
  split at begun
  · rfl
  · cases begun

/-- Words and blanks are runs with a first character of their own. -/
theorem run_cutStable {lexeme : Lexeme} {start part : Char → Bool} (nil : lexeme.width? [] = none)
    (cons : ∀ c cs, lexeme.width? (c :: cs) =
      if start c then some (1 + (cs.takeWhile part).length) else none) :
    CutStable lexeme.width? := by
  refine .of_start (isStart start) (takeWhile_settled part) 1 1 le_rfl ?_ ?_ ?_
  · exact fun front begun => length_of_isStart begun
  · intro cs
    cases cs with
    | nil => exact nil
    | cons c cs => exact cons c cs
  · intro cs n found
    exact (width?_bounds found).1

theorem lineComment_cutStable : CutStable lineComment.width? := by
  refine .of_start (· == ['/', '/']) (takeWhile_settled (· ≠ '\n')) 2 2 le_rfl ?_ ?_ ?_
  · intro front begun
    rw [beq_iff_eq.mp begun]
    rfl
  · intro cs
    rcases cs with _ | ⟨c, _ | ⟨d, cs⟩⟩
    · rfl
    · simp [width?]
    · by_cases slashes : c = '/' ∧ d = '/'
      · obtain ⟨rfl, rfl⟩ := slashes
        rfl
      · have other : ¬ ([c, d] == ['/', '/']) = true := by simpa using slashes
        rw [List.take_succ_cons, List.take_succ_cons, List.take_zero, if_neg other]
        cases found : lineComment.width? (c :: d :: cs) with
        | none => rfl
        | some n =>
          obtain ⟨_, whole⟩ := comment_front (.inl ⟨rfl, rfl⟩) found
          cases whole
          exact absurd ⟨rfl, rfl⟩ slashes
  · intro cs n found
    obtain ⟨body, _, _, rfl, _⟩ := exists_of_line found
    omega

theorem decimal_cutStable : CutStable decimalWidth? := by
  refine .of_start (isStart Char.isDigit) (digitRun_settled Char.isDigit) 1 0 (by decide) ?_ ?_ ?_
  · exact fun front begun => length_of_isStart begun
  · intro cs
    cases cs with
    | nil => rfl
    | cons c cs => rw [Nat.zero_add]; rfl
  · intro cs n found
    exact (decimalWidth?_bounds found).1

/-- A zero, the mark of a base and a digit. -/
def isBasedStart (isMark isDigit : Char → Bool) : List Char → Bool
  | ['0', mark, c] => isMark mark && isDigit c
  | _ => false

theorem based_cutStable (isMark isDigit : Char → Bool)
    (proper : isDigit '_' = false) : CutStable (basedWidth? isMark isDigit) := by
  refine .of_start (isBasedStart isMark isDigit) (digitRun_settled isDigit) 3 2 (by decide) ?_ ?_ ?_
  · intro front begun
    unfold isBasedStart at begun
    split at begun
    · rfl
    · cases begun
  · intro cs
    rcases cs with _ | ⟨zero, _ | ⟨mark, _ | ⟨c, cs⟩⟩⟩
    · rfl
    · simp [basedWidth?, isBasedStart]
    · simp [basedWidth?, isBasedStart]
    · by_cases base : zero = '0'
      · subst base
        rfl
      · simp [basedWidth?, isBasedStart, base]
  · intro cs n found
    unfold basedWidth? at found
    split at found
    · rename_i mark c cs
      simp only [Bool.and_eq_true, Option.ite_none_right_eq_some, Option.some.injEq] at found
      obtain ⟨⟨_, digit⟩, rfl⟩ := found
      have unmarked : (c == '_') = false := by
        rw [beq_eq_false_iff_ne]
        rintro rfl
        rw [proper] at digit
        cases digit
      have pos := digitRun_pos cs digit unmarked
      omega
    · cases found

theorem quoted_cutStable : CutStable quoted.width? := by
  apply CutStable.of_piece fun piece => ∃ body, '"' ∉ body ∧ piece = '"' :: body ++ ['"']
  intro cs n
  constructor
  · intro found
    obtain ⟨body, rest, rfl, rfl, closed⟩ := exists_of_quoted found
    exact ⟨'"' :: body ++ ['"'], rest, by simp, by simp, body, closed, rfl⟩
  · rintro ⟨_, rest, rfl, rfl, body, closed, rfl⟩
    have width := width?_of_first? (first?_quoted closed rest)
    simpa using width

theorem blockComment_cutStable : CutStable blockComment.width? := by
  apply CutStable.of_piece fun piece =>
    ∃ body, ¬ ['*', '/'] <:+: body ++ ['*'] ∧ piece = '/' :: '*' :: body ++ ['*', '/']
  intro cs n
  constructor
  · intro found
    obtain ⟨body, rest, rfl, rfl, first⟩ := exists_of_block found
    exact ⟨'/' :: '*' :: body ++ ['*', '/'], rest, by simp, by simp, body, first, rfl⟩
  · rintro ⟨_, rest, rfl, rfl, body, first, rfl⟩
    have width := width?_of_first? (first?_block first rest)
    simpa using width

theorem punct_cutStable (p : Punct) : CutStable (punct p).width? := by
  apply CutStable.of_piece (· = p.spelling.toList)
  intro cs n
  simp only [width?_punct, Option.ite_none_right_eq_some, Option.some.injEq,
    List.isPrefixOf_iff_prefix]
  constructor
  · rintro ⟨⟨rest, rfl⟩, rfl⟩
    exact ⟨_, rest, rfl, rfl, rfl⟩
  · rintro ⟨_, rest, rfl, rfl, rfl⟩
    exact ⟨List.prefix_append _ rest, rfl⟩

theorem width?_cutStable (lexeme : Lexeme) : CutStable lexeme.width? := by
  cases lexeme with
  | word => exact run_cutStable rfl fun _ _ => rfl
  | number =>
    have hex := based_cutStable (fun c => c == 'x' || c == 'X') isHex (by decide)
    have binary := based_cutStable (fun c => c == 'b' || c == 'B') isBinary (by decide)
    exact hex.or (binary.or decimal_cutStable)
  | blank => exact run_cutStable rfl fun _ _ => rfl
  | quoted => exact quoted_cutStable
  | lineComment => exact lineComment_cutStable
  | blockComment => exact blockComment_cutStable
  | punct p => exact punct_cutStable p

/-- The lexeme in front of a text is also in front of any part that holds it whole. -/
theorem first?_front {cs rest : List Char} {lexeme : Lexeme} {n : Nat} (fits : n ≤ cs.length)
    (found : first? (cs ++ rest) = some (lexeme, n)) : first? cs = some (lexeme, n) := by
  unfold first? at found ⊢
  generalize all = lexemes at found ⊢
  induction lexemes with
  | nil => cases found
  | cons other others ih =>
    obtain ⟨absent, present⟩ := other.width?_cutStable cs rest
    rw [List.findSome?_cons] at found ⊢
    cases here : other.width? (cs ++ rest) with
    | none =>
      rw [here] at found
      rw [absent here]
      exact ih found
    | some width =>
      rw [here] at found
      cases found
      rw [present n fits here]
      rfl

/-- The characters that are punctuation by themselves. -/
def signs : List Char :=
  ['[', ']', '\x7b', '\x7d', '(', ')', '=', '!', '<', '>', '.', ';', ':', '?', ',', '+', '-', '/',
    '*', '%']

/-- In front of the rest the character begins no lexeme: it is nothing by itself, a bar or ampersand
is not doubled, and a quote is not closed. -/
structure Stray (c : Char) (rest : List Char) : Prop where
  not_blank : Text.isBlank c = false
  not_wordStart : isWordStart c = false
  not_digit : c.isDigit = false
  not_sign : c ∉ signs
  not_doubled : c = '|' ∨ c = '&' → rest.head? ≠ some c
  not_closed : c = '"' → '"' ∉ rest

theorem exists_punct_of_sign : ∀ c ∈ signs, ∃ p : Punct, p.spelling.toList = [c] := by
  simp only [signs, List.forall_mem_cons]
  exact ⟨⟨.openBracket, rfl⟩, ⟨.closeBracket, rfl⟩, ⟨.openCurly, rfl⟩, ⟨.closeCurly, rfl⟩,
    ⟨.openParen, rfl⟩, ⟨.closeParen, rfl⟩, ⟨.assign, rfl⟩, ⟨.negation, rfl⟩, ⟨.less, rfl⟩,
    ⟨.greater, rfl⟩, ⟨.dot, rfl⟩, ⟨.semicolon, rfl⟩, ⟨.colon, rfl⟩, ⟨.question, rfl⟩,
    ⟨.comma, rfl⟩, ⟨.plus, rfl⟩, ⟨.dash, rfl⟩, ⟨.slash, rfl⟩, ⟨.star, rfl⟩, ⟨.percent, rfl⟩,
    List.forall_mem_nil _⟩

/-- Only two spellings begin with a character that is not punctuation by itself. -/
theorem punct_head (p : Punct) : (∀ c ∈ p.spelling.toList.head?, c ∈ signs) ∨
    p.spelling.toList = ['|', '|'] ∨ p.spelling.toList = ['&', '&'] := by
  cases p <;> simp [Punct.spelling, signs]

theorem width?_quoted_eq_none_iff (rest : List Char) :
    quoted.width? ('"' :: rest) = none ↔ '"' ∉ rest := by
  constructor
  · intro absent closed
    obtain ⟨body, more, rfl, first⟩ := List.eq_append_cons_of_mem closed
    have found := width?_of_first? (first?_quoted first more)
    rw [List.cons_append, absent] at found
    cases found
  · intro unclosed
    cases found : quoted.width? ('"' :: rest) with
    | none => rfl
    | some n =>
      obtain ⟨body, more, whole, _⟩ := exists_of_quoted found
      cases whole
      simp at unclosed

theorem mem_all (lexeme : Lexeme) : lexeme ∈ all := by
  cases lexeme with
  | punct p =>
    have known : p ∈ Punct.all := by cases p <;> decide
    exact List.mem_append_right _ (List.mem_map_of_mem known)
  | _ => exact List.mem_append_left _ (by decide)

theorem first?_eq_none_iff (cs : List Char) :
    first? cs = none ↔ ∀ lexeme : Lexeme, lexeme.width? cs = none := by
  simp only [first?, List.findSome?_eq_none_iff, Option.map_eq_none_iff, mem_all, true_imp_iff]

theorem width?_punct_ne_none {p : Punct} {cs : List Char} (front : p.spelling.toList <+: cs) :
    (punct p).width? cs ≠ none := by
  rw [width?_punct, if_pos (List.isPrefixOf_iff_prefix.mpr front)]
  exact Option.some_ne_none _

theorem Stray.of_first? {c : Char} {rest : List Char} (absent : first? (c :: rest) = none) :
    Stray c rest := by
  rw [first?_eq_none_iff] at absent
  constructor
  case not_blank => simpa [width?] using absent blank
  case not_wordStart => simpa [width?] using absent word
  case not_digit =>
    have decimal := absent number
    rw [width?, Option.or_eq_none_iff, Option.or_eq_none_iff] at decimal
    simpa [decimalWidth?] using decimal.2.2
  case not_sign =>
    intro sign
    obtain ⟨p, spelled⟩ := exists_punct_of_sign c sign
    apply width?_punct_ne_none _ (absent (punct p))
    rw [spelled]
    exact ⟨rest, rfl⟩
  case not_doubled =>
    rintro (rfl | rfl) second
    · obtain ⟨more, rfl⟩ := List.head?_eq_some_iff.mp second
      exact width?_punct_ne_none ⟨more, rfl⟩ (absent (punct .disjunction))
    · obtain ⟨more, rfl⟩ := List.head?_eq_some_iff.mp second
      exact width?_punct_ne_none ⟨more, rfl⟩ (absent (punct .conjunction))
  case not_closed =>
    rintro rfl
    exact (width?_quoted_eq_none_iff rest).mp (absent quoted)

theorem Stray.width?_punct {c : Char} {rest : List Char} (stray : Stray c rest) (p : Punct) :
    (punct p).width? (c :: rest) = none := by
  rw [Lexeme.width?_punct, if_neg]
  intro found
  obtain ⟨more, whole⟩ := List.isPrefixOf_iff_prefix.mp found
  obtain sign | bars | ampersands := punct_head p
  · obtain ⟨d, ds, spelled⟩ := List.exists_cons_of_length_pos (punct_spelling_pos p)
    rw [spelled] at whole sign
    cases whole
    exact stray.not_sign (sign c rfl)
  · rw [bars] at whole
    cases whole
    exact stray.not_doubled (.inl rfl) rfl
  · rw [ampersands] at whole
    cases whole
    exact stray.not_doubled (.inr rfl) rfl

theorem Stray.first?_eq_none {c : Char} {rest : List Char} (stray : Stray c rest) :
    first? (c :: rest) = none := by
  have slash : c ≠ '/' := by
    rintro rfl
    exact stray.not_sign (by decide)
  rw [first?_eq_none_iff]
  intro lexeme
  cases lexeme with
  | word => simp [width?, stray.not_wordStart]
  | number => exact width?_number_none stray.not_digit rest
  | blank => simp [width?, stray.not_blank]
  | quoted =>
    by_cases quote : c = '"'
    · subst quote
      exact (width?_quoted_eq_none_iff rest).mpr (stray.not_closed rfl)
    · simp [width?, quote]
  | lineComment => simp [width?, slash]
  | blockComment => simp [width?, slash]
  | punct p => exact stray.width?_punct p

theorem Reaches.suffix {cs rest : List Char} (reached : Reaches cs rest) : rest <:+ cs := by
  induction reached with
  | here => exact List.suffix_refl _
  | cut _ _ ih => exact ih.trans (List.drop_suffix _ _)

/-- In front of the rest, the text is made up of lexemes that are cut off one after the other. -/
inductive Tiled (rest : List Char) : List Char → Prop
  | nil : Tiled rest []
  | cut {text : List Char} {lexeme : Lexeme} {width : Nat} :
      first? (text ++ rest) = some (lexeme, width) → width ≤ text.length →
      Tiled rest (text.drop width) → Tiled rest text

theorem Reaches.tiled {before rest : List Char} (reached : Reaches (before ++ rest) rest) :
    Tiled rest before := by
  generalize whole : before ++ rest = cs at reached
  induction reached generalizing before with
  | here cs =>
    rw [List.append_left_eq_self.mp whole]
    exact .nil
  | @cut cs rest lexeme width first further ih =>
    subst whole
    have bounds := first?_bounds first
    have lengths := further.suffix.length_le
    rw [List.length_drop, List.length_append] at lengths
    rw [List.length_append] at bounds
    have inside : width ≤ before.length := by omega
    exact .cut first inside (ih (List.drop_append_of_le_length inside).symm)

end Lexeme

namespace Token
open Lexeme (Tiled Stray)

/-- What is tiled in front of a rest scans by itself. -/
theorem scanFrom_of_tiled {text rest : List Char} (tiled : Tiled rest text) (file : String)
    (byte : Nat) : ∃ tokens, scanFrom file byte text = .ok tokens := by
  induction tiled generalizing byte with
  | nil => exact ⟨_, scanFrom_nil file byte⟩
  | @cut text lexeme width first inside _ ih =>
    obtain ⟨tokens, scanned⟩ := ih (byte + Text.byteLength (text.take width))
    rw [scanFrom_eq_append file byte (Lexeme.first?_front inside first), scanned]
    exact ⟨_, rfl⟩

/-- Scanning stops where it reaches a stray character. -/
theorem scanFrom_stray {text : List Char} {c : Char} {rest : List Char}
    (tiled : Tiled (c :: rest) text) (stray : Stray c rest) (file : String) (byte : Nat) :
    scanFrom file byte (text ++ c :: rest) =
      .error ⟨.unrecognised (String.ofList [c]), .ofByte (byte + Text.byteLength text) file⟩ := by
  induction tiled generalizing byte with
  | nil => exact scanFrom_eq_error file byte stray.first?_eq_none
  | @cut text lexeme width first inside _ ih =>
    have split : Text.byteLength text =
        Text.byteLength (text.take width) + Text.byteLength (text.drop width) := by
      rw [← Text.byteLength_append, List.take_append_drop]
    rw [scanFrom_eq_append file byte first, List.take_append_of_le_length inside,
      List.drop_append_of_le_length inside, ih, split, Nat.add_assoc]
    rfl

end Token

/-- Where scanning fails: at a place inside the source, between the front, which scans by itself,
and a stray character, which the error names. -/
structure Error.MarksStray (e : Error) (source file : String) (front : String) (c : Char)
    (rest : List Char) : Prop where
  cause : e.cause = .unrecognised (String.singleton c)
  file_eq : e.position.file = file
  inside : e.position.offset.toNat < source.utf8ByteSize
  slice : Text.Slice source 0 e.position.offset.toNat front
  split : source = front ++ String.ofList (c :: rest)
  scans : ∃ tokens, Token.scan front file = .ok tokens
  reached : Lexeme.Reaches source.toList (c :: rest)
  stray : Lexeme.Stray c rest

theorem Token.marksStray_of_error {source file : String} (short : source.utf8ByteSize < 2 ^ 32)
    {e : Error} (failed : scan source file = .error e) :
    ∃ front c rest, e.MarksStray source file front c rest := by
  obtain ⟨before, c, rest, split, reached, absent, rfl⟩ := scanFrom_error failed
  have size : source.utf8ByteSize =
      Text.byteLength before + (c.utf8Size + Text.byteLength rest) := by
    rw [Text.utf8ByteSize_eq, split, Text.byteLength_append, Text.byteLength_cons]
  have wide := c.utf8Size_pos
  rw [Nat.zero_add]
  have offset : (Position.ofByte (Text.byteLength before) file).offset.toNat =
      Text.byteLength before := Position.offset_ofByte (by omega) file
  refine ⟨String.ofList before, c, rest, ?_⟩
  constructor
  case cause => rfl
  case file_eq => rfl
  case inside =>
    rw [offset]
    omega
  case slice =>
    have parts : source.toList = [] ++ before ++ c :: rest := split
    have slice := Text.slice_of_split parts
    rw [offset]
    rwa [Text.byteLength_nil, Nat.zero_add] at slice
  case split => rw [← String.ofList_append, ← split, String.ofList_toList]
  case scans =>
    rw [split] at reached
    rw [scan, String.toList_ofList]
    exact scanFrom_of_tiled reached.tiled file 0
  case reached => exact reached
  case stray => exact .of_first? absent

/-- A scan that fails does so at a stray character, the first that it meets; and if a scan meets a
stray character, it fails there. -/
theorem scanning_stops_at_stray (source file : String) (short : source.utf8ByteSize < 2 ^ 32) :
    (∀ e, Token.scan source file = .error e →
      ∃ front c rest, e.MarksStray source file front c rest) ∧
    ∀ front back c rest, source = front ++ back → back.toList = c :: rest →
      Lexeme.Reaches source.toList back.toList → Lexeme.Stray c rest →
      ∃ e, Token.scan source file = .error e ∧ e.cause = .unrecognised (String.singleton c) ∧
        e.position = .ofByte front.utf8ByteSize file ∧
        e.position.offset.toNat = front.utf8ByteSize := by
  refine ⟨fun e failed => Token.marksStray_of_error short failed, ?_⟩
  rintro front back c rest rfl first reached stray
  rw [String.toList_append, first] at reached
  rw [String.utf8ByteSize_append] at short
  have failed := Token.scanFrom_stray reached.tiled stray file 0
  rw [← first, ← String.toList_append, Nat.zero_add, ← Text.utf8ByteSize_eq] at failed
  exact ⟨_, failed, rfl, rfl, Position.offset_ofByte (by omega) file⟩

/-- A comment that is not closed, a string in it, and a bar that stands alone. -/
theorem scanning_stops_at_stray_sample :
    let source := "/*\"é\"|"
    source.utf8ByteSize < 2 ^ 32 ∧ Lexeme.Stray '|' [] ∧
      ∃ e, Token.scan source "a" = .error e ∧ e.position.offset.toNat = 6 ∧
        ∃ front c rest, e.MarksStray source "a" front c rest := by
  intro source
  have short : source.utf8ByteSize < 2 ^ 32 := by decide
  have stray : Lexeme.Stray '|' [] := by constructor <;> decide
  have slash : Lexeme.first? ['/', '*', '"', 'é', '"', '|'] = some (.punct .slash, 1) := rfl
  have star : Lexeme.first? ['*', '"', 'é', '"', '|'] = some (.punct .star, 1) := rfl
  have string : Lexeme.first? ['"', 'é', '"', '|'] = some (.quoted, 3) := rfl
  have reached : Lexeme.Reaches source.toList "|".toList := by
    rw [show source.toList = ['/', '*', '"', 'é', '"', '|'] by decide]
    exact .cut slash (.cut star (.cut string (.here _)))
  obtain ⟨forth, back⟩ := scanning_stops_at_stray source "a" short
  obtain ⟨e, failed, _, _, offset⟩ := back "/*\"é\"" "|" '|' [] rfl rfl reached stray
  exact ⟨short, stray, e, failed, offset, forth e failed⟩

end Javelet
