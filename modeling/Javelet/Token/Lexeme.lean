import Javelet.Text.Blank
import Javelet.Token.Kind

namespace Javelet

/-- The pieces a source is cut into. Blanks and comments become no tokens. -/
inductive Lexeme where
  | word
  | number
  | blank
  | quoted
  | lineComment
  | blockComment
  | punct (p : Punct)
deriving DecidableEq

namespace Lexeme

def isWordStart (c : Char) : Bool := c.isAlpha || c == '_' || c == '$'

def isWordPart (c : Char) : Bool := c.isAlphanum || c == '_' || c == '$'

def isBinary (c : Char) : Bool := c == '0' || c == '1'

def isHex (c : Char) : Bool :=
  c.isDigit || ('a' ≤ c && c ≤ 'f') || ('A' ≤ c && c ≤ 'F')

/-- How far digits and underscores go when the last of them has to be a digit. -/
def digitRun (isDigit : Char → Bool) (cs : List Char) : Nat :=
  ((cs.takeWhile fun c => isDigit c || c == '_').reverse.dropWhile (· == '_')).length

def decimalWidth? : List Char → Option Nat
  | c :: cs => if c.isDigit then some (digitRun Char.isDigit (c :: cs)) else none
  | [] => none

/-- A number with a letter for its base needs a digit right after the letter. -/
def basedWidth? (isMark isDigit : Char → Bool) : List Char → Option Nat
  | '0' :: mark :: c :: cs =>
    if isMark mark && isDigit c then some (2 + digitRun isDigit (c :: cs)) else none
  | _ => none

/-- Where the first `*/` ends. -/
def commentEnd? : List Char → Option Nat
  | '*' :: '/' :: _ => some 2
  | _ :: cs => (commentEnd? cs).map (· + 1)
  | [] => none

/-- The number of characters that a pattern takes from the front. -/
def patternWidth? : List Char → List Char → Option Nat
  | '\\' :: p :: ps, c :: cs => if p = c then (patternWidth? ps cs).map (· + 1) else none
  | p :: ps, c :: cs => if p = c then (patternWidth? ps cs).map (· + 1) else none
  | [], _ => some 0
  | _ :: _, [] => none

/-- The number of characters that the lexeme takes from the front, when it is there. A string may
hold line breaks; a string or block comment that is never closed is not one. -/
def width? : Lexeme → List Char → Option Nat
  | word, c :: cs =>
    if isWordStart c then some (1 + (cs.takeWhile isWordPart).length) else none
  | number, cs =>
    (basedWidth? (fun c => c == 'x' || c == 'X') isHex cs).or
      ((basedWidth? (fun c => c == 'b' || c == 'B') isBinary cs).or (decimalWidth? cs))
  | blank, c :: cs =>
    if Text.isBlank c then some (1 + (cs.takeWhile Text.isBlank).length) else none
  | quoted, '"' :: cs =>
    let body := (cs.takeWhile (· ≠ '"')).length
    if body < cs.length then some (body + 2) else none
  | lineComment, '/' :: '/' :: cs => some (2 + (cs.takeWhile (· ≠ '\n')).length)
  | blockComment, '/' :: '*' :: cs => (commentEnd? cs).map (· + 2)
  | punct p, cs => patternWidth? p.pattern cs
  | _, _ => none

/-- In the order in which they are tried. -/
def all : List Lexeme :=
  [word, number, blank, quoted, lineComment, blockComment] ++ Punct.all.map punct

/-- The lexeme in front and its width. -/
def first? (cs : List Char) : Option (Lexeme × Nat) :=
  all.findSome? fun lexeme => (lexeme.width? cs).map (lexeme, ·)

/-- Kind and value of the token that the text of a lexeme makes. -/
def token? : Lexeme → List Char → Option (Kind × String)
  | word, text =>
    let word := String.ofList text
    some ((Kind.reserved? word).getD .identifier, word)
  | number, text => some (.number, String.ofList text)
  | quoted, text => some (.string, String.ofList (text.drop 1).dropLast)
  | punct p, text => some (.punct p, String.ofList text)
  | blank, _ | lineComment, _ | blockComment, _ => none

theorem digitRun_le (isDigit : Char → Bool) (cs : List Char) : digitRun isDigit cs ≤ cs.length := by
  have drop := (List.dropWhile_suffix (· == '_')
    (l := (cs.takeWhile fun c => isDigit c || c == '_').reverse)).length_le
  have take := (List.takeWhile_prefix (fun c => isDigit c || c == '_') (l := cs)).length_le
  simp only [List.length_reverse] at drop
  exact Nat.le_trans drop take

theorem digitRun_pos {isDigit : Char → Bool} {c : Char} (cs : List Char)
    (digit : isDigit c = true) (mark : (c == '_') = false) : 0 < digitRun isDigit (c :: cs) := by
  unfold digitRun
  generalize hrun : (cs.takeWhile fun c => isDigit c || c == '_') = run
  have first : ((c :: cs).takeWhile fun c => isDigit c || c == '_') = c :: run := by
    simp [digit, hrun]
  rw [first, List.length_pos_iff]
  intro none
  have whole := List.takeWhile_append_dropWhile (p := (· == '_')) (l := (c :: run).reverse)
  rw [none, List.append_nil] at whole
  have marks := List.all_takeWhile (p := (· == '_')) (l := (c :: run).reverse)
  rw [whole, List.all_eq_true] at marks
  have := marks c (by simp)
  simp [mark] at this

theorem commentEnd?_bounds {cs : List Char} {n : Nat} (h : commentEnd? cs = some n) :
    0 < n ∧ n ≤ cs.length := by
  induction cs using commentEnd?.induct generalizing n with
  | case1 cs => simp [commentEnd?] at h; simp; omega
  | case2 c cs hne ih =>
    rw [commentEnd?] at h
    · obtain ⟨m, hm, rfl⟩ := Option.map_eq_some_iff.mp h
      have := ih hm
      simp; omega
    · exact hne
  | case3 => simp [commentEnd?] at h

theorem decimalWidth?_bounds {cs : List Char} {n : Nat} (h : decimalWidth? cs = some n) :
    0 < n ∧ n ≤ cs.length := by
  cases cs with
  | nil => simp [decimalWidth?] at h
  | cons c cs =>
    simp only [decimalWidth?, Option.ite_none_right_eq_some, Option.some.injEq] at h
    obtain ⟨digit, rfl⟩ := h
    have mark : (c == '_') = false := by
      rw [beq_eq_false_iff_ne]
      rintro rfl
      exact absurd digit (by decide)
    exact ⟨digitRun_pos cs digit mark, digitRun_le _ _⟩

theorem basedWidth?_bounds {isMark isDigit : Char → Bool}
    {cs : List Char} {n : Nat} (h : basedWidth? isMark isDigit cs = some n) :
    0 < n ∧ n ≤ cs.length := by
  unfold basedWidth? at h
  split at h
  · rename_i mark c cs
    simp only [Bool.and_eq_true, Option.ite_none_right_eq_some, Option.some.injEq] at h
    obtain ⟨_, rfl⟩ := h
    have := digitRun_le isDigit (c :: cs)
    simp only [List.length_cons] at this ⊢
    omega
  · simp at h

theorem takeWhile_length_le (p : Char → Bool) (cs : List Char) :
    (cs.takeWhile p).length ≤ cs.length :=
  (List.takeWhile_prefix p).length_le

/-- The text that a pattern stands for. -/
def unescape : List Char → List Char
  | '\\' :: c :: cs => c :: unescape cs
  | c :: cs => c :: unescape cs
  | [] => []

theorem patternWidth?_eq (pattern cs : List Char) : patternWidth? pattern cs =
    if (unescape pattern).isPrefixOf cs then some (unescape pattern).length else none := by
  fun_induction patternWidth? pattern cs with
  | case1 p ps cs ih => simp [unescape, ih, Option.map_if]
  | case2 p ps c cs differ => simp [unescape, differ]
  | case3 ps c cs plain ih =>
    rw [unescape]
    · simp [ih, Option.map_if]
    · exact plain
  | case4 p ps c cs plain differ =>
    rw [unescape]
    · simp [differ]
    · exact plain
  | case5 => simp [unescape]
  | case6 p ps =>
    unfold unescape
    split <;> simp_all

/-- The pattern of a token and its value are written down apart from each other. They agree. -/
theorem unescape_pattern (p : Punct) : unescape p.pattern = p.spelling.toList := by
  cases p <;> decide

theorem width?_punct (p : Punct) (cs : List Char) : (punct p).width? cs =
    if p.spelling.toList.isPrefixOf cs then some p.spelling.toList.length else none := by
  rw [width?, patternWidth?_eq, unescape_pattern]

theorem punct_spelling_pos (p : Punct) : 0 < p.spelling.toList.length := by
  cases p <;> decide

/-- A lexeme takes something, and no more than there is. -/
theorem width?_bounds {lexeme : Lexeme} {cs : List Char} {n : Nat}
    (h : lexeme.width? cs = some n) : 0 < n ∧ n ≤ cs.length := by
  unfold width? at h
  split at h
  · rename_i c cs
    simp only [Option.ite_none_right_eq_some, Option.some.injEq] at h
    have := takeWhile_length_le isWordPart cs
    simp only [List.length_cons]
    omega
  · simp only [Option.or_eq_some_iff] at h
    rcases h with h | ⟨_, h | ⟨_, h⟩⟩
    · exact basedWidth?_bounds h
    · exact basedWidth?_bounds h
    · exact decimalWidth?_bounds h
  · rename_i c cs
    simp only [Option.ite_none_right_eq_some, Option.some.injEq] at h
    have := takeWhile_length_le Text.isBlank cs
    simp only [List.length_cons]
    omega
  · simp only [Option.ite_none_right_eq_some, Option.some.injEq] at h
    simp only [List.length_cons]
    omega
  · rename_i cs
    simp only [Option.some.injEq] at h
    have := takeWhile_length_le (· ≠ '\n') cs
    simp only [List.length_cons]
    omega
  · rename_i cs
    obtain ⟨m, hm, rfl⟩ := Option.map_eq_some_iff.mp h
    have := commentEnd?_bounds hm
    simp only [List.length_cons]
    omega
  · rename_i p
    simp only [patternWidth?_eq, unescape_pattern, Option.ite_none_right_eq_some,
      Option.some.injEq, List.isPrefixOf_iff_prefix] at h
    obtain ⟨front, rfl⟩ := h
    exact ⟨punct_spelling_pos p, front.length_le⟩
  · simp at h

theorem first?_bounds {cs : List Char} {lexeme : Lexeme} {n : Nat}
    (h : first? cs = some (lexeme, n)) : 0 < n ∧ n ≤ cs.length := by
  obtain ⟨_, _, hw⟩ := List.exists_of_findSome?_eq_some h
  obtain ⟨m, hm, heq⟩ := Option.map_eq_some_iff.mp hw
  cases heq
  exact width?_bounds hm

end Lexeme
end Javelet
