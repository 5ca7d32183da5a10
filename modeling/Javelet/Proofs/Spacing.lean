import Javelet.Proofs.Marks
import Javelet.Token.Scan

namespace Javelet

namespace Text

/-- A character of ASCII that shows. -/
def Graphic (c : Char) : Prop := 33 ≤ c.toNat ∧ c.toNat ≤ 126

instance (c : Char) : Decidable (Graphic c) := inferInstanceAs (Decidable (_ ∧ _))

theorem Graphic.not_blank {c : Char} (h : Graphic c) : isBlank c = false := by
  obtain ⟨low, high⟩ := h
  simp [isBlank, CodeRanges.has, blankRanges]
  omega

end Text

namespace Lexeme
open Text (Graphic isBlank)

theorem isDigit_bounds {c : Char} (h : c.isDigit = true) : 48 ≤ c.toNat ∧ c.toNat ≤ 57 := by
  simp only [Char.isDigit, Bool.and_eq_true, decide_eq_true_eq, UInt32.le_iff_toNat_le,
    ge_iff_le] at h
  exact h

theorem isAlpha_bounds {c : Char} (h : c.isAlpha = true) :
    65 ≤ c.toNat ∧ c.toNat ≤ 90 ∨ 97 ≤ c.toNat ∧ c.toNat ≤ 122 := by
  simp only [Char.isAlpha, Char.isUpper, Char.isLower, Bool.or_eq_true, Bool.and_eq_true,
    decide_eq_true_eq, UInt32.le_iff_toNat_le, ge_iff_le] at h
  exact h

theorem graphic_of_isDigit {c : Char} (h : c.isDigit = true) : Graphic c := by
  have bounds := isDigit_bounds h
  exact ⟨by omega, by omega⟩

theorem graphic_of_isWordPart {c : Char} (h : isWordPart c = true) : Graphic c := by
  simp only [isWordPart, Char.isAlphanum, Bool.or_eq_true, beq_iff_eq] at h
  obtain ((alpha | digit) | rfl) | rfl := h
  · have bounds := isAlpha_bounds alpha
    exact ⟨by omega, by omega⟩
  · exact graphic_of_isDigit digit
  · decide
  · decide

theorem isWordPart_of_isWordStart {c : Char} (h : isWordStart c = true) : isWordPart c = true := by
  simp only [isWordStart, isWordPart, Char.isAlphanum, Bool.or_eq_true] at h ⊢
  obtain (alpha | underscore) | dollar := h
  · exact .inl (.inl (.inl alpha))
  · exact .inl (.inr underscore)
  · exact .inr dollar

theorem graphic_of_isHex {c : Char} (h : isHex c = true) : Graphic c := by
  simp only [isHex, Bool.or_eq_true, Bool.and_eq_true, decide_eq_true_eq, Char.le_def,
    UInt32.le_iff_toNat_le] at h
  obtain (digit | lower) | upper := h
  · exact graphic_of_isDigit digit
  · change 97 ≤ c.toNat ∧ c.toNat ≤ 102 at lower
    exact ⟨by omega, by omega⟩
  · change 65 ≤ c.toNat ∧ c.toNat ≤ 70 at upper
    exact ⟨by omega, by omega⟩

theorem graphic_of_isBinary {c : Char} (h : isBinary c = true) : Graphic c := by
  simp only [isBinary, Bool.or_eq_true, beq_iff_eq] at h
  obtain rfl | rfl := h <;> decide

theorem graphic_spelling (p : Punct) : ∀ c ∈ p.spelling.toList, Graphic c := by
  cases p <;> simp [Punct.spelling, Graphic]

/-- The source ends here, or a blank is next. -/
def Bounded (rest : List Char) : Prop := ∀ c ∈ rest.head?, isBlank c = true

theorem takeWhile_stops {p : Char → Bool} {cs rest : List Char} (all : ∀ c ∈ cs, p c = true)
    (stops : ∀ c ∈ rest.head?, p c = false) : (cs ++ rest).takeWhile p = cs := by
  have stop : rest.takeWhile p = [] := by
    cases rest with
    | nil => rfl
    | cons c rest => rw [List.takeWhile_cons_of_neg (by rw [stops c rfl]; exact nofun)]
  rw [List.takeWhile_append_of_pos all, stop, List.append_nil]

/-- The other way round: what a run takes, and what stops it. -/
theorem exists_run (p : Char → Bool) (cs : List Char) :
    ∃ run rest, cs = run ++ rest ∧ cs.takeWhile p = run ∧ (∀ c ∈ run, p c = true) ∧
      ∀ c ∈ rest.head?, p c = false := by
  refine ⟨_, cs.dropWhile p, List.takeWhile_append_dropWhile.symm, rfl,
    List.all_eq_true.mp List.all_takeWhile, ?_⟩
  intro c first
  have stop := List.head?_dropWhile_not p cs
  rw [Option.mem_def.mp first] at stop
  exact stop

theorem takeWhile_bounded {p : Char → Bool} (graphic : ∀ c, p c = true → Graphic c)
    {cs rest : List Char} (all : ∀ c ∈ cs, p c = true) (bounded : Bounded rest) :
    (cs ++ rest).takeWhile p = cs := by
  apply takeWhile_stops all
  intro c first
  rw [Bool.eq_false_iff]
  intro taken
  have blank := bounded c first
  rw [(graphic c taken).not_blank] at blank
  cases blank

/-- A lexeme is in front if it is there and none is that is tried before it. -/
theorem first?_eq (front back : List Lexeme) {lexeme : Lexeme}
    (order : all = front ++ lexeme :: back)
    {cs : List Char} {n : Nat} (before : ∀ other ∈ front, other.width? cs = none)
    (width : lexeme.width? cs = some n) : first? cs = some (lexeme, n) := by
  have skipped : front.findSome? (fun other => (other.width? cs).map (other, ·)) = none := by
    rw [List.findSome?_eq_none_iff]
    intro other member
    rw [before other member, Option.map_none]
  rw [first?, order, List.findSome?_append, skipped, Option.none_or, List.findSome?_cons, width]
  rfl

/-- A letter, underscore or dollar sign, and then also digits. -/
def isWord : List Char → Bool
  | c :: cs => isWordStart c && cs.all isWordPart
  | [] => false

theorem first?_word {cs rest : List Char} (word : isWord cs = true) (bounded : Bounded rest) :
    first? (cs ++ rest) = some (.word, cs.length) := by
  cases cs with
  | nil => cases word
  | cons c cs =>
    rw [isWord, Bool.and_eq_true, List.all_eq_true] at word
    obtain ⟨start, parts⟩ := word
    have width : width? .word (c :: cs ++ rest) = some (c :: cs).length := by
      rw [List.cons_append, width?, if_pos start,
        takeWhile_bounded (fun _ => graphic_of_isWordPart) parts bounded, List.length_cons,
        Nat.add_comm]
    exact first?_eq [] _ rfl (List.forall_mem_nil _) width

/-- Digits and underscores, with a digit first and last. -/
def isDigits (isDigit : Char → Bool) (cs : List Char) : Bool :=
  cs.head?.any isDigit && cs.getLast?.any isDigit && cs.all fun c => isDigit c || c == '_'

/-- Digits behind a zero and a letter for their base. -/
def isBased (isMark isDigit : Char → Bool) : List Char → Bool
  | '0' :: mark :: digits => isMark mark && isDigits isDigit digits
  | _ => false

/-- The text of a number: hexadecimal, binary or in decimal digits. -/
def isLiteral (cs : List Char) : Bool :=
  isBased (fun c => c == 'x' || c == 'X') isHex cs ||
    (isBased (fun c => c == 'b' || c == 'B') isBinary cs || isDigits Char.isDigit cs)

theorem digitRun_bounded {isDigit : Char → Bool} (graphic : ∀ c, isDigit c = true → Graphic c)
    (proper : isDigit '_' = false) {cs rest : List Char} (digits : isDigits isDigit cs = true)
    (bounded : Bounded rest) : digitRun isDigit (cs ++ rest) = cs.length := by
  simp only [isDigits, Bool.and_eq_true, List.all_eq_true] at digits
  obtain ⟨⟨_, last⟩, all⟩ := digits
  obtain ⟨c, final, digit⟩ := (Option.any_eq_true ..).mp last
  obtain ⟨front, rfl⟩ := List.getLast?_eq_some_iff.mp final
  have graphicToo (c : Char) (h : (isDigit c || c == '_') = true) : Graphic c := by
    obtain digit | mark := (Bool.or_eq_true ..).mp h
    · exact graphic c digit
    · rw [beq_iff_eq.mp mark]
      decide
  have other : ¬ (c == '_') = true := by
    intro mark
    rw [beq_iff_eq.mp mark, proper] at digit
    cases digit
  rw [digitRun, takeWhile_bounded graphicToo all bounded, List.reverse_concat, List.dropWhile_cons,
    if_neg other, ← List.reverse_concat, List.length_reverse]

theorem isBased_iff (isMark isDigit : Char → Bool) (cs : List Char) :
    isBased isMark isDigit cs = true ↔
      ∃ mark digits, cs = '0' :: mark :: digits ∧ isMark mark = true ∧
        isDigits isDigit digits = true := by
  constructor
  · intro h
    unfold isBased at h
    split at h
    · rename_i mark digits
      exact ⟨mark, digits, rfl, (Bool.and_eq_true ..).mp h⟩
    · cases h
  · rintro ⟨mark, digits, rfl, own⟩
    exact (Bool.and_eq_true ..).mpr own

theorem basedWidth?_bounded {isMark isDigit : Char → Bool}
    (graphic : ∀ c, isDigit c = true → Graphic c) (proper : isDigit '_' = false) {mark : Char}
    (marked : isMark mark = true) {digits rest : List Char}
    (run : isDigits isDigit digits = true) (bounded : Bounded rest) :
    basedWidth? isMark isDigit ('0' :: mark :: digits ++ rest) =
      some ('0' :: mark :: digits).length := by
  have width := digitRun_bounded graphic proper run bounded
  cases digits with
  | nil => cases run
  | cons c digits =>
    have digit : isDigit c = true := by
      simp only [isDigits, Bool.and_eq_true] at run
      exact run.1.1
    rw [List.cons_append] at width
    simp only [List.cons_append, basedWidth?, marked, digit, Bool.and_self, if_true, width,
      List.length_cons]
    congr 1
    omega

theorem basedWidth?_eq_none {isMark isDigit : Char → Bool} {cs : List Char}
    (other : ∀ mark ∈ cs[1]?, isMark mark = false) : basedWidth? isMark isDigit cs = none := by
  unfold basedWidth?
  split
  · rename_i mark c cs
    rw [if_neg]
    rw [other mark rfl, Bool.false_and]
    exact nofun
  · rfl

/-- The second character of a decimal number is another digit, an underscore, or not its own. -/
theorem second_of_digits {cs rest : List Char} (digits : isDigits Char.isDigit cs = true)
    (bounded : Bounded rest) {mark : Char} (second : mark ∈ (cs ++ rest)[1]?) :
    mark.isDigit = true ∨ mark = '_' ∨ isBlank mark = true := by
  simp only [isDigits, Bool.and_eq_true, List.all_eq_true, Bool.or_eq_true, beq_iff_eq] at digits
  obtain ⟨⟨first, _⟩, all⟩ := digits
  match cs, first with
  | [c], _ =>
    refine .inr (.inr (bounded mark ?_))
    simpa [List.head?_eq_getElem?] using second
  | c :: d :: cs, _ =>
    cases second
    obtain digit | underscore := all mark (by simp)
    · exact .inl digit
    · exact .inr (.inl underscore)

theorem width?_number {cs rest : List Char} (literal : isLiteral cs = true)
    (bounded : Bounded rest) : width? .number (cs ++ rest) = some cs.length := by
  rw [isLiteral, Bool.or_eq_true, Bool.or_eq_true, isBased_iff, isBased_iff] at literal
  rw [width?]
  obtain ⟨mark, digits, rfl, marked, run⟩ | ⟨mark, digits, rfl, marked, run⟩ | decimal := literal
  · rw [basedWidth?_bounded (fun _ => graphic_of_isHex) (by decide) marked run bounded]
    rfl
  · have plain : ∀ other ∈ ('0' :: mark :: digits ++ rest)[1]?,
        (other == 'x' || other == 'X') = false := by
      rintro _ ⟨⟩
      simp only [Bool.or_eq_true, beq_iff_eq] at marked
      obtain rfl | rfl := marked <;> rfl
    rw [basedWidth?_eq_none plain, Option.none_or,
      basedWidth?_bounded (fun _ => graphic_of_isBinary) (by decide) marked run bounded]
    rfl
  · have unmarked (isMark : Char → Bool) (letter : ∀ c, isMark c = true →
        c.isDigit = false ∧ c ≠ '_' ∧ isBlank c = false) :
        ∀ mark ∈ (cs ++ rest)[1]?, isMark mark = false := by
      intro mark second
      cases marked : isMark mark with
      | false => rfl
      | true =>
        obtain ⟨noDigit, noUnderscore, noBlank⟩ := letter mark marked
        obtain digit | underscore | blank := second_of_digits decimal bounded second
        · rw [noDigit] at digit; cases digit
        · exact absurd underscore noUnderscore
        · rw [noBlank] at blank; cases blank
    have hex := unmarked (fun c => c == 'x' || c == 'X') fun c marked => by
      simp only [Bool.or_eq_true, beq_iff_eq] at marked
      obtain rfl | rfl := marked <;> decide
    have binary := unmarked (fun c => c == 'b' || c == 'B') fun c marked => by
      simp only [Bool.or_eq_true, beq_iff_eq] at marked
      obtain rfl | rfl := marked <;> decide
    rw [basedWidth?_eq_none hex, basedWidth?_eq_none binary, Option.none_or, Option.none_or]
    have width := digitRun_bounded (fun _ => graphic_of_isDigit) (by decide) decimal bounded
    cases cs with
    | nil => cases decimal
    | cons c cs =>
      have digit : c.isDigit = true := by
        simp only [isDigits, Bool.and_eq_true] at decimal
        exact decimal.1.1
      rw [List.cons_append] at width ⊢
      rw [decimalWidth?, if_pos digit, width]

theorem isWordStart_of_isDigit {c : Char} (h : c.isDigit = true) : isWordStart c = false := by
  have digit := isDigit_bounds h
  rw [Bool.eq_false_iff]
  intro start
  simp only [isWordStart, Bool.or_eq_true, beq_iff_eq] at start
  obtain (alpha | rfl) | rfl := start
  · have letter := isAlpha_bounds alpha
    omega
  · cases h
  · cases h

/-- A number begins with a digit. -/
theorem isLiteral_head {cs : List Char} (literal : isLiteral cs = true) :
    ∃ c more, cs = c :: more ∧ c.isDigit = true := by
  rw [isLiteral, Bool.or_eq_true, Bool.or_eq_true, isBased_iff, isBased_iff] at literal
  obtain ⟨mark, digits, rfl, _⟩ | ⟨mark, digits, rfl, _⟩ | decimal := literal
  · exact ⟨_, _, rfl, rfl⟩
  · exact ⟨_, _, rfl, rfl⟩
  · cases cs with
    | nil => cases decimal
    | cons c cs =>
      simp only [isDigits, Bool.and_eq_true] at decimal
      exact ⟨c, cs, rfl, decimal.1.1⟩

theorem first?_number {cs rest : List Char} (literal : isLiteral cs = true)
    (bounded : Bounded rest) : first? (cs ++ rest) = some (.number, cs.length) := by
  refine first?_eq [word] _ rfl ?_ (width?_number literal bounded)
  obtain ⟨c, more, rfl, digit⟩ := isLiteral_head literal
  rw [List.forall_mem_singleton, List.cons_append, width?, isWordStart_of_isDigit digit]
  rfl

theorem width?_number_none {c : Char} (other : c.isDigit = false) (cs : List Char) :
    width? .number (c :: cs) = none := by
  have unbased (isMark isDigit : Char → Bool) : basedWidth? isMark isDigit (c :: cs) = none := by
    unfold basedWidth?
    split
    · rename_i zero
      cases zero
      cases other
    · rfl
  rw [width?, unbased, unbased, decimalWidth?, other]
  rfl

theorem first?_blank {blanks rest : List Char} (present : blanks ≠ [])
    (blank : ∀ c ∈ blanks, isBlank c = true) (stops : ∀ c ∈ rest.head?, isBlank c = false) :
    first? (blanks ++ rest) = some (.blank, blanks.length) := by
  have run : (blanks ++ rest).takeWhile isBlank = blanks := takeWhile_stops blank stops
  cases blanks with
  | nil => exact absurd rfl present
  | cons c blanks =>
    have own := blank c (List.mem_cons_self ..)
    have hidden : ¬ Graphic c := by
      intro graphic
      rw [graphic.not_blank] at own
      cases own
    rw [List.cons_append] at run ⊢
    refine first?_eq [word, number] _ rfl ?_ ?_
    · refine List.forall_mem_cons.mpr ⟨?_, List.forall_mem_singleton.mpr ?_⟩
      · rw [width?, if_neg]
        exact fun start => hidden (graphic_of_isWordPart (isWordPart_of_isWordStart start))
      · refine width?_number_none (Bool.eq_false_iff.mpr ?_) _
        exact fun digit => hidden (graphic_of_isDigit digit)
    · rw [List.takeWhile_cons_of_pos own] at run
      rw [width?, if_pos own, List.cons_inj_right _ |>.mp run, List.length_cons, Nat.add_comm]

/-- A spelling in front of a blank or the end is no longer than itself. -/
theorem isPrefixOf_bounded {q p rest : List Char} (graphic : ∀ c ∈ q, Graphic c)
    (bounded : Bounded rest) (h : q.isPrefixOf (p ++ rest) = true) : q.isPrefixOf p = true := by
  induction q generalizing p with
  | nil => rfl
  | cons c q ih =>
    obtain ⟨own, others⟩ := List.forall_mem_cons.mp graphic
    cases p with
    | nil =>
      cases rest with
      | nil => cases h
      | cons d rest =>
        rw [List.nil_append, List.isPrefixOf, Bool.and_eq_true, beq_iff_eq] at h
        have blank := bounded d rfl
        rw [← h.1, own.not_blank] at blank
        cases blank
    | cons d p =>
      rw [List.cons_append, List.isPrefixOf, Bool.and_eq_true] at h
      rw [List.isPrefixOf, Bool.and_eq_true]
      exact ⟨h.1, ih others h.2⟩

/-- What is tried before punctuation needs another first character, or another second one. -/
theorem width?_early_none {c : Char} {cs : List Char} (word : isWordStart c = false)
    (digit : c.isDigit = false) (blank : isBlank c = false) (quote : c ≠ '"')
    (slash : c = '/' → Bounded cs) :
    ∀ lexeme ∈ [Lexeme.word, number, .blank, quoted, lineComment, blockComment],
      lexeme.width? (c :: cs) = none := by
  have comments : lineComment.width? (c :: cs) = none ∧ blockComment.width? (c :: cs) = none := by
    by_cases here : c = '/'
    · subst here
      cases cs with
      | nil => exact ⟨rfl, rfl⟩
      | cons d cs =>
        have second := slash rfl d rfl
        have noSlash : d ≠ '/' := by rintro rfl; exact absurd second (by decide)
        have noStar : d ≠ '*' := by rintro rfl; exact absurd second (by decide)
        simp [width?, noSlash, noStar]
    · simp [width?, here]
  simp only [List.forall_mem_cons]
  refine ⟨?_, width?_number_none digit cs, ?_, by simp [width?, quote], comments.1, comments.2,
    List.forall_mem_nil _⟩
  · rw [width?, word]; rfl
  · rw [width?, blank]; rfl

theorem punct_front (p : Punct) : ∀ c ∈ p.spelling.toList.head?, isWordStart c = false ∧
    c.isDigit = false ∧ isBlank c = false ∧ c ≠ '"' ∧ (c = '/' → p.spelling.toList.tail = []) := by
  intro c first
  cases p <;> cases first <;> decide

/-- No spelling is tried before another that is the beginning of it. -/
theorem punct_order (p : Punct) :
    Punct.all = Punct.all.takeWhile (fun q => decide (q ≠ p)) ++
      p :: (Punct.all.dropWhile fun q => decide (q ≠ p)).tail ∧
    ∀ q ∈ Punct.all.takeWhile (fun q => decide (q ≠ p)),
      q.spelling.toList.isPrefixOf p.spelling.toList = false := by
  cases p <;> decide

theorem first?_punct (p : Punct) {rest : List Char} (bounded : Bounded rest) :
    first? (p.spelling.toList ++ rest) = some (.punct p, p.spelling.toList.length) := by
  obtain ⟨order, shorter⟩ := punct_order p
  have whole : all = ([word, number, blank, quoted, lineComment, blockComment] ++
      (Punct.all.takeWhile fun q => decide (q ≠ p)).map punct) ++
      punct p :: (Punct.all.dropWhile fun q => decide (q ≠ p)).tail.map punct := by
    rw [List.append_assoc, ← List.map_cons, ← List.map_append, ← order]
    rfl
  refine first?_eq _ _ whole ?_ ?_
  · rw [List.forall_mem_append]
    constructor
    · obtain ⟨c, cs, spelled⟩ := List.exists_cons_of_length_pos (punct_spelling_pos p)
      have front := punct_front p
      rw [spelled] at front
      obtain ⟨noWord, noDigit, noBlank, noQuote, single⟩ := front c rfl
      rw [spelled, List.cons_append]
      refine width?_early_none noWord noDigit noBlank noQuote fun slash => ?_
      rw [show cs = [] from single slash]
      exact bounded
    · rw [List.forall_mem_map]
      intro q member
      rw [width?_punct, if_neg]
      intro found
      have inside := isPrefixOf_bounded (graphic_spelling q) bounded found
      rw [shorter q member] at inside
      cases inside
  · rw [width?_punct, if_pos]
    rw [List.isPrefixOf_iff_prefix]
    exact List.prefix_append _ _

end Lexeme

namespace Mark

def text : Mark → String
  | name text | number text => text
  | punct p => p.spelling
  | modifier m => m.spelling
  | primitive p => p.spelling
  | word w => w.spelling
  | quoted => "\"\""
  | ending => ""

/-- Names that a program can use, and numbers that it can write. -/
def Spelled : Mark → Prop
  | name text => Lexeme.isWord text.toList = true ∧ Kind.reserved? text = none
  | number text => Lexeme.isLiteral text.toList = true
  | quoted | ending => False
  | _ => True

/-- A token with the kind and the text of a mark has it as its mark. -/
theorem mark_token (m : Mark) (span : Span) : Token.mark ⟨m.kind, m.text, span⟩ = m := by
  cases m <;> rfl

theorem isWord_modifier (m : Modifier) : Lexeme.isWord m.spelling.toList = true ∧
    Kind.reserved? m.spelling = some (.modifier m) := by
  cases m <;> decide

theorem isWord_primitive (p : Primitive) : Lexeme.isWord p.spelling.toList = true ∧
    Kind.reserved? p.spelling = some (.primitive p) := by
  cases p <;> decide

theorem isWord_keyword (w : Keyword) : Lexeme.isWord w.spelling.toList = true ∧
    Kind.reserved? w.spelling = some (.keyword w) := by
  cases w <;> decide

/-- Marks as they are printed, with a space between them. -/
def spaced (ms : List Mark) : List Char := [' '].intercalate (ms.map fun m => m.text.toList)

theorem spaced_cons_cons (m n : Mark) (ms : List Mark) :
    spaced (m :: n :: ms) = m.text.toList ++ ' ' :: spaced (n :: ms) := by
  simp [spaced, List.intercalate_cons_cons]

end Mark
end Javelet
