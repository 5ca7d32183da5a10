import Javelet.Proofs.Barrier
import Javelet.Proofs.Vocabulary

/-! Literals stand for the numbers that they spell. The value of a literal is given here as a sum of
digits times powers of the base, and the reader agrees with it on everything that the scanner takes
for a number. Where such a literal has no value, the parser stops at it. -/
namespace Javelet
open Lexeme (isDigits isBased isLiteral isHex isBinary isBased_iff)

namespace Number

/-- Underscores count for nothing. -/
def bare (text : String) : List Char := text.toList.filter (· ≠ '_')

/-- What a digit counts: its place in the row of all digits, small and capital letters alike. -/
def place (c : Char) : Nat := "0123456789abcdef".toList.idxOf c.toLower

/-- The number that digits stand for in a base, the last of them the units. -/
def reading (base : Nat) (digits : List Char) : Nat :=
  Nat.ofDigits base (digits.map place).reverse

/-- The signed number that is written in two's complement with the 32 bits of a natural one. -/
def signed? (n : Nat) : Option Int :=
  if n < 2 ^ 31 then some n else if n < 2 ^ 32 then some (n - 2 ^ 32) else none

/-- The number that a literal without underscores stands for. A letter behind a zero tells the base,
another digit behind it makes the base eight. -/
def meaning? : List Char → Option Int
  | '0' :: c :: digits =>
    if c = 'x' ∨ c = 'X' then signed? (reading 16 digits)
    else if c = 'b' ∨ c = 'B' then signed? (reading 2 digits)
    else if ∀ d ∈ c :: digits, place d < 8 then signed? (reading 8 ('0' :: c :: digits))
    else none
  | digits => if reading 10 digits ≤ 2 ^ 31 - 1 then some (reading 10 digits) else none

/-- A text that the scanner finds to be a number somewhere. -/
def Literal (text : String) : Prop :=
  ∃ source file tokens, Token.scan source file = .ok tokens ∧
    ∃ t ∈ tokens, t.kind = .number ∧ t.value = text

theorem Literal.isLiteral {text : String} (literal : Literal text) :
    isLiteral text.toList = true := by
  obtain ⟨source, file, tokens, scanned, t, member, sort, rfl⟩ := literal
  have spelled := Token.mark_spelled_of_scan scanned t member (by simp [sort]) (by simp [sort])
  have shown : t.mark = .number t.value := by rw [Token.mark, sort]
  rwa [shown] at spelled

theorem exists_of_isHex {c : Char} (h : isHex c = true) :
    ∃ n, c = Char.ofNat n ∧ (48 ≤ n ∧ n ≤ 57 ∨ 97 ≤ n ∧ n ≤ 102 ∨ 65 ≤ n ∧ n ≤ 70) := by
  simp only [isHex, Bool.or_eq_true, Bool.and_eq_true, decide_eq_true_eq, Char.le_def,
    UInt32.le_iff_toNat_le] at h
  refine ⟨c.toNat, c.ofNat_toNat.symm, ?_⟩
  obtain (digit | small) | capital := h
  · exact .inl (Lexeme.isDigit_bounds digit)
  · exact .inr (.inl small)
  · exact .inr (.inr capital)

theorem isHex_of_isDigit {c : Char} (h : c.isDigit = true) : isHex c = true := by
  simp [isHex, h]

theorem isHex_of_isBinary {c : Char} (h : isBinary c = true) : isHex c = true := by
  simp only [isBinary, Bool.or_eq_true, beq_iff_eq] at h
  obtain rfl | rfl := h <;> rfl

/-- A digit that the base has is read as its place. -/
theorem digit?_of_isHex (base : Nat) {c : Char} (h : isHex c = true) :
    digit? base c = if place c < base then some (place c) else none := by
  obtain ⟨n, rfl, ⟨low, high⟩ | ⟨low, high⟩ | ⟨low, high⟩⟩ := exists_of_isHex h <;>
    interval_cases n <;> rfl

theorem place_of_isHex {c : Char} (h : isHex c = true) : place c < 16 := by
  obtain ⟨n, rfl, ⟨low, high⟩ | ⟨low, high⟩ | ⟨low, high⟩⟩ := exists_of_isHex h <;>
    interval_cases n <;> decide

theorem place_of_isDigit {c : Char} (h : c.isDigit = true) : place c < 10 := by
  obtain ⟨low, high⟩ := Lexeme.isDigit_bounds h
  rw [← c.ofNat_toNat]
  interval_cases c.toNat <;> decide

theorem place_of_isBinary {c : Char} (h : isBinary c = true) : place c < 2 := by
  simp only [isBinary, Bool.or_eq_true, beq_iff_eq] at h
  obtain rfl | rfl := h <;> decide

theorem reading_cons (base : Nat) (c : Char) (digits : List Char) :
    reading base (c :: digits) = place c * base ^ digits.length + reading base digits := by
  simp [reading, Nat.ofDigits_append]
  ring

/-- Zeros in front count nothing. -/
theorem reading_zeros (base n : Nat) (digits : List Char) :
    reading base (List.replicate n '0' ++ digits) = reading base digits := by
  have zero : place '0' = 0 := by decide
  induction n with
  | zero => rfl
  | succ n ih =>
    rw [List.replicate_succ, List.cons_append, reading_cons, zero, zero_mul, zero_add, ih]

theorem toInt_word {n : Nat} (small : n < 2 ^ 32) :
    n.toUInt32.toInt32.toInt = if n < 2 ^ 31 then (n : Int) else n - 2 ^ 32 := by
  change (BitVec.ofNat 32 n).toInt = _
  rw [BitVec.toInt_eq_toNat_cond, BitVec.toNat_ofNat, Nat.mod_eq_of_lt small]
  by_cases low : n < 2 ^ 31
  · rw [if_pos low, if_pos (by omega)]
  · rw [if_neg low, if_neg (by omega)]
    rfl

theorem signed?_eq (n : Nat) :
    (if n < Nat.pow 2 32 then some n.toUInt32.toInt32 else none).map Int32.toInt = signed? n := by
  rw [signed?, Nat.pow_eq]
  by_cases small : n < 2 ^ 32
  · rw [if_pos small, if_pos small, Option.map_some, toInt_word small]
    by_cases low : n < 2 ^ 31
    · rw [if_pos low, if_pos low]
    · rw [if_neg low, if_neg low]
  · rw [if_neg small, if_neg small, if_neg (by omega)]
    rfl

section
variable {digits : List Char} (hex : ∀ c ∈ digits, isHex c = true)
include hex

/-- The sum of the digits so far, times the base, takes in one digit after the other. -/
theorem foldlM_of_isHex (base value : Nat) :
    digits.foldlM (fun value c => (digit? base c).map (value * base + ·)) value =
      if ∀ c ∈ digits, place c < base then
        some (value * base ^ digits.length + reading base digits)
      else none := by
  induction digits generalizing value with
  | nil => simp [reading]
  | cons c digits ih =>
    obtain ⟨own, others⟩ := List.forall_mem_cons.mp hex
    rw [List.foldlM_cons, digit?_of_isHex base own]
    by_cases fits : place c < base
    · rw [if_pos fits, Option.map_some]
      change digits.foldlM _ (value * base + place c) = _
      rw [ih others, reading_cons]
      simp only [List.forall_mem_cons, fits, true_and, List.length_cons]
      congr 2
      ring
    · simp [fits]

variable (present : digits ≠ [])
include present

theorem unsigned?_of_isHex (base : Nat) :
    unsigned? base digits =
      if ∀ c ∈ digits, place c < base then some (reading base digits) else none := by
  have unsigned : unsigned? base digits = natural? base digits := by
    unfold unsigned?
    split
    · have plus := hex '+' (List.mem_cons_self ..)
      cases plus
    · rfl
  obtain ⟨c, rest, rfl⟩ := List.exists_cons_of_ne_nil present
  rw [unsigned, natural?, foldlM_of_isHex hex base 0, zero_mul, zero_add]
  simp

theorem word?_of_isHex (base : Nat) :
    (word? base digits).map Int32.toInt =
      if ∀ c ∈ digits, place c < base then signed? (reading base digits) else none := by
  unfold word?
  rw [unsigned?_of_isHex hex present]
  by_cases fits : ∀ c ∈ digits, place c < base
  · rw [if_pos fits, if_pos fits]
    exact signed?_eq _
  · rw [if_neg fits, if_neg fits]
    rfl

end

theorem decimal?_of_isDigit {digits : List Char} (decimal : ∀ c ∈ digits, c.isDigit = true)
    (present : digits ≠ []) :
    (decimal? digits).map Int32.toInt =
      if reading 10 digits ≤ 2 ^ 31 - 1 then some (reading 10 digits : Int) else none := by
  have hex : ∀ c ∈ digits, isHex c = true := fun c member => isHex_of_isDigit (decimal c member)
  have fits : ∀ c ∈ digits, place c < 10 := fun c member => place_of_isDigit (decimal c member)
  unfold decimal?
  split
  · have minus := decimal '-' (List.mem_cons_self ..)
    cases minus
  · rw [unsigned?_of_isHex hex present, if_pos fits]
    dsimp only
    rw [Nat.pow_eq]
    by_cases small : reading 10 digits < 2 ^ 31
    · rw [if_pos small, if_pos (by omega), Option.map_some,
        Int32.toInt_ofInt_of_le (by omega) (by exact_mod_cast small)]
    · rw [if_neg small, if_neg (by omega)]
      rfl

/-- What is left of a row of digits without its underscores. -/
theorem filter_of_isDigits {isDigit : Char → Bool} (proper : isDigit '_' = false)
    {cs : List Char} (run : isDigits isDigit cs = true) :
    cs.filter (· ≠ '_') ≠ [] ∧ ∀ c ∈ cs.filter (· ≠ '_'), isDigit c = true := by
  simp only [isDigits, Bool.and_eq_true, List.all_eq_true, Bool.or_eq_true, beq_iff_eq] at run
  obtain ⟨⟨head, _⟩, all⟩ := run
  constructor
  · obtain ⟨c, first, digit⟩ := (Option.any_eq_true ..).mp head
    have member : c ∈ cs := List.mem_of_mem_head? first
    have other : c ≠ '_' := by
      rintro rfl
      rw [proper] at digit
      cases digit
    exact List.ne_nil_of_mem (List.mem_filter.mpr ⟨member, by simpa using other⟩)
  · intro c kept
    obtain ⟨member, other⟩ := List.mem_filter.mp kept
    exact (all c member).resolve_right (by simpa using other)

/-- A literal without its underscores: digits behind a letter for their base, or digits only. -/
theorem bare_cases {text : String} (literal : isLiteral text.toList = true) :
    (∃ mark digits, bare text = '0' :: mark :: digits ∧ digits ≠ [] ∧
      ((mark = 'x' ∨ mark = 'X') ∧ (∀ c ∈ digits, isHex c = true) ∨
        (mark = 'b' ∨ mark = 'B') ∧ ∀ c ∈ digits, isBinary c = true)) ∨
    bare text ≠ [] ∧ ∀ c ∈ bare text, c.isDigit = true := by
  rw [isLiteral, Bool.or_eq_true, Bool.or_eq_true, isBased_iff, isBased_iff] at literal
  unfold bare
  obtain ⟨mark, digits, whole, marked, run⟩ | ⟨mark, digits, whole, marked, run⟩ | decimal :=
    literal
  · obtain ⟨present, all⟩ := filter_of_isDigits (by decide) run
    simp only [Bool.or_eq_true, beq_iff_eq] at marked
    refine .inl ⟨mark, _, ?_, present, .inl ⟨marked, all⟩⟩
    obtain rfl | rfl := marked <;> simp [whole]
  · obtain ⟨present, all⟩ := filter_of_isDigits (by decide) run
    simp only [Bool.or_eq_true, beq_iff_eq] at marked
    refine .inl ⟨mark, _, ?_, present, .inr ⟨marked, all⟩⟩
    obtain rfl | rfl := marked <;> simp [whole]
  · exact .inr (filter_of_isDigits (by decide) decimal)

theorem value?_of_bare {text other : String} (same : bare other = bare text) :
    value? other = value? text := by
  unfold value?
  rw [show other.toList.filter (· ≠ '_') = text.toList.filter (· ≠ '_') from same]

theorem value?_hexadecimal {text : String} {mark : Char} {digits : List Char}
    (whole : bare text = '0' :: mark :: digits) (marked : mark = 'x' ∨ mark = 'X') :
    value? text = word? 16 digits := by
  unfold bare at whole
  unfold value?
  rw [whole]
  obtain rfl | rfl := marked <;> rfl

theorem value?_binary {text : String} {mark : Char} {digits : List Char}
    (whole : bare text = '0' :: mark :: digits) (marked : mark = 'b' ∨ mark = 'B') :
    value? text = word? 2 digits := by
  unfold bare at whole
  unfold value?
  rw [whole]
  obtain rfl | rfl := marked <;> rfl

/-- A digit is no letter for a base. -/
theorem unmarked_of_isDigit {c : Char} (digit : c.isDigit = true) :
    ¬(c = 'x' ∨ c = 'X') ∧ ¬(c = 'b' ∨ c = 'B') := by
  constructor <;> rintro (rfl | rfl) <;> cases digit

theorem value?_octal {text : String} {c : Char} {digits : List Char}
    (whole : bare text = '0' :: c :: digits) (digit : c.isDigit = true) :
    value? text = word? 8 (c :: digits) := by
  have unmarked := unmarked_of_isDigit digit
  unfold bare at whole
  unfold value?
  rw [whole]
  split <;> simp_all

theorem value?_decimal {text : String} (other : ∀ c digits, bare text ≠ '0' :: c :: digits) :
    value? text = decimal? (bare text) := by
  unfold bare at other ⊢
  unfold value?
  split <;> simp_all

theorem meaning?_decimal {chars : List Char} (other : ∀ c digits, chars ≠ '0' :: c :: digits) :
    meaning? chars =
      if reading 10 chars ≤ 2 ^ 31 - 1 then some (reading 10 chars : Int) else none := by
  unfold meaning?
  split
  · exact absurd rfl (other _ _)
  · rfl

/-- Every literal is read as the number that it stands for. -/
theorem toInt_value? {text : String} (literal : isLiteral text.toList = true) :
    (value? text).map Int32.toInt = meaning? (bare text) := by
  obtain ⟨mark, digits, whole, present, forms⟩ | ⟨present, decimal⟩ := bare_cases literal
  · obtain ⟨marked, hex⟩ | ⟨marked, binary⟩ := forms
    · have fits : ∀ c ∈ digits, place c < 16 := fun c member => place_of_isHex (hex c member)
      rw [value?_hexadecimal whole marked, word?_of_isHex hex present, if_pos fits, whole, meaning?,
        if_pos marked]
    · have hex : ∀ c ∈ digits, isHex c = true := fun c own => isHex_of_isBinary (binary c own)
      have fits : ∀ c ∈ digits, place c < 2 := fun c own => place_of_isBinary (binary c own)
      have other : ¬(mark = 'x' ∨ mark = 'X') := by
        obtain rfl | rfl := marked <;> decide
      rw [value?_binary whole marked, word?_of_isHex hex present, if_pos fits, whole, meaning?,
        if_neg other, if_pos marked]
  · by_cases octal : ∃ c digits, bare text = '0' :: c :: digits
    · obtain ⟨c, digits, whole⟩ := octal
      rw [whole] at decimal
      have digit : ∀ d ∈ c :: digits, d.isDigit = true := (List.forall_mem_cons.mp decimal).2
      have hex : ∀ d ∈ c :: digits, isHex d = true := fun d own => isHex_of_isDigit (digit d own)
      have unmarked := unmarked_of_isDigit (digit c (List.mem_cons_self ..))
      rw [value?_octal whole (digit c (List.mem_cons_self ..)),
        word?_of_isHex hex (List.cons_ne_nil c digits), whole, meaning?, if_neg unmarked.1,
        if_neg unmarked.2]
      rw [show reading 8 ('0' :: c :: digits) = _ from reading_zeros 8 1 (c :: digits)]
    · have other : ∀ c digits, bare text ≠ '0' :: c :: digits :=
        fun c digits whole => octal ⟨c, digits, whole⟩
      rw [value?_decimal other, decimal?_of_isDigit decimal present, meaning?_decimal other]

theorem meaning?_zeros {mark : Char} (marked : mark ∈ ['x', 'X', 'b', 'B']) (n : Nat)
    (digits : List Char) :
    meaning? ('0' :: mark :: (List.replicate n '0' ++ digits)) =
      meaning? ('0' :: mark :: digits) := by
  simp only [List.mem_cons, List.not_mem_nil, or_false] at marked
  obtain rfl | rfl | rfl | rfl := marked <;> simp [meaning?, reading_zeros]

theorem value?_of_meaning? {text other : String} (literal : isLiteral text.toList = true)
    (literal' : isLiteral other.toList = true)
    (same : meaning? (bare other) = meaning? (bare text)) : value? other = value? text := by
  apply Option.map_injective fun _ _ => Int32.toInt_inj.mp
  rw [toInt_value? literal, toInt_value? literal', same]

end Number

/-- A literal that the scanner takes for a number is read as the number that it stands for, with
base sixteen, two, eight or ten by its first characters, as 32 bits in two's complement except in
decimal digits. Underscores and zeros behind the letter of the base do not matter. In a stream whose
tokens so far can be followed by a number, as they can behind the equals sign of a variable, the
parser stops at a literal exactly if it has no value, whatever follows. -/
theorem literals_decode (text : String) (literal : Number.Literal text) :
    (Number.value? text).map Int32.toInt = Number.meaning? (Number.bare text) ∧
    (∀ other, Number.Literal other → Number.bare other = Number.bare text →
      Number.value? other = Number.value? text) ∧
    (∀ other, Number.Literal other → ∀ mark ∈ ['x', 'X', 'b', 'B'], ∀ digits n,
      Number.bare text = '0' :: mark :: digits →
      Number.bare other = '0' :: mark :: (List.replicate n '0' ++ digits) →
      Number.value? other = Number.value? text) ∧
    ∀ (before after : List Token) (number : Token) (tail : List Kind) (file : String),
      number.kind = .number → number.value = text →
      Derives (.symbol .unit) (before.map (·.kind) ++ .number :: tail) →
      (∀ t ∈ before, t.kind = .number → (Number.value? t.value).isSome = true) →
      let parsed := CompilationUnit.ofTokens (before ++ number :: after) file
      ((∃ e, parsed = .error e ∧ e.cause = .badNumber text) ↔ Number.value? text = none) ∧
        (Number.value? text = none → parsed = .error ⟨.badNumber text, number.span.start⟩) := by
  refine ⟨Number.toInt_value? literal.isLiteral, ?_, ?_, ?_⟩
  · intro other _ same
    exact Number.value?_of_bare same
  · intro other literal' mark marked digits n whole zeros
    apply Number.value?_of_meaning? literal.isLiteral literal'.isLiteral
    rw [whole, zeros, Number.meaning?_zeros marked]
  · rintro before after number tail file sort rfl viable valued
    have stops (bad : Number.value? number.value = none) :=
      CompilationUnit.ofTokens_stops sort viable valued bad after file
    refine ⟨⟨?_, fun bad => ⟨_, stops bad, rfl⟩⟩, stops⟩
    rintro ⟨e, failed, cause⟩
    exact CompilationUnit.ofTokens_honest failed _ cause

/-- The least number in two's complement, and a literal too large for decimal digits in place of a
number in a stream, with the same once more behind it. -/
theorem literals_decode_sample :
    let before := Token.sample.take 12
    let number : Token := ⟨.number, "2_147_483_648", ⟨⟨31, ""⟩, ⟨44, ""⟩⟩⟩
    (Number.value? "0x8000_0000").map Int32.toInt = some (-2 ^ 31) ∧
      CompilationUnit.ofTokens (before ++ [number, number]) "" =
        .error ⟨.badNumber "2_147_483_648", ⟨31, ""⟩⟩ := by
  intro before number
  have least : Number.Literal "0x8000_0000" :=
    ⟨"0x8000_0000", "", [⟨.number, "0x8000_0000", ⟨⟨0, ""⟩, ⟨11, ""⟩⟩⟩, .ending ⟨11, ""⟩], by cbv,
      _, List.mem_cons_self, rfl, rfl⟩
  have large : Number.Literal "2_147_483_648" :=
    ⟨"2_147_483_648", "", [⟨.number, "2_147_483_648", ⟨⟨0, ""⟩, ⟨13, ""⟩⟩⟩, .ending ⟨13, ""⟩],
      by cbv, _, List.mem_cons_self, rfl, rfl⟩
  have accepted : ∃ u, CompilationUnit.ofTokens Token.sample "" = .ok u := ⟨_, rfl⟩
  have viable : Derives (.symbol .unit) (before.map (·.kind) ++ .number ::
      ((Token.beforeEnd Token.sample).drop 13).map (·.kind)) :=
    ((Token.covers_marks_iff ..).mp ((CompilationUnit.exists_ofTokens_iff ..).mp accepted)).2
  constructor
  · rw [(literals_decode _ least).1]
    cbv
  · obtain ⟨value, _, _, parsing⟩ := literals_decode _ large
    have none : Number.meaning? (Number.bare "2_147_483_648") = none := by cbv
    have bad := Option.map_eq_none_iff.mp (value.trans none)
    exact (parsing before _ number _ "" rfl rfl viable (by decide)).2 bad

end Javelet
