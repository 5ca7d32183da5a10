import Javelet.Proofs.Filling
import Mathlib.Data.List.DropRight

namespace Javelet.Lexeme

/-- What is cut off is the run of digits and underscores without the underscores at its end. -/
theorem take_digitRun (isDigit : Char → Bool) (cs : List Char) :
    cs.take (digitRun isDigit cs) =
      (cs.takeWhile fun c => isDigit c || c == '_').rdropWhile (· == '_') := by
  have front := (List.rdropWhile_prefix (· == '_') _).trans
    (List.takeWhile_prefix (l := cs) fun c => isDigit c || c == '_')
  rw [List.prefix_iff_eq_take.mp front, List.rdropWhile, List.length_reverse]
  rfl

theorem isDigits_take {isDigit : Char → Bool} (proper : isDigit '_' = false) {c : Char}
    (digit : isDigit c = true) (cs : List Char) :
    isDigits isDigit ((c :: cs).take (digitRun isDigit (c :: cs))) = true := by
  have mark : (c == '_') = false := by
    rw [beq_eq_false_iff_ne]
    rintro rfl
    rw [proper] at digit
    cases digit
  have pos := digitRun_pos cs digit mark
  have trimmed := take_digitRun isDigit (c :: cs)
  generalize whole : (c :: cs).take (digitRun isDigit (c :: cs)) = digits at trimmed
  have first : digits.head? = some c := by
    rw [← whole, List.head?_take, if_neg (by omega), List.head?_cons]
  have ne : digits ≠ [] := by
    rintro rfl
    cases first
  have all : ∀ d ∈ digits, (isDigit d || d == '_') = true := by
    intro d member
    rw [trimmed] at member
    have inRun := (List.rdropWhile_prefix (· == '_') _).subset member
    exact List.all_eq_true.mp List.all_takeWhile d inRun
  have last : isDigit (digits.getLast ne) = true := by
    have either := all _ (List.getLast_mem ne)
    have unmarked : ¬ (digits.getLast ne == '_') = true := by
      subst trimmed
      exact List.rdropWhile_last_not (· == '_') _ ne
    simpa [unmarked] using either
  simp only [isDigits, first, List.getLast?_eq_some_getLast ne, Option.any_some, digit, last,
    Bool.and_self, Bool.true_and, List.all_eq_true]
  exact all

theorem isBased_take {isMark isDigit : Char → Bool} (proper : isDigit '_' = false)
    {cs : List Char} {n : Nat} (found : basedWidth? isMark isDigit cs = some n) :
    isBased isMark isDigit (cs.take n) = true := by
  unfold basedWidth? at found
  split at found
  · rename_i mark c cs
    simp only [Bool.and_eq_true, Option.ite_none_right_eq_some, Option.some.injEq] at found
    obtain ⟨⟨marked, digit⟩, rfl⟩ := found
    rw [isBased_iff, Nat.add_comm]
    exact ⟨mark, _, rfl, marked, isDigits_take proper digit cs⟩
  · cases found

theorem isLiteral_take {cs : List Char} {n : Nat} (found : number.width? cs = some n) :
    isLiteral (cs.take n) = true := by
  rw [isLiteral, Bool.or_eq_true, Bool.or_eq_true]
  rw [width?, Option.or_eq_some_iff, Option.or_eq_some_iff] at found
  obtain hex | ⟨_, binary | ⟨_, decimal⟩⟩ := found
  · exact .inl (isBased_take (by decide) hex)
  · exact .inr (.inl (isBased_take (by decide) binary))
  · cases cs with
    | nil => cases decimal
    | cons c cs =>
      simp only [decimalWidth?, Option.ite_none_right_eq_some, Option.some.injEq] at decimal
      obtain ⟨digit, rfl⟩ := decimal
      exact .inr (.inr (isDigits_take (by decide) digit cs))

theorem exists_of_word {cs : List Char} {n : Nat} (found : word.width? cs = some n) :
    ∃ text rest, cs = text ++ rest ∧ n = text.length ∧ isWord text = true := by
  cases cs with
  | nil => cases found
  | cons c cs =>
    simp only [width?, Option.ite_none_right_eq_some, Option.some.injEq] at found
    obtain ⟨start, rfl⟩ := found
    obtain ⟨run, rest, rfl, taken, parts, _⟩ := exists_run isWordPart cs
    refine ⟨c :: run, rest, rfl, ?_, ?_⟩
    · rw [taken, List.length_cons, Nat.add_comm]
    · rw [isWord, start, Bool.true_and, List.all_eq_true]
      exact parts

theorem exists_of_blank {cs : List Char} {n : Nat} (found : blank.width? cs = some n) :
    ∃ piece rest, cs = piece ++ rest ∧ n = piece.length ∧ ∀ c ∈ piece, Text.isBlank c = true := by
  cases cs with
  | nil => cases found
  | cons c cs =>
    simp only [width?, Option.ite_none_right_eq_some, Option.some.injEq] at found
    obtain ⟨start, rfl⟩ := found
    obtain ⟨run, rest, rfl, taken, blanks, _⟩ := exists_run Text.isBlank cs
    refine ⟨c :: run, rest, rfl, ?_, List.forall_mem_cons.mpr ⟨start, blanks⟩⟩
    rw [taken, List.length_cons, Nat.add_comm]

theorem exists_of_quoted {cs : List Char} {n : Nat} (found : quoted.width? cs = some n) :
    ∃ body rest, cs = '"' :: body ++ '"' :: rest ∧ n = body.length + 2 ∧ '"' ∉ body := by
  obtain ⟨cs, rfl⟩ : ∃ more, cs = '"' :: more := by
    cases cs with
    | nil => cases found
    | cons c cs =>
      by_cases quote : c = '"'
      · exact ⟨cs, by rw [quote]⟩
      · simp [width?, quote] at found
  simp only [width?, Option.ite_none_right_eq_some, Option.some.injEq] at found
  obtain ⟨inside, rfl⟩ := found
  obtain ⟨body, rest, rfl, taken, others, stops⟩ := exists_run (· ≠ '"') cs
  rw [taken] at inside ⊢
  cases rest with
  | nil => simp at inside
  | cons c rest =>
    have quote : c = '"' := by simpa using stops c rfl
    rw [quote]
    refine ⟨body, rest, rfl, rfl, ?_⟩
    intro member
    simpa using others '"' member

/-- A comment begins with a slash and a mark of its own. -/
theorem comment_front {lexeme : Lexeme} {mark : Char}
    (comment : lexeme = lineComment ∧ mark = '/' ∨ lexeme = blockComment ∧ mark = '*')
    {cs : List Char} {n : Nat} (found : lexeme.width? cs = some n) :
    ∃ more, cs = '/' :: mark :: more := by
  rcases cs with _ | ⟨c, _ | ⟨d, cs⟩⟩
  · obtain ⟨rfl, rfl⟩ | ⟨rfl, rfl⟩ := comment <;> cases found
  · obtain ⟨rfl, rfl⟩ | ⟨rfl, rfl⟩ := comment <;> simp [width?] at found
  · by_cases front : c = '/'
    · by_cases second : d = mark
      · exact ⟨cs, by rw [front, second]⟩
      · obtain ⟨rfl, rfl⟩ | ⟨rfl, rfl⟩ := comment <;> simp [width?, second] at found
    · obtain ⟨rfl, rfl⟩ | ⟨rfl, rfl⟩ := comment <;> simp [width?, front] at found

theorem exists_of_line {cs : List Char} {n : Nat} (found : lineComment.width? cs = some n) :
    ∃ body rest, cs = '/' :: '/' :: body ++ rest ∧ n = body.length + 2 ∧ '\n' ∉ body ∧
      ∀ c ∈ rest.head?, c = '\n' := by
  obtain ⟨cs, rfl⟩ := comment_front (.inl ⟨rfl, rfl⟩) found
  cases found
  obtain ⟨body, rest, rfl, taken, others, stops⟩ := exists_run (· ≠ '\n') cs
  rw [taken, Nat.add_comm]
  refine ⟨body, rest, rfl, rfl, ?_, ?_⟩
  · intro member
    simpa using others '\n' member
  · intro c first
    simpa using stops c first

theorem exists_of_block {cs : List Char} {n : Nat} (found : blockComment.width? cs = some n) :
    ∃ body rest, cs = '/' :: '*' :: body ++ '*' :: '/' :: rest ∧ n = body.length + 4 ∧
      ¬ ['*', '/'] <:+: body ++ ['*'] := by
  obtain ⟨cs, rfl⟩ := comment_front (.inr ⟨rfl, rfl⟩) found
  obtain ⟨m, inner, rfl⟩ := Option.map_eq_some_iff.mp found
  obtain ⟨body, rest, rfl, rfl, first⟩ := exists_of_commentEnd? inner
  exact ⟨body, rest, rfl, rfl, first⟩

/-- A piece of a filler that is cut off at once, and what is left behind it. -/
inductive Passed : Lexeme → List Char → List Char → Prop
  | blanks {piece rest : List Char} : (∀ c ∈ piece, Text.isBlank c = true) →
      Passed blank piece rest
  | line {body rest : List Char} : '\n' ∉ body → (∀ c ∈ rest.head?, c = '\n') →
      Passed lineComment ('/' :: '/' :: body) rest
  | block {body rest : List Char} : ¬ ['*', '/'] <:+: body ++ ['*'] →
      Passed blockComment ('/' :: '*' :: body ++ ['*', '/']) rest

theorem Passed.token? {lexeme : Lexeme} {piece rest : List Char}
    (passed : Passed lexeme piece rest) (text : List Char) : lexeme.token? text = none := by
  cases passed <;> rfl

/-- Every lexeme cuts off the text of a token or a piece of a filler, and nothing is lost. -/
theorem cut_of_width? {lexeme : Lexeme} {cs : List Char} {n : Nat}
    (found : lexeme.width? cs = some n) :
    (∃ s : Spelling, ∃ rest, cs = s.text ++ rest ∧ n = s.text.length ∧ lexeme = s.lexeme) ∨
    ∃ piece rest, cs = piece ++ rest ∧ n = piece.length ∧ Passed lexeme piece rest := by
  cases lexeme with
  | word =>
    obtain ⟨text, rest, rfl, rfl, letters⟩ := exists_of_word found
    rw [← String.toList_ofList (l := text)] at letters ⊢
    exact .inl ⟨.word _ letters, rest, rfl, rfl, rfl⟩
  | number =>
    have bounds := width?_bounds found
    have literal := isLiteral_take found
    rw [← String.toList_ofList (l := cs.take n)] at literal
    refine .inl ⟨.number _ literal, cs.drop n, ?_, ?_, rfl⟩
    · simp [Spelling.text]
    · simp [Spelling.text, bounds.2]
  | blank =>
    obtain ⟨piece, rest, rfl, rfl, blanks⟩ := exists_of_blank found
    exact .inr ⟨piece, rest, rfl, rfl, .blanks blanks⟩
  | quoted =>
    obtain ⟨body, rest, rfl, rfl, closed⟩ := exists_of_quoted found
    rw [← String.toList_ofList (l := body)] at closed
    refine .inl ⟨.quoted _ closed, rest, ?_, ?_, rfl⟩
    · simp [Spelling.text]
    · simp [Spelling.text]
  | lineComment =>
    obtain ⟨body, rest, rfl, rfl, single, stops⟩ := exists_of_line found
    exact .inr ⟨'/' :: '/' :: body, rest, rfl, rfl, .line single stops⟩
  | blockComment =>
    obtain ⟨body, rest, rfl, rfl, first⟩ := exists_of_block found
    exact .inr ⟨_, rest, by simp, by simp, .block first⟩
  | punct p =>
    simp only [width?_punct, Option.ite_none_right_eq_some, Option.some.injEq,
      List.isPrefixOf_iff_prefix] at found
    obtain ⟨⟨rest, rfl⟩, rfl⟩ := found
    exact .inl ⟨.punct p, rest, rfl, rfl, rfl⟩

end Javelet.Lexeme
