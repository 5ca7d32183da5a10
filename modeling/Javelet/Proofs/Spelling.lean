import Javelet.Proofs.Spacing

namespace Javelet

namespace Kind

/-- The word that a kind is reserved for. -/
def word? : Kind → Option String
  | keyword w => some w.spelling
  | modifier m => some m.spelling
  | primitive p => some p.spelling
  | _ => none

theorem mem_reserved (word : String) (kind : Kind) :
    (word, kind) ∈ reserved ↔ kind.word? = some word := by
  have keywords (w : Keyword) : w ∈ Keyword.all := by cases w <;> decide
  have modifiers (m : Modifier) : m ∈ Modifier.all := by cases m <;> decide
  have primitives (p : Primitive) : p ∈ Primitive.all := by cases p <;> decide
  cases kind <;> simp [reserved, word?, keywords, modifiers, primitives]

theorem reserved?_eq_some_iff (word : String) (kind : Kind) :
    reserved? word = some kind ↔ kind.word? = some word := by
  constructor
  · intro found
    obtain ⟨front, back, split, _⟩ := List.lookup_eq_some_iff.mp found
    rw [← mem_reserved, split]
    exact List.mem_append_right _ (List.mem_cons_self ..)
  · intro spelled
    cases kind with
    | keyword w => cases spelled; exact (Mark.isWord_keyword w).2
    | modifier m => cases spelled; exact (Mark.isWord_modifier m).2
    | primitive p => cases spelled; exact (Mark.isWord_primitive p).2
    | _ => cases spelled

theorem isWord_word? {word : String} {kind : Kind} (spelled : kind.word? = some word) :
    Lexeme.isWord word.toList = true := by
  cases kind with
  | keyword w => cases spelled; exact (Mark.isWord_keyword w).1
  | modifier m => cases spelled; exact (Mark.isWord_modifier m).1
  | primitive p => cases spelled; exact (Mark.isWord_primitive p).1
  | _ => cases spelled

end Kind

namespace Lexeme

/-- A string goes to the next quote, whatever stands before that. -/
theorem first?_quoted {body : List Char} (closed : '"' ∉ body) (rest : List Char) :
    first? ('"' :: body ++ '"' :: rest) = some (.quoted, body.length + 2) := by
  have run : (body ++ '"' :: rest).takeWhile (· ≠ '"') = body := by
    apply takeWhile_stops
    · intro c member
      exact decide_eq_true fun quote => closed (quote ▸ member)
    · rintro _ ⟨⟩
      rfl
  refine first?_eq [word, number, blank] _ rfl ?_ ?_
  · simp only [List.forall_mem_cons]
    exact ⟨rfl, width?_number_none rfl _, rfl, List.forall_mem_nil _⟩
  · simp only [List.cons_append, width?, run]
    simp

end Lexeme

/-- A text that makes a token wherever it stands by itself. -/
inductive Spelling where
  | word (text : String) (letters : Lexeme.isWord text.toList = true)
  | number (text : String) (literal : Lexeme.isLiteral text.toList = true)
  | quoted (body : String) (closed : '"' ∉ body.toList)
  | punct (p : Punct)

namespace Spelling

def text : Spelling → List Char
  | word text _ | number text _ => text.toList
  | quoted body _ => '"' :: body.toList ++ ['"']
  | punct p => p.spelling.toList

def kind : Spelling → Kind
  | word text _ => (Kind.reserved? text).getD .identifier
  | number _ _ => .number
  | quoted _ _ => .string
  | punct p => .punct p

/-- What stands between the quotes, or the whole text. -/
def value : Spelling → String
  | word text _ | number text _ | quoted text _ => text
  | punct p => p.spelling

def lexeme : Spelling → Lexeme
  | word _ _ => .word
  | number _ _ => .number
  | quoted _ _ => .quoted
  | punct p => .punct p

theorem token?_lexeme (s : Spelling) : s.lexeme.token? s.text = some (s.kind, s.value) := by
  cases s <;> simp [lexeme, Lexeme.token?, text, kind, value]

/-- A spelling with a blank or the end behind it is cut off whole. -/
theorem first?_text (s : Spelling) (rest : List Char) (bounded : Lexeme.Bounded rest) :
    Lexeme.first? (s.text ++ rest) = some (s.lexeme, s.text.length) := by
  cases s with
  | word text letters => exact Lexeme.first?_word letters bounded
  | number text literal => exact Lexeme.first?_number literal bounded
  | quoted body closed =>
    have first := Lexeme.first?_quoted closed rest
    simpa [text, lexeme] using first
  | punct p => exact Lexeme.first?_punct p bounded

/-- A spelling begins with a character that is no blank. -/
theorem text_head (s : Spelling) : ∃ c cs, s.text = c :: cs ∧ Text.isBlank c = false := by
  cases s with
  | word text letters =>
    rw [Spelling.text]
    cases whole : text.toList with
    | nil => rw [whole] at letters; cases letters
    | cons c cs =>
      rw [whole, Lexeme.isWord, Bool.and_eq_true] at letters
      have part := Lexeme.isWordPart_of_isWordStart letters.1
      exact ⟨c, cs, rfl, (Lexeme.graphic_of_isWordPart part).not_blank⟩
  | number text literal =>
    obtain ⟨c, cs, whole, digit⟩ := Lexeme.isLiteral_head literal
    exact ⟨c, cs, whole, (Lexeme.graphic_of_isDigit digit).not_blank⟩
  | quoted body closed => exact ⟨_, _, rfl, by decide⟩
  | punct p =>
    obtain ⟨c, cs, whole⟩ := List.exists_cons_of_length_pos (Lexeme.punct_spelling_pos p)
    refine ⟨c, cs, whole, (Lexeme.graphic_spelling p c ?_).not_blank⟩
    rw [whole]
    exact List.mem_cons_self ..

/-- The text alone decides what token it makes: no two classes share a text. -/
theorem kind_eq_of_text (s s' : Spelling) (same : s.text = s'.text) : s.kind = s'.kind := by
  have own := s.first?_text [] nofun
  have other := s'.first?_text [] nofun
  rw [same, other] at own
  have lexemes : s'.lexeme = s.lexeme := (Prod.mk.inj (Option.some.inj own)).1
  have tokens := s.token?_lexeme
  rw [same, ← lexemes, s'.token?_lexeme] at tokens
  exact (Prod.mk.inj (Option.some.inj tokens)).1.symm

theorem kind_word (text : String) (letters : Lexeme.isWord text.toList = true) :
    Kind.reserved? text = none ∧ (word text letters).kind = .identifier ∨
      (word text letters).kind.word? = some text := by
  cases found : Kind.reserved? text with
  | none => exact .inl ⟨rfl, by rw [kind, found]; rfl⟩
  | some kind =>
    have spelled := (Kind.reserved?_eq_some_iff text kind).mp found
    exact .inr (by rw [Spelling.kind, found]; exact spelled)

/-- A word is never of a kind that is neither that of names nor of a reserved word. -/
theorem kind_word_ne (kind : Kind) (other : kind ≠ .identifier) (unnamed : kind.word? = none)
    (text : String) (letters : Lexeme.isWord text.toList = true) :
    (word text letters).kind ≠ kind := by
  rintro rfl
  obtain ⟨_, free⟩ | spelled := kind_word text letters
  · exact other free
  · rw [unnamed] at spelled
    cases spelled

theorem kind_eq_identifier_iff (s : Spelling) :
    s.kind = .identifier ↔
      Lexeme.isWord s.text = true ∧ Kind.reserved? (String.ofList s.text) = none := by
  constructor
  · intro same
    cases s with
    | word text letters =>
      obtain ⟨free, _⟩ | spelled := kind_word text letters
      · exact ⟨letters, by rw [Spelling.text, String.ofList_toList, free]⟩
      · rw [same] at spelled
        cases spelled
    | _ => cases same
  · rintro ⟨letters, free⟩
    have letters' : Lexeme.isWord (String.ofList s.text).toList = true := by
      rwa [String.toList_ofList]
    have same : s.text = (word (String.ofList s.text) letters').text := String.toList_ofList.symm
    rw [kind_eq_of_text _ _ same, kind, free]
    rfl

theorem kind_eq_reserved_iff (s : Spelling) {entry : String × Kind}
    (member : entry ∈ Kind.reserved) : s.kind = entry.2 ↔ s.text = entry.1.toList := by
  obtain ⟨name, kind⟩ := entry
  have spelled := (Kind.mem_reserved name kind).mp member
  constructor
  · rintro rfl
    cases s with
    | word text letters =>
      obtain ⟨_, free⟩ | reserved := kind_word text letters
      · rw [free] at spelled
        cases spelled
      · rw [reserved] at spelled
        cases spelled
        rfl
    | _ => cases spelled
  · intro same
    rw [kind_eq_of_text s (word name (Kind.isWord_word? spelled)) same, Spelling.kind,
      (Kind.reserved?_eq_some_iff name kind).mpr spelled]
    rfl

theorem kind_eq_number_iff (s : Spelling) : s.kind = .number ↔ Lexeme.isLiteral s.text = true := by
  constructor
  · intro same
    cases s with
    | word text letters => exact absurd same (kind_word_ne .number nofun rfl text letters)
    | number text literal => exact literal
    | _ => cases same
  · intro literal
    have literal' : Lexeme.isLiteral (String.ofList s.text).toList = true := by
      rwa [String.toList_ofList]
    exact kind_eq_of_text s (number (String.ofList s.text) literal') String.toList_ofList.symm

theorem kind_eq_string_iff (s : Spelling) :
    s.kind = .string ↔ ∃ body, '"' ∉ body ∧ s.text = '"' :: body ++ ['"'] := by
  constructor
  · intro same
    cases s with
    | word text letters => exact absurd same (kind_word_ne .string nofun rfl text letters)
    | quoted body closed => exact ⟨body.toList, closed, rfl⟩
    | _ => cases same
  · rintro ⟨body, closed, same⟩
    have closed' : '"' ∉ (String.ofList body).toList := by rwa [String.toList_ofList]
    apply kind_eq_of_text s (quoted (String.ofList body) closed')
    rw [same, text, String.toList_ofList]

theorem kind_eq_punct_iff (s : Spelling) (p : Punct) :
    s.kind = .punct p ↔ s.text = p.spelling.toList := by
  constructor
  · intro same
    cases s with
    | word text letters => exact absurd same (kind_word_ne (.punct p) nofun rfl text letters)
    | punct q => cases same; rfl
    | _ => cases same
  · exact kind_eq_of_text s (punct p)

theorem kind_ne_eof (s : Spelling) : s.kind ≠ .eof := by
  cases s with
  | word text letters => exact kind_word_ne .eof nofun rfl text letters
  | _ => exact nofun

/-- Only a string's text is more than its value. -/
theorem text_eq_value (s : Spelling) :
    s.text = if s.kind = .string then '"' :: s.value.toList ++ ['"'] else s.value.toList := by
  cases s with
  | word text letters => rw [if_neg (kind_word_ne .string nofun rfl text letters)]; rfl
  | _ => rfl

/-- The token that the spelling makes at a byte of a file. -/
def token (s : Spelling) (file : String) (byte : Nat) : Token :=
  ⟨s.kind, s.value, .ofByte byte file, .ofByte (byte + Text.byteLength s.text) file⟩

theorem text_pos (s : Spelling) : 0 < Text.byteLength s.text := by
  obtain ⟨c, cs, whole, _⟩ := s.text_head
  have size := c.utf8Size_pos
  rw [whole, Text.byteLength_cons]
  omega

end Spelling

namespace Token

/-- A token has the value and the kind that its text dictates. -/
structure SpelledBy (t : Token) (text : List Char) : Prop where
  value : text = if t.kind = .string then '"' :: t.value.toList ++ ['"'] else t.value.toList
  identifier : t.kind = .identifier ↔
    Lexeme.isWord text = true ∧ Kind.reserved? (String.ofList text) = none
  reserved : ∀ entry ∈ Kind.reserved, t.kind = entry.2 ↔ text = entry.1.toList
  number : t.kind = .number ↔ Lexeme.isLiteral text = true
  string : t.kind = .string ↔ ∃ body, '"' ∉ body ∧ text = '"' :: body ++ ['"']
  punct : ∀ p, t.kind = .punct p ↔ text = p.spelling.toList

theorem spelledBy_text (s : Spelling) (file : String) (byte : Nat) :
    (s.token file byte).SpelledBy s.text where
  value := s.text_eq_value
  identifier := s.kind_eq_identifier_iff
  reserved _ := s.kind_eq_reserved_iff
  number := s.kind_eq_number_iff
  string := s.kind_eq_string_iff
  punct := s.kind_eq_punct_iff

/-- In front of a blank or the end, a spelling makes its token. -/
theorem scanFrom_text (s : Spelling) (file : String) (byte : Nat) {rest : List Char}
    (bounded : Lexeme.Bounded rest) :
    scanFrom file byte (s.text ++ rest) =
      (scanFrom file (byte + Text.byteLength s.text) rest).map (s.token file byte :: ·) := by
  rw [scanFrom_eq_append file byte (s.first?_text rest bounded), List.take_left, List.drop_left,
    ofLexeme?, s.token?_lexeme]
  rfl

end Token
end Javelet
