import Javelet.Proofs.Filling

namespace Javelet

/-- What keeps two tokens apart: a blank, and then any blanks and finished comments. -/
structure Separator where
  blank : Char
  more : List Char
  isBlank : Text.isBlank blank = true
  filler : Filler False more

def Separator.text (separator : Separator) : List Char := separator.blank :: separator.more

def Separator.space : Separator := ⟨' ', [], by decide, .nil⟩

namespace Spelling

/-- Spellings, each with a separator in front. -/
def spread (pairs : List (Separator × Spelling)) : List Char :=
  pairs.flatMap fun (separator, s) => separator.text ++ s.text

/-- Spellings in a row, with the separators between them. -/
def woven : List Spelling → List Separator → List Char
  | [], _ => []
  | first :: others, between => first.text ++ spread (between.zip others)

theorem spread_bounded (pairs : List (Separator × Spelling)) : Lexeme.Bounded (spread pairs) := by
  cases pairs with
  | nil => exact nofun
  | cons pair pairs =>
    rintro _ ⟨⟩
    exact pair.1.isBlank

end Spelling

namespace Token
open Spelling (spread woven)

theorem scanFrom_separator (separator : Separator) (file : String) (byte : Nat)
    (rest : List Char) :
    scanFrom file byte (separator.text ++ rest) =
      scanFrom file (byte + Text.byteLength separator.text) rest :=
  scanFrom_filler (.blank separator.isBlank separator.filler) False.elim file byte

theorem scanFrom_spread (pairs : List (Separator × Spelling)) (file : String) (byte : Nat) :
    ∃ tokens stop, scanFrom file byte (spread pairs) = .ok (tokens ++ [ending stop]) ∧
      tokens.map (fun t => (t.kind, t.value)) =
        (pairs.map Prod.snd).map fun s => (s.kind, s.value) := by
  induction pairs generalizing byte with
  | nil => exact ⟨[], .ofByte byte file, scanFrom_nil file byte, rfl⟩
  | cons pair pairs ih =>
    obtain ⟨separator, s⟩ := pair
    obtain ⟨tokens, stop, scanned, images⟩ :=
      ih (byte + Text.byteLength separator.text + Text.byteLength s.text)
    have split : spread ((separator, s) :: pairs) = separator.text ++ (s.text ++ spread pairs) := by
      simp [spread]
    refine ⟨s.token file (byte + Text.byteLength separator.text) :: tokens, stop, ?_, ?_⟩
    · rw [split, scanFrom_separator, scanFrom_text s file _ (Spelling.spread_bounded pairs),
        scanned]
      rfl
    · rw [List.map_cons, images]
      rfl

theorem scanFrom_woven (lexemes : List Spelling) (between : List Separator)
    (counted : between.length = lexemes.length - 1) (file : String) (byte : Nat) :
    ∃ tokens stop, scanFrom file byte (woven lexemes between) = .ok (tokens ++ [ending stop]) ∧
      tokens.map (fun t => (t.kind, t.value)) = lexemes.map fun s => (s.kind, s.value) := by
  cases lexemes with
  | nil => exact ⟨[], .ofByte byte file, scanFrom_nil file byte, rfl⟩
  | cons s others =>
    have each : (between.zip others).map Prod.snd = others := List.map_snd_zip (by simp [counted])
    obtain ⟨tokens, stop, scanned, images⟩ :=
      scanFrom_spread (between.zip others) file (byte + Text.byteLength s.text)
    rw [each] at images
    refine ⟨s.token file byte :: tokens, stop, ?_, ?_⟩
    · rw [woven, scanFrom_text s file byte (Spelling.spread_bounded _), scanned]
      rfl
    · rw [List.map_cons, images]
      rfl

end Token

/-- Spellings with a separator between each two scan to their tokens in order, and an ending. -/
theorem scanning_undoes_weaving (lexemes : List Spelling) (between : List Separator)
    (file : String) (counted : between.length = lexemes.length - 1) :
    ∃ tokens, Token.scan (String.ofList (Spelling.woven lexemes between)) file = .ok tokens ∧
      tokens.map (fun t => (t.kind, t.value)) =
        lexemes.map (fun s => (s.kind, s.value)) ++ [(.eof, "EOF")] := by
  obtain ⟨tokens, stop, scanned, images⟩ := Token.scanFrom_woven lexemes between counted file 0
  refine ⟨tokens ++ [.ending stop], ?_, ?_⟩
  · rw [Token.scan, String.toList_ofList, scanned]
  · rw [List.map_append, images]
    rfl

/-- A string that looks like a comment, and a comment that looks like a string and a name. -/
theorem scanning_undoes_weaving_sample :
    let string := Spelling.quoted "/*" (by decide)
    let slash := Spelling.punct .slash
    let number := Spelling.number "0xf_0" (by decide)
    let word := Spelling.word "class" (by decide)
    let line : Separator := ⟨'\t', "//\"*/\n".toList, by decide,
      .line ['"', '*', '/'] (by decide) (.blank (by decide) .nil)⟩
    let block : Separator := ⟨'\n', "/*\" /*a/**/".toList, by decide,
      .block "\" /*a/*".toList (by decide) .nil⟩
    let source := String.ofList (Spelling.woven [string, slash, number, word] [line, .space, block])
    source = "\"/*\"\t//\"*/\n/ 0xf_0\n/*\" /*a/**/class" ∧
      ∃ tokens, Token.scan source "a" = .ok tokens ∧ tokens.map (fun t => (t.kind, t.value)) =
        [(.string, "/*"), (.punct .slash, "/"), (.number, "0xf_0"), (.keyword .classWord, "class"),
          (.eof, "EOF")] := by
  intro string slash number word line block source
  have written : source = "\"/*\"\t//\"*/\n/ 0xf_0\n/*\" /*a/**/class" := by decide
  exact ⟨written,
    scanning_undoes_weaving [string, slash, number, word] [line, .space, block] "a" rfl⟩

theorem Spelling.woven_cons_cons (s t : Spelling) (ss : List Spelling) :
    woven (s :: t :: ss) (List.replicate (ss.length + 1) .space) =
      s.text ++ ' ' :: woven (t :: ss) (List.replicate ss.length .space) := by
  simp [woven, spread, List.replicate_succ, Separator.text, Separator.space]

namespace Mark

theorem Spelled.exists_spelling {m : Mark} (spelled : m.Spelled) :
    ∃ s : Spelling, s.text = m.text.toList ∧ (s.kind, s.value) = (m.kind, m.text) := by
  have word {m : Mark} (letters : Lexeme.isWord m.text.toList = true)
      (known : (Kind.reserved? m.text).getD .identifier = m.kind) :
      ∃ s : Spelling, s.text = m.text.toList ∧ (s.kind, s.value) = (m.kind, m.text) :=
    ⟨.word m.text letters, rfl, by rw [Spelling.kind, known]; rfl⟩
  cases m with
  | name text => exact word spelled.1 (by rw [Mark.text, spelled.2]; rfl)
  | number text => exact ⟨.number text spelled, rfl, rfl⟩
  | punct p => exact ⟨.punct p, rfl, rfl⟩
  | modifier m => exact word (isWord_modifier m).1 (by rw [text, (isWord_modifier m).2]; rfl)
  | primitive p => exact word (isWord_primitive p).1 (by rw [text, (isWord_primitive p).2]; rfl)
  | word w => exact word (isWord_keyword w).1 (by rw [text, (isWord_keyword w).2]; rfl)
  | quoted => exact spelled.elim
  | ending => exact spelled.elim

/-- Spaces are one way to weave. -/
theorem exists_woven {ms : List Mark} (spelled : ∀ m ∈ ms, m.Spelled) :
    ∃ ss : List Spelling, spaced ms = Spelling.woven ss (List.replicate (ss.length - 1) .space) ∧
      ss.map (fun s => (s.kind, s.value)) = ms.map fun m => (m.kind, m.text) := by
  induction ms with
  | nil => exact ⟨[], rfl, rfl⟩
  | cons m ms ih =>
    obtain ⟨own, others⟩ := List.forall_mem_cons.mp spelled
    obtain ⟨s, text, image⟩ := own.exists_spelling
    obtain ⟨ss, whole, images⟩ := ih others
    refine ⟨s :: ss, ?_, by rw [List.map_cons, List.map_cons, image, images]⟩
    cases ms with
    | nil =>
      obtain rfl : ss = [] := List.map_eq_nil_iff.mp images
      simp [spaced, Spelling.woven, Spelling.spread, text]
    | cons n ms =>
      cases ss with
      | nil => cases images
      | cons t ss =>
        rw [spaced_cons_cons, whole, ← text]
        exact (Spelling.woven_cons_cons s t ss).symm

end Mark

namespace Token

/-- A mark is made of a kind and a value alone. -/
theorem map_mark {tokens : List Token} {ms : List Mark}
    (same : tokens.map (fun t => (t.kind, t.value)) = ms.map fun m => (m.kind, m.text)) :
    tokens.map mark = ms := by
  induction ms generalizing tokens with
  | nil =>
    rw [List.map_eq_nil_iff.mp same]
    rfl
  | cons m ms ih =>
    cases tokens with
    | nil => cases same
    | cons t tokens =>
      obtain ⟨image, images⟩ := List.cons.inj same
      obtain ⟨kind, value⟩ := Prod.mk.inj image
      have own := Mark.mark_token m t.span
      rw [← kind, ← value] at own
      rw [List.map_cons, own, ih images]

/-- Scanning gives back the marks that were printed, and an ending. -/
theorem scanFrom_spaced (file : String) (byte : Nat) {ms : List Mark}
    (spelled : ∀ m ∈ ms, m.Spelled) :
    ∃ tokens stop, scanFrom file byte (Mark.spaced ms) = .ok (tokens ++ [ending stop]) ∧
      tokens.map mark = ms := by
  obtain ⟨ss, whole, spellings⟩ := Mark.exists_woven spelled
  obtain ⟨tokens, stop, scanned, images⟩ :=
    scanFrom_woven ss (List.replicate (ss.length - 1) .space) List.length_replicate file byte
  rw [whole]
  exact ⟨tokens, stop, scanned, map_mark (images.trans spellings)⟩

end Token
end Javelet
