import Javelet.Error.Render
import Javelet.Proofs.Independence
import Javelet.Proofs.Partition

/-! Every error points into its source. Readers and checks carry places along and never make one up:
an error that they report is at the start of a token, because it moves along with the starts of the
tokens however these are moved. -/
namespace Javelet
open Run (SameAnswer)

namespace Relocation

/-- Moves a start that is none of the given ones to another place, and nothing else. -/
def expose (starts : List Position) : Relocation :=
  ⟨fun p => if p ∈ starts then p else ⟨p.offset + 1, p.file⟩, fun p => p⟩

theorem mem_of_expose {starts : List Position} {p : Position}
    (fixed : p = (expose starts).start p) : p ∈ starts := by
  by_contra other
  have offsets := congrArg Position.offset fixed
  simp only [expose, if_neg other] at offsets
  have bytes := congrArg UInt32.toNat offsets
  rw [UInt32.toNat_add] at bytes
  have bound := p.offset.toNat_lt
  simp at bytes
  omega

end Relocation

theorem Token.move_expose {starts : List Position} {t : Token} (own : t.span.start ∈ starts) :
    t.move (.expose starts) = t := by
  simp only [move, Span.move, Relocation.expose, if_pos own]

/-- A stream does not change when only places are moved at which none of its tokens starts. -/
theorem Cursor.move_expose {starts : List Position} {c : Cursor}
    (ahead : ∀ t ∈ c.ahead, t.span.start ∈ starts) (ending : c.ending.span.start ∈ starts) :
    c.move (.expose starts) = c := by
  have same : c.ahead.map (Token.move (.expose starts)) = c.ahead := by
    calc c.ahead.map (Token.move (.expose starts)) = c.ahead.map id :=
          List.map_congr_left fun t member => Token.move_expose (ahead t member)
      _ = c.ahead := List.map_id _
  obtain ⟨tokens, last, closed, stop⟩ := c
  simp only [move, Token.move_expose ending, Cursor.mk.injEq]
  exact ⟨same, trivial, rfl⟩

/-- If moving places leaves the stream of a source as it is, the error of its check is moved to
itself: whatever step reports it, it has its place from the stream. -/
theorem check_moves {source file : String} {tokens : List Token} {r : Relocation}
    (scanned : Token.scan source file = .ok tokens)
    (still : (Cursor.ofTokens tokens file).move r = .ofTokens tokens file) :
    SameAnswer (fun e e' => e' = e.move r) (fun _ _ => True) (check source file)
      (check source file) := by
  unfold check CompilationUnit.ofSource
  rw [scanned]
  apply (CompilationUnit.ofTokens_moves still).bind
  rintro u _ rfl
  apply (Signatures.ofUnit_revise u (Declarator.move r)).bind
  rintro signatures _ rfl
  apply (Verdict.ofUnit_revise (Declarator.move_keeps r) signatures u).bind
  intro verdict verdict' _
  exact .ok trivial

/-- In a source that scans, an error is at the start of a token, which may be the ending. -/
theorem check_error_start {source file : String} {spelled : List Token} {last : Token}
    (scanned : Token.scan source file = .ok (spelled ++ [last])) (closed : last.kind = .eof)
    {e : Error} (failed : check source file = .error e) :
    ∃ t ∈ spelled ++ [last], e.position = t.span.start := by
  let starts := (spelled ++ [last]).map (·.span.start)
  have own : ∀ t ∈ spelled ++ [last], t.span.start ∈ starts := fun t member =>
    List.mem_map_of_mem member
  have still : (Cursor.ofTokens (spelled ++ [last]) file).move (.expose starts) =
      .ofTokens (spelled ++ [last]) file := by
    rw [Cursor.ofTokens_concat spelled closed]
    apply Cursor.move_expose
    · intro t member
      exact own t (List.mem_append_left _ member)
    · exact own last (List.mem_append_right _ (List.mem_singleton_self last))
  have answers := check_moves scanned still
  rw [failed] at answers
  cases answers with
  | error moved =>
    have fixed : e.position = (Relocation.expose starts).start e.position :=
      congrArg Error.position moved
    obtain ⟨t, member, same⟩ := List.mem_map.mp (Relocation.mem_of_expose fixed)
    exact ⟨t, member, same.symm⟩

/-- Cutting one lexeme after the other off the front of a text comes to the rest. -/
inductive Lexeme.Reaches : List Char → List Char → Prop
  | here (cs : List Char) : Reaches cs cs
  | cut {cs rest : List Char} {lexeme : Lexeme} {width : Nat} :
      first? cs = some (lexeme, width) → Reaches (cs.drop width) rest → Reaches cs rest

/-- Scanning fails where it comes to a character with which no lexeme begins. -/
theorem Token.scanFrom_error {file : String} {byte : Nat} {cs : List Char} {e : Error}
    (failed : scanFrom file byte cs = .error e) :
    ∃ before c rest, cs = before ++ c :: rest ∧ Lexeme.Reaches cs (c :: rest) ∧
      Lexeme.first? (c :: rest) = none ∧
      e = ⟨.unrecognised (String.ofList [c]), .ofByte (byte + Text.byteLength before) file⟩ := by
  induction size : cs.length using Nat.strong_induction_on generalizing cs byte with
  | _ n ih =>
  cases first : Lexeme.first? cs with
  | none =>
    cases cs with
    | nil =>
      rw [scanFrom_nil] at failed
      cases failed
    | cons c cs =>
      rw [scanFrom_eq_error file byte first] at failed
      cases failed
      exact ⟨[], c, cs, rfl, .here _, first, rfl⟩
  | some found =>
    obtain ⟨lexeme, width⟩ := found
    have bounds := Lexeme.first?_bounds first
    rw [scanFrom_eq_append file byte first] at failed
    cases later : scanFrom file (byte + Text.byteLength (cs.take width)) (cs.drop width) with
    | ok more =>
      rw [later] at failed
      cases failed
    | error e' =>
      have shorter : (cs.drop width).length < n := by
        rw [List.length_drop]
        omega
      rw [later] at failed
      cases failed
      obtain ⟨before, c, rest, split, reached, stuck, rfl⟩ := ih _ shorter later rfl
      refine ⟨cs.take width ++ before, c, rest, ?_, .cut first reached, stuck, ?_⟩
      · rw [List.append_assoc, ← split, List.take_append_drop]
      · rw [Text.byteLength_append, Nat.add_assoc]

theorem Position.offset_ofByte {byte : Nat} (short : byte < 2 ^ 32) (file : String) :
    (ofByte byte file).offset.toNat = byte := Nat.mod_eq_of_lt short

/-- The place behind some of the first characters of a source. -/
def Position.In (p : Position) (source file : String) : Prop :=
  ∃ before after, source.toList = before ++ after ∧ p = .ofByte (Text.byteLength before) file

namespace Position.In

variable {p : Position} {source file : String}

theorem file_eq (h : p.In source file) : p.file = file := by
  obtain ⟨before, after, _, rfl⟩ := h
  rfl

/-- In a source that is not too long, such a place is one between characters. -/
theorem boundary (short : source.utf8ByteSize < 2 ^ 32) (h : p.In source file) :
    p.offset.toNat ≤ source.utf8ByteSize ∧
      String.Pos.Raw.IsValid source ⟨p.offset.toNat⟩ := by
  obtain ⟨before, after, split, rfl⟩ := h
  have size : source.utf8ByteSize = Text.byteLength before + Text.byteLength after := by
    rw [Text.utf8ByteSize_eq, split, Text.byteLength_append]
  have offset : (ofByte (Text.byteLength before) file).offset.toNat = Text.byteLength before :=
    offset_ofByte (by omega) file
  have whole : source = String.ofList (before ++ after) := by
    rw [← split, String.ofList_toList]
  rw [offset]
  constructor
  · omega
  · rw [whole]
    exact Text.isValid_append before after

end Position.In

/-- The tokens of a source start at places of it, the ending at its very end. -/
theorem Token.start_in {source file : String} {tokens : List Token}
    (scanned : scan source file = .ok tokens) :
    ∃ spelled, tokens = spelled ++ [.ending (.ofByte source.utf8ByteSize file)] ∧
      ∀ t ∈ tokens, t.span.start.In source file ∧ (t ∈ spelled → t.kind ≠ .eof) := by
  obtain ⟨l, whole, rfl⟩ := exists_layout scanned
  obtain ⟨spelled, all, each⟩ := l.tokens_spelled file 0
  rw [whole, Nat.zero_add, ← Text.utf8ByteSize_eq] at all
  rw [whole] at each
  refine ⟨spelled, all, ?_⟩
  intro t member
  rw [all, List.mem_append, List.mem_singleton] at member
  have atEnd : (Position.ofByte source.utf8ByteSize file).In source file :=
    ⟨source.toList, [], (List.append_nil _).symm, by rw [Text.utf8ByteSize_eq]⟩
  have spelledOut (t : Token) (own : t ∈ spelled) :
      t.span.start.In source file ∧ t.kind ≠ .eof := by
    obtain ⟨before, s, after, split, rfl⟩ := each t own
    refine ⟨⟨before, s.text ++ after, ?_, ?_⟩, s.kind_ne_eof⟩
    · rw [split, List.append_assoc]
    · rw [Spelling.token, Nat.zero_add]
  obtain own | rfl := member
  · exact ⟨(spelledOut t own).1, fun own => (spelledOut t own).2⟩
  · exact ⟨atEnd, fun own => (spelledOut _ own).2⟩

theorem SourceLine.exists_find? {source : String} {byte : Nat}
    (inside : byte ≤ source.utf8ByteSize) : ∃ line, find? source byte = some line := by
  rw [Text.utf8ByteSize_eq] at inside
  exact ⟨_, if_neg (by omega)⟩

theorem Text.exists_trimmed (cs : List Char) :
    ∃ tail, cs = trimRight cs ++ tail ∧ (∀ c ∈ tail, isBlank c = true) ∧
      ∀ c ∈ (trimRight cs).getLast?, isBlank c = false := by
  have whole := List.takeWhile_append_dropWhile (p := isBlank) (l := cs.reverse)
  refine ⟨(cs.reverse.takeWhile isBlank).reverse, ?_, ?_, ?_⟩
  · rw [trimRight, ← List.reverse_append, whole, List.reverse_reverse]
  · intro c member
    exact List.mem_takeWhile_imp (List.mem_reverse.mp member)
  · intro c last
    rw [trimRight, List.getLast?_reverse, Option.mem_def] at last
    have stops := List.head?_dropWhile_not isBlank cs.reverse
    rw [last] at stops
    simpa using stops

/-- How a line and a place in it are drawn: below a gutter the number of the line and its text,
without the indentation and without the blanks at its end, and below that, behind the gutter, a
caret behind as many dashes as there are bytes from the indentation to the place. -/
def SourceLine.DrawnAs (line : SourceLine) (drawn : String) : Prop :=
  ∃ indent shown tail, line.text = indent ++ shown ++ tail ∧
    (∀ c ∈ indent, c = ' ' ∨ c = '\t') ∧ (∀ c ∈ (shown ++ tail).head?, c ≠ ' ' ∧ c ≠ '\t') ∧
    (∀ c ∈ tail, Text.isBlank c = true) ∧ (∀ c ∈ shown.getLast?, Text.isBlank c = false) ∧
    let number := toString line.number
    let gutter := "".pushn ' ' (number.length + 1) ++ "|"
    drawn = gutter ++ "\n" ++ number ++ " | " ++ String.ofList shown ++ "\n" ++
      gutter ++ " " ++ "".pushn '-' (line.byte - indent.length) ++ "^\n"

theorem SourceLine.drawnAs_excerpt (line : SourceLine) : line.DrawnAs line.excerpt := by
  obtain ⟨indent, rest, text, taken, indented, stops⟩ :=
    Lexeme.exists_run (fun c => c == ' ' || c == '\t') line.text
  obtain ⟨tail, trimmed, blanks, visible⟩ := Text.exists_trimmed rest
  refine ⟨indent, Text.trimRight rest, tail, ?_, ?_, ?_, blanks, visible, ?_⟩
  · rw [List.append_assoc, ← trimmed, text]
  · intro c member
    simpa using indented c member
  · intro c first
    rw [← trimmed] at first
    simpa using stops c first
  · unfold excerpt
    dsimp only
    rw [taken, text, List.drop_left]

/-- With the line at hand, what an error shows ends in it and in the pointer below it. -/
theorem Error.render_shows {e : Error} {source : String} {line : SourceLine}
    (found : SourceLine.find? source e.position.offset.toNat = some line) :
    e.render source = "Error: " ++ e.cause.name ++
      (e.cause.tip?.elim "" fun tip => " (" ++ tip ++ ")") ++ "\n" ++ e.cause.message ++ "\n" ++
      "-> " ++ e.position.file ++ "\n" ++ line.excerpt := by
  unfold render
  rw [found]
  cases e.cause.tip? <;> rfl

/-- The source scans, and the error is at the start of one of its tokens or at its end. -/
def Error.MeetsToken (e : Error) (source file : String) : Prop :=
  ∃ tokens, Token.scan source file = .ok tokens ∧
    ((∃ t ∈ tokens, t.kind ≠ .eof ∧ e.position = t.span.start) ∨
      e.position.offset.toNat = source.utf8ByteSize)

/-- Scanning ends in the error: with all the lexemes before it cut off, a character is left with
which no lexeme begins, and the error names it and is there. -/
def Error.StopsScanning (e : Error) (source file : String) : Prop :=
  Token.scan source file = .error e ∧ ∃ before c rest, source.toList = before ++ c :: rest ∧
    Lexeme.Reaches source.toList (c :: rest) ∧ Lexeme.first? (c :: rest) = none ∧
    e.cause = .unrecognised (String.ofList [c]) ∧
    e.position.offset.toNat = Text.byteLength before

/-- Where an error is: at a place between characters of the file that was checked, which is where a
token starts, where the source ends or where scanning stops; and the line there is shown. -/
structure Error.PointsInto (e : Error) (source file : String) : Prop where
  file_eq : e.position.file = file
  inside : e.position.offset.toNat ≤ source.utf8ByteSize
  boundary : String.Pos.Raw.IsValid source ⟨e.position.offset.toNat⟩
  target : e.MeetsToken source file ∨ e.StopsScanning source file
  shown : ∃ line drawn, SourceLine.find? source e.position.offset.toNat = some line ∧
    line.DrawnAs drawn ∧ e.render source = "Error: " ++ e.cause.name ++
      (e.cause.tip?.elim "" fun tip => " (" ++ tip ++ ")") ++ "\n" ++ e.cause.message ++ "\n" ++
      "-> " ++ e.position.file ++ "\n" ++ drawn

theorem Error.PointsInto.of_in {e : Error} {source file : String}
    (short : source.utf8ByteSize < 2 ^ 32) (place : e.position.In source file)
    (target : e.MeetsToken source file ∨ e.StopsScanning source file) :
    e.PointsInto source file := by
  obtain ⟨inside, boundary⟩ := place.boundary short
  obtain ⟨line, found⟩ := SourceLine.exists_find? inside
  have shown := e.render_shows found
  exact ⟨place.file_eq, inside, boundary, target, line, _, found, line.drawnAs_excerpt, shown⟩

/-- Every error of a check points into the source. -/
theorem errors_point_into_source (source file : String) {e : Error}
    (short : source.utf8ByteSize < 2 ^ 32) (failed : check source file = .error e) :
    e.PointsInto source file := by
  cases scanned : Token.scan source file with
  | ok tokens =>
    obtain ⟨spelled, rfl, each⟩ := Token.start_in scanned
    obtain ⟨t, member, start⟩ := check_error_start scanned rfl failed
    have place : e.position.In source file := start ▸ (each t member).1
    apply Error.PointsInto.of_in short place
    refine .inl ⟨_, scanned, ?_⟩
    obtain own | ending := List.mem_append.mp member
    · exact .inl ⟨t, member, (each t member).2 own, start⟩
    · rw [List.mem_singleton] at ending
      rw [start, ending]
      exact .inr (Position.offset_ofByte short file)
  | error e' =>
    have same : e' = e := by
      unfold check CompilationUnit.ofSource at failed
      rw [scanned] at failed
      exact Except.error.inj failed
    subst same
    obtain ⟨before, c, rest, split, reached, stuck, rfl⟩ := Token.scanFrom_error scanned
    rw [Nat.zero_add] at scanned ⊢
    have place : (Position.ofByte (Text.byteLength before) file).In source file :=
      ⟨before, c :: rest, split, rfl⟩
    have size := Text.utf8ByteSize_eq source
    rw [split, Text.byteLength_append] at size
    have offset : (Position.ofByte (Text.byteLength before) file).offset.toNat =
        Text.byteLength before := Position.offset_ofByte (by omega) file
    apply Error.PointsInto.of_in short place
    exact .inr ⟨scanned, before, c, rest, split, reached, stuck, rfl, offset⟩

/-- A member declared twice, behind a comment with a character of two bytes. -/
theorem errors_point_into_source_sample :
    let source := "class C\x7b/*é*/int a;int a;\x7d"
    source.utf8ByteSize < 2 ^ 32 ∧ ∃ e, check source "a" = .error e ∧ e.PointsInto source "a" ∧
      e.render source = "Error: MemberAlreadyDeclared (`C.a` already declared with type `int`)\n" ++
        "\"C.a\" already exists in symbol table with type int\n-> a\n" ++
        "  |\n1 | class C\x7b/*é*/int a;int a;\x7d\n  | --------------------^\n" := by
  have short : "class C\x7b/*é*/int a;int a;\x7d".utf8ByteSize < 2 ^ 32 := by decide
  have failed : check "class C\x7b/*é*/int a;int a;\x7d" "a" =
      .error ⟨.memberDeclared "C.a" "int", .ofByte 20 "a"⟩ := by cbv
  exact ⟨short, _, failed, errors_point_into_source _ "a" short failed, by decide +kernel⟩

end Javelet
