import Javelet.Proofs.Barrier
import Javelet.Proofs.Extent

/-! Reading goes through the tokens once. It comes to an end, the cursor only moves forward and
stays among the tokens, every part that is read takes a token, and no ending is ever gone over, so
that nothing behind the first one matters. -/
namespace Javelet

namespace Token

/-- The tokens that are read: the given ones, and an ending if they do not close with one. -/
def closed (tokens : List Token) (file : String) : List Token :=
  match tokens.getLast? with
  | none => [ending ⟨0, file⟩]
  | some last => if last.kind = .eof then tokens else tokens ++ [ending last.span.stop]

/-- The tokens up to the first ending, with it. -/
def throughEnd : List Token → List Token
  | [] => []
  | t :: rest => if t.kind = .eof then [t] else t :: throughEnd rest

theorem throughEnd_append {front : List Token} (inside : ∀ t ∈ front, t.kind ≠ .eof) {b : Token}
    (ending : b.kind = .eof) (rest : List Token) :
    throughEnd (front ++ b :: rest) = front ++ [b] := by
  induction front with
  | nil => rw [List.nil_append, throughEnd, if_pos ending, List.nil_append]
  | cons t front ih =>
    obtain ⟨first, others⟩ := List.forall_mem_cons.mp inside
    rw [List.cons_append, throughEnd, if_neg first, ih others, List.cons_append]

end Token

namespace Cursor

theorem stream_ofTokens_eq (tokens : List Token) (file : String) :
    (ofTokens tokens file).stream = Token.closed tokens file := by
  unfold ofTokens Token.closed
  cases final : tokens.getLast? with
  | none => rfl
  | some last =>
    obtain ⟨front, rfl⟩ := List.getLast?_eq_some_iff.mp final
    dsimp only
    split
    · simp [stream]
    · rfl

/-- Two places with the same tokens up to the first ending. -/
theorem abreast_of_throughEnd {c d : Cursor} (ended : c.previousEnd = d.previousEnd)
    (same : Token.throughEnd c.stream = Token.throughEnd d.stream) :
    ∃ b : Token, b.kind = .eof ∧ c.Abreast b b d := by
  obtain ⟨b, ending, level⟩ := c.exists_abreast
  obtain ⟨b', ending', level'⟩ := d.exists_abreast
  obtain ⟨front, rest, _, here, _, inside⟩ := level.streams
  obtain ⟨front', rest', _, there, _, inside'⟩ := level'.streams
  rw [here, there, Token.throughEnd_append inside ending, Token.throughEnd_append inside' ending']
    at same
  obtain ⟨rfl, last⟩ := List.append_inj' same rfl
  cases last
  exact ⟨b, ending, level.bars, ended, front, rest, rest', here, there, inside⟩

end Cursor

theorem CompilationUnit.ofTokens_congr {tokens tokens' : List Token} {file : String}
    (same : Token.throughEnd (Token.closed tokens file) =
      Token.throughEnd (Token.closed tokens' file)) :
    ofTokens tokens file = ofTokens tokens' file := by
  rw [← Cursor.stream_ofTokens_eq, ← Cursor.stream_ofTokens_eq] at same
  have ended : (Cursor.ofTokens tokens file).previousEnd =
      (Cursor.ofTokens tokens' file).previousEnd := by
    rw [Cursor.previousEnd_ofTokens, Cursor.previousEnd_ofTokens]
  obtain ⟨b, ending, level⟩ := Cursor.abreast_of_throughEnd ended same
  have ends := Parser.compilationUnit_inStep (L := .abreast b b) .standard _ _ level
  unfold ofTokens
  generalize (Parser.compilationUnit .standard).run (.ofTokens tokens' file) = run' at ends ⊢
  cases ran : (Parser.compilationUnit .standard).run (.ofTokens tokens file) with
  | ok u c =>
    rw [ran] at ends
    cases ends with
    | ok same _ => rw [same, show (Lockstep.abreast b b).move = .stay from rfl,
        Parser.compilationUnit_stays .standard ran]
  | error e c =>
    rw [ran] at ends
    cases ends with
    | error together => rw [together.2 rfl]
    | stopped alone => cases ending.symm.trans alone.1

namespace Cursor

/-- The cursor is at the token of that index, and there is no ending before it. -/
structure StandsAt (c : Cursor) (tokens : List Token) (i : Nat) : Prop where
  inside : i < tokens.length
  stream : c.stream = tokens.drop i
  clear : ∀ t ∈ tokens.take i, t.kind ≠ .eof

theorem standsAt_ofTokens (tokens : List Token) (file : String) :
    (ofTokens tokens file).StandsAt (Token.closed tokens file) 0 := by
  rw [← stream_ofTokens_eq]
  constructor
  · simp [Cursor.stream]
  · rfl
  · exact List.forall_mem_nil _

namespace StandsAt

variable {c c' : Cursor} {tokens : List Token} {i : Nat}

theorem length_ahead (h : c.StandsAt tokens i) : c.ahead.length + 1 + i = tokens.length := by
  have lengths := congrArg List.length h.stream
  simp only [Cursor.stream, List.length_append, List.length_singleton, List.length_drop] at lengths
  have inside := h.inside
  omega

/-- A look so many places ahead is a look at the token there, or at the last one. -/
theorem kindAt (h : c.StandsAt tokens i) (places : Nat) :
    tokens[min (i + places) (tokens.length - 1)]?.map (·.kind) = some (c.kindAt places) := by
  have lengths := h.length_ahead
  have shifted (k : Nat) : tokens[i + k]? = c.stream[k]? := by rw [h.stream, List.getElem?_drop]
  obtain near | far := Nat.lt_or_ge places c.ahead.length
  · rw [min_eq_left (by omega), shifted, Cursor.stream, List.getElem?_append_left near,
      Cursor.kindAt, List.getElem?_eq_getElem near]
    rfl
  · have last : min (i + places) (tokens.length - 1) = i + c.ahead.length := by omega
    rw [last, shifted, Cursor.stream, List.getElem?_concat_length, Cursor.kindAt,
      List.getElem?_eq_none far]
    exact congrArg some c.ending_eof

theorem advance (h : c.StandsAt tokens i) (proper : c.kind ≠ .eof) :
    c.advance.StandsAt tokens (i + 1) := by
  have split := h.stream
  rw [stream_eq_cons proper] at split
  have lengths := h.length_ahead
  have some := List.length_pos_iff.mpr (c.ahead_ne_nil proper)
  have here : tokens[i]? = Option.some c.current := by
    rw [← Nat.add_zero i, ← List.getElem?_drop, ← split]
    rfl
  constructor
  · omega
  · rw [← List.tail_drop, ← split]
    rfl
  · rw [List.take_add_one, here]
    intro t member
    obtain before | own := List.mem_append.mp member
    · exact h.clear t before
    · rw [List.mem_singleton.mp own]
      exact proper

theorem clears (h : c.StandsAt tokens i) (way : c.Clears c') :
    ∃ j, i ≤ j ∧ c'.StandsAt tokens j := by
  induction way with
  | refl => exact ⟨i, le_rfl, h⟩
  | tail _ step ih =>
    obtain ⟨proper, rfl⟩ := step
    obtain ⟨j, later, there⟩ := ih
    exact ⟨j + 1, by omega, there.advance proper⟩

end StandsAt
end Cursor

namespace Parser

variable {α : Type} {tokens : List Token} (g : Grammar)

/-- Started at a place among the tokens, the reader ends at one of them: further on by so many
tokens at least as belong to its result, and no further back if it fails. -/
structure Keeps (tokens : List Token) (least : α → Nat) (r : Parser α) : Prop where
  well : ∀ {c i a c'}, c.StandsAt tokens i → r.run c = .ok a c' →
    ∃ j, i + least a ≤ j ∧ c'.StandsAt tokens j
  badly : ∀ {c i e c'}, c.StandsAt tokens i → r.run c = .error e c' →
    ∃ j, i ≤ j ∧ c'.StandsAt tokens j

theorem Keeps.of_onward {r : Parser α} {least : α → Nat} (onward : Onward r)
    (taken : ∀ c a c', r.run c = .ok a c' → 0 < least a →
      c'.ahead.length + least a ≤ c.ahead.length) : Keeps tokens least r := by
  constructor
  · intro c i a c' here run
    obtain ⟨j, later, there⟩ := here.clears (onward.well run)
    refine ⟨j, ?_, there⟩
    obtain none | some := Nat.eq_zero_or_pos (least a)
    · omega
    · have shorter := taken c a c' run some
      have lengths := here.length_ahead
      have lengths' := there.length_ahead
      omega
  · intro c i e c' here run
    exact here.clears (onward.badly run)

section

variable {r : Parser α} {f : Cursor → α → α}
  (steps : ∀ start, InStep (.clear start) (f start) r r)

include steps

/-- A reader that may take nothing. -/
theorem Keeps.of_any : Keeps tokens (fun _ => 0) r :=
  .of_onward (.of_inStep steps) fun _ _ _ _ none => absurd none (Nat.lt_irrefl 0)

/-- A reader that takes something. -/
theorem Keeps.of_shorter (shorter : ∀ c a c', r.run c = .ok a c' →
    c'.ahead.length < c.ahead.length) : Keeps tokens (fun _ => 1) r :=
  .of_onward (.of_inStep steps) fun c a c' run _ => shorter c a c' run

/-- A reader of a phrase that is not empty. -/
theorem Keeps.of_takes {p : Phrase} (takes : Takes r p) (solid : p.solid = true) :
    Keeps tokens (fun _ => 1) r :=
  .of_shorter steps fun c a c' run => (takes c a c' run).shorter solid

end

/-- A reader of items that take a token. -/
theorem Keeps.of_shrinks {item : Parser (Option α)} {f : Cursor → Option α → Option α}
    (steps : ∀ start, InStep (.clear start) (f start) item item) (shrinks : Shrinks item) :
    Keeps tokens (fun found => found.toList.length) item := by
  apply Keeps.of_onward (.of_inStep steps)
  intro c found c' run some
  cases found with
  | none => cases some
  | some a => exact shrinks c a c' run

theorem Keeps.upTo {item : Parser (Option α)}
    (each : Keeps tokens (fun found => found.toList.length) item) (n : Nat) :
    Keeps tokens List.length (upTo item n) := by
  induction n with
  | zero =>
    constructor
    · intro c i all c' here run
      cases run
      exact ⟨i, Nat.le_refl i, here⟩
    · intro c i e c' _ run
      cases run
  | succ n ih =>
    constructor
    · intro c i all c' here run
      rw [Parser.upTo] at run
      obtain ⟨found, m, ran, further⟩ := (Run.bind_ok_iff ..).mp run
      obtain ⟨j, later, there⟩ := each.well here ran
      cases found with
      | none =>
        cases further
        exact ⟨j, later, there⟩
      | some a =>
        obtain ⟨rest, m', ranRest, ended⟩ := (Run.bind_ok_iff ..).mp further
        cases ended
        obtain ⟨k, latest, last⟩ := ih.well there ranRest
        simp only [Option.toList_some, List.length_cons, List.length_nil] at later ⊢
        exact ⟨k, by omega, last⟩
    · intro c i e c' here run
      rw [Parser.upTo] at run
      obtain failed | ⟨found, m, ran, further⟩ := (Run.bind_error_iff ..).mp run
      · exact each.badly here failed
      · obtain ⟨j, later, there⟩ := each.well here ran
        cases found with
        | none => cases further
        | some a =>
          obtain failed | ⟨_, _, _, ended⟩ := (Run.bind_error_iff ..).mp further
          · obtain ⟨k, latest, last⟩ := ih.badly there failed
            exact ⟨k, by omega, last⟩
          · cases ended

theorem Keeps.many {item : Parser (Option α)}
    (each : Keeps tokens (fun found => found.toList.length) item) :
    Keeps tokens List.length (many item) :=
  ⟨fun here run => (each.upTo _).well here run, fun here run => (each.upTo _).badly here run⟩

/-- The readers that a run is made of, down to the single token, each with the least number of
tokens that it takes for a result. An item that is there takes one, and so does every part of a
program. -/
inductive Reader (g : Grammar) : {α : Type} → Parser α → (α → Nat) → Prop
  | expect {wanted : Kind} : wanted ≠ .eof → Reader g (expect wanted) fun _ => 1
  | takeName (message : String) : Reader g (take .identifier (expected message)) fun _ => 1
  | refuse (refused : Kind) (construct : String) : Reader g (refuse refused construct) fun _ => 0
  | upTo {α : Type} {item : Parser (Option α)} (n : Nat) :
      Reader g item (fun found => found.toList.length) → Reader g (upTo item n) List.length
  | many {α : Type} {item : Parser (Option α)} :
      Reader g item (fun found => found.toList.length) → Reader g (many item) List.length
  -- types
  | dottedName : Reader g dottedName fun found => found.toList.length
  | qualifiedName : Reader g qualifiedName fun _ => 1
  | namedType : Reader g namedType fun _ => 1
  | primitiveType : Reader g primitiveType fun _ => 1
  | brackets : Reader g brackets fun _ => 1
  | typeHead : Reader g (typeHead g) fun _ => 1
  | typeSuffix (floor : Power) : Reader g (typeSuffix g floor) fun found => found.toList.length
  | typeExpr (floor : Power) : Reader g (typeExpr g floor) fun _ => 1
  -- expressions and declarations of variables
  | primary : Reader g primary fun _ => 1
  | refusedOperand : Reader g refusedOperand fun _ => 0
  | operand : Reader g (operand g) fun _ => 1
  | expression (floor : Power) : Reader g (expression g floor) fun _ => 1
  | initializer : Reader g (initializer g) fun _ => 0
  | declarator : Reader g (declarator g) fun _ => 1
  | nextDeclarator : Reader g (nextDeclarator g) fun found => found.toList.length
  | declarators : Reader g (declarators g) fun _ => 1
  | localDeclaration : Reader g (localDeclaration g) fun _ => 1
  -- statements and blocks, also those with only so many levels below them
  | statement : Reader g (statement g) fun _ => 1
  | statementOf (depth : Nat) : Reader g (statementOf g (statements g depth)) fun _ => 1
  | block : Reader g (block g) fun _ => 1
  | blockOf (depth : Nat) : Reader g (blockOf (statements g depth)) fun _ => 1
  | nextStatement (depth : Nat) :
      Reader g (nextInBraces (statementOf g (statements g depth))) fun found => found.toList.length
  | body : Reader g (body g) fun _ => 0
  | statements (depth : Nat) : Reader g (statements g depth) fun _ => 0
  -- members
  | nextModifier : Reader g nextModifier fun found => found.toList.length
  | refuseModifier : Reader g refuseModifier fun _ => 0
  | parameter : Reader g (parameter g) fun _ => 1
  | parameterEnd : Reader g parameterEnd fun _ => 0
  | nextParameter : Reader g (nextParameter g) fun found => found.toList.length
  | refuseThrows : Reader g refuseThrows fun _ => 0
  | methodBody : Reader g (methodBody g) fun _ => 1
  | method (start : Position) (ms : List Modifier) (type : TypeExpr) :
      Reader g (method g start ms type) fun _ => 1
  | field (start : Position) (ms : List Modifier) (type : TypeExpr) :
      Reader g (field g start ms type) fun _ => 1
  | typedMember (start : Position) (ms : List Modifier) :
      Reader g (typedMember g start ms) fun _ => 1
  | classOf (depth : Nat) (start : Position) (ms : List Modifier) :
      Reader g (classOf (members g depth) start ms) fun _ => 1
  | memberOf (depth : Nat) : Reader g (memberOf g (members g depth)) fun _ => 1
  | nextMember (depth : Nat) :
      Reader g (nextInBraces (memberOf g (members g depth))) fun found => found.toList.length
  | members (depth : Nat) : Reader g (members g depth) fun _ => 0
  | typeDeclaration : Reader g (typeDeclaration g) fun _ => 1
  -- units
  | wildcard : Reader g wildcard fun _ => 0
  | nextImport : Reader g nextImport fun found => found.toList.length
  | packageName : Reader g packageName fun _ => 0
  | nextClass : Reader g (nextClass g) fun found => found.toList.length
  | compilationUnit : Reader g (compilationUnit g) fun _ => 0

theorem typedMember_shorter {start : Position} {ms : List Modifier} {c c' : Cursor} {m : Member}
    (run : (typedMember g start ms).run c = .ok m c') : c'.ahead.length < c.ahead.length := by
  obtain field | method := typedMember_between g run
  · exact field.shorter rfl
  · exact method.shorter rfl

theorem expect_shorter {wanted : Kind} (proper : wanted ≠ .eof) {c c' : Cursor} {t : Token}
    (run : (expect wanted).run c = .ok t c') : c'.ahead.length < c.ahead.length := by
  obtain ⟨here, _, rfl⟩ := expect_ok run
  have some := List.length_pos_iff.mpr (c.ahead_ne_nil (here ▸ proper))
  rw [Cursor.advance_ahead, List.length_tail]
  omega

theorem Reader.keeps {r : Parser α} {least : α → Nat} (reader : Reader g r least) :
    Keeps tokens least r := by
  induction reader with
  | expect proper =>
    exact .of_onward (expect_onward proper) fun _ _ _ run _ => expect_shorter proper run
  | takeName message =>
    exact .of_takes (fun _ => take_inStep rfl (expected_inStep message))
      (takeOr_takes message) rfl
  | refuse refused construct => exact .of_any (fun _ => refuse_inStep refused construct)
  | upTo n _ ih => exact ih.upTo n
  | many _ ih => exact ih.many
  | dottedName => exact .of_shrinks (fun _ => dottedName_inStep) (dottedName_offers.shrinks rfl)
  | qualifiedName => exact .of_takes (fun _ => qualifiedName_inStep) qualifiedName_takes rfl
  | namedType => exact .of_takes (fun _ => namedType_inStep) namedType_takes rfl
  | primitiveType => exact .of_takes (fun _ => primitiveType_inStep) primitiveType_takes rfl
  | brackets => exact .of_takes (fun _ => brackets_inStep) brackets_takes rfl
  | typeHead => exact .of_takes (fun _ => typeHead_inStep g) (typeHead_takes g) rfl
  | typeSuffix floor =>
    exact .of_shrinks (fun _ => typeSuffix_inStep g floor) ((typeSuffix_offers g floor).shrinks rfl)
  | typeExpr floor =>
    exact .of_takes (fun _ => typeExpr_inStep g floor) (typeExpr_takes g floor) rfl
  | primary => exact .of_takes (fun _ => primary_inStep) primary_takes rfl
  | refusedOperand => exact .of_any (fun _ => refusedOperand_inStep)
  | operand => exact .of_takes (fun _ => operand_inStep g) (operand_takes g) rfl
  | expression floor =>
    exact .of_takes (fun _ => expression_inStep g floor) (expression_takes g floor) rfl
  | initializer => exact .of_any (fun _ => initializer_inStep g)
  | declarator => exact .of_takes (fun _ => declarator_inStep g) (declarator_takes g) rfl
  | nextDeclarator =>
    exact .of_shrinks (fun _ => nextDeclarator_inStep g) ((nextDeclarator_offers g).shrinks rfl)
  | declarators => exact .of_takes (fun _ => declarators_inStep g) (declarators_takes g) rfl
  | localDeclaration =>
    exact .of_takes (fun _ => localDeclaration_inStep g) (localDeclaration_takes g) rfl
  | statement =>
    exact .of_takes (fun _ => statementOf_inStep g (body_inStep g))
      (statementOf_takes g (body_takes g)) rfl
  | statementOf depth =>
    exact .of_takes (fun _ => statementOf_inStep g (statements_inStep g depth))
      (statementOf_takes g (statements_takes g depth)) rfl
  | block => exact .of_takes (fun _ => blockOf_inStep (body_inStep g)) (block_takes g) rfl
  | blockOf depth =>
    exact .of_takes (fun _ => blockOf_inStep (statements_inStep g depth))
      (blockOf_takes (statements_takes g depth)) rfl
  | nextStatement depth =>
    exact .of_shrinks
      (fun _ => nextInBraces_inStep (statementOf_inStep g (statements_inStep g depth)))
      (statementOf_shrinks g depth)
  | body => exact .of_any (fun _ => body_inStep g)
  | statements depth => exact .of_any (fun _ => statements_inStep g depth)
  | nextModifier =>
    exact .of_shrinks (fun _ => nextModifier_inStep) (nextModifier_offers.shrinks rfl)
  | refuseModifier => exact .of_any (fun _ => refuseModifier_inStep)
  | parameter => exact .of_takes (fun _ => parameter_inStep g) (parameter_takes g) rfl
  | parameterEnd => exact .of_any (fun _ => parameterEnd_inStep)
  | nextParameter => exact .of_shrinks (fun _ => nextParameter_inStep g) (nextParameter_shrinks g)
  | refuseThrows => exact .of_any (fun _ => refuseThrows_inStep)
  | methodBody => exact .of_takes (fun _ => methodBody_inStep g) (methodBody_takes g) rfl
  | method start ms type =>
    exact .of_takes (fun _ => method_inStep g start ms type) (method_takes g start ms type) rfl
  | field start ms type =>
    exact .of_takes (fun _ => field_inStep g start ms type) (field_takes g start ms type) rfl
  | typedMember start ms =>
    exact .of_shorter (fun _ => typedMember_inStep g start ms) fun _ _ _ => typedMember_shorter g
  | classOf depth start ms =>
    exact .of_takes (fun _ => classOf_inStep (members_inStep g depth) start ms)
      (classOf_takes (members_takes g depth) start ms) rfl
  | memberOf depth =>
    exact .of_takes (fun _ => memberOf_inStep g (members_inStep g depth))
      (memberOf_takes g (members_takes g depth)) rfl
  | nextMember depth =>
    exact .of_shrinks (fun _ => nextInBraces_inStep (memberOf_inStep g (members_inStep g depth)))
      (memberOf_shrinks g depth)
  | members depth => exact .of_any (fun _ => members_inStep g depth)
  | typeDeclaration =>
    exact .of_takes (fun _ => typeDeclaration_inStep g) (typeDeclaration_takes g) rfl
  | wildcard => exact .of_any (fun _ => wildcard_inStep)
  | nextImport => exact .of_shrinks (fun _ => nextImport_inStep) (nextImport_offers.shrinks rfl)
  | packageName => exact .of_any (fun _ => packageName_inStep)
  | nextClass => exact .of_shrinks (fun _ => nextClass_inStep g) ((nextClass_offers g).shrinks rfl)
  | compilationUnit => exact .of_any (fun _ => compilationUnit_inStep g)

/-- No loop of the readers goes on for ever, and neither do blocks in blocks and classes in classes.
The numbers of levels that are handed down are never too small. -/
structure Terminates (g : Grammar) : Prop where
  names : Ends (round dottedName) (many dottedName)
  suffixes : ∀ floor, Ends (round (typeSuffix g floor)) (many (typeSuffix g floor))
  declarators : Ends (round (nextDeclarator g)) (many (nextDeclarator g))
  modifiers : Ends (round nextModifier) modifiers
  parameters : Ends (round (nextParameter g)) (parameters g)
  imports : Ends (round nextImport) (many nextImport)
  classes : Ends (round (nextClass g)) (many (nextClass g))
  statements : Ends (fun again => round (nextInBraces (statementOf g again)) again) (body g)
  members : Ends (fun again => round (nextInBraces (memberOf g again)) again) (topmost (members g))
  block_levels : ∀ {n c}, c.ahead.length < n → (Parser.statements g n).run c = (body g).run c
  class_levels : ∀ {n c}, c.ahead.length < n →
    (Parser.members g n).run c = (topmost (Parser.members g)).run c

theorem terminates : Terminates g where
  names := many_ends (dottedName_offers.shrinks rfl)
  suffixes floor := many_ends ((typeSuffix_offers g floor).shrinks rfl)
  declarators := many_ends ((nextDeclarator_offers g).shrinks rfl)
  modifiers := many_ends (nextModifier_offers.shrinks rfl)
  parameters := many_ends (nextParameter_shrinks g)
  imports := many_ends (nextImport_offers.shrinks rfl)
  classes := many_ends ((nextClass_offers g).shrinks rfl)
  statements := (statements_nest g).ends
  members := (members_nest g).ends
  block_levels enough := (statements_nest g).run_topmost enough
  class_levels enough := (members_nest g).run_topmost enough

end Parser

/-- Reading comes to an end and goes through the tokens from the first on, without going back and
without going over an ending. So what it comes to depends only on the tokens up to the first
ending. -/
theorem reading_goes_onward (tokens : List Token) (file : String) :
    let stream := Token.closed tokens file
    Parser.Terminates .standard ∧ (Cursor.ofTokens tokens file).StandsAt stream 0 ∧
      (∀ (c : Cursor) i, c.StandsAt stream i → (c.kind ≠ .eof → c.advance.StandsAt stream (i + 1)) ∧
        ∀ places, stream[min (i + places) (stream.length - 1)]?.map (·.kind) =
          some (c.kindAt places)) ∧
      (∀ (α : Type) (r : Parser α) (least : α → Nat), Parser.Reader .standard r least →
        r.Keeps stream least) ∧
      ∀ tokens', Token.throughEnd (Token.closed tokens' file) = Token.throughEnd stream →
        CompilationUnit.ofTokens tokens' file = CompilationUnit.ofTokens tokens file := by
  intro stream
  refine ⟨Parser.terminates _, Cursor.standsAt_ofTokens tokens file, ?_, ?_, ?_⟩
  · intro c i here
    exact ⟨here.advance, here.kindAt⟩
  · intro α r least reader
    exact reader.keeps
  · intro tokens' same
    exact CompilationUnit.ofTokens_congr same

theorem reading_goes_onward_sample :
    let mark (i : UInt32) : Span := ⟨⟨i, "C.java"⟩, ⟨i + 1, "C.java"⟩⟩
    let ended : List Token := [⟨.punct .semicolon, ";", mark 0⟩, ⟨.eof, "EOF", mark 1⟩]
    let tokens := ended ++ [⟨.punct .openCurly, "\x7b", mark 2⟩]
    (Cursor.ofTokens tokens "C.java").advance.StandsAt (Token.closed tokens "C.java") 1 ∧
      (Parser.nextClass .standard).Keeps (Token.closed tokens "C.java")
        (fun found => found.toList.length) ∧
      CompilationUnit.ofTokens ended "C.java" = CompilationUnit.ofTokens tokens "C.java" := by
  intro mark ended tokens
  obtain ⟨_, start, places, readers, behind⟩ := reading_goes_onward tokens "C.java"
  refine ⟨(places _ _ start).1 ?_, readers _ _ _ .nextClass, behind ended ?_⟩
  · decide
  · decide

end Javelet
