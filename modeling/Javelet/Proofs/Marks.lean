import Javelet.Parser
import Javelet.Token.Number
import Javelet.Proofs.Productions
import Javelet.Proofs.Run

namespace Javelet

/-- What a reader makes use of in a token, its place apart: the kind, and the text only of a name or
number. -/
inductive Mark where
  | name (text : String)
  | number (text : String)
  | punct (p : Punct)
  | modifier (m : Modifier)
  | primitive (p : Primitive)
  | word (w : Keyword)
  | quoted
  | ending
deriving DecidableEq

namespace Mark

def kind : Mark → Kind
  | name _ => .identifier
  | number _ => .number
  | punct p => .punct p
  | modifier m => .modifier m
  | primitive p => .primitive p
  | word w => .keyword w
  | quoted => .string
  | ending => .eof

/-- A number has to have a value. -/
def Counts : Mark → Prop
  | number text => (Number.value? text).isSome = true
  | _ => True

/-- The kind of the first mark, the ending's if there is none. -/
def next (ms : List Mark) : Kind := (ms.head?.map kind).getD .eof

@[simp] theorem next_cons (m : Mark) (ms : List Mark) : next (m :: ms) = m.kind := rfl

/-- Parts with commas between them. -/
def listed : List (List Mark) → List Mark
  | [] => []
  | first :: others => first ++ others.flatMap (.punct .comma :: ·)

theorem listed_cons_cons (first second : List Mark) (others : List (List Mark)) :
    listed (first :: second :: others) = first ++ .punct .comma :: listed (second :: others) := by
  rw [listed, listed, List.flatMap_cons, List.cons_append]

end Mark

def Token.mark (t : Token) : Mark :=
  match t.kind with
  | .identifier => .name t.value
  | .number => .number t.value
  | .punct p => .punct p
  | .modifier m => .modifier m
  | .primitive p => .primitive p
  | .keyword w => .word w
  | .string => .quoted
  | .eof => .ending

theorem Token.mark_kind (t : Token) : t.mark.kind = t.kind := by
  unfold Token.mark
  split <;> rename_i h <;> rw [h] <;> rfl

namespace Cursor

def marks (c : Cursor) : List Mark := c.ahead.map Token.mark

theorem length_marks (c : Cursor) : c.marks.length = c.ahead.length := List.length_map ..

theorem kinds_ahead (c : Cursor) : c.ahead.map (·.kind) = c.marks.map Mark.kind := by
  simp [marks, Token.mark_kind]

theorem kindAt_eq (c : Cursor) (places : Nat) :
    c.kindAt places = Mark.next (c.marks.drop places) := by
  simp [kindAt, Mark.next, marks, List.head?_drop, Function.comp_def, Token.mark_kind]

theorem kind_eq (c : Cursor) : c.kind = Mark.next c.marks := by
  rw [← kindAt_zero, kindAt_eq, List.drop_zero]

theorem marks_advance (c : Cursor) : c.advance.marks = c.marks.tail := by
  rw [marks, advance_ahead, marks, List.map_tail]

theorem kind_advance (c : Cursor) {kind : Kind} (h : c.kindAt 1 = kind) :
    c.advance.kind = kind := by
  rw [kind_eq, marks_advance, ← List.drop_one, ← kindAt_eq, h]

/-- A cursor that is not at the end stands before its current token. -/
theorem marks_eq_cons {c : Cursor} (h : c.kind ≠ .eof) :
    c.marks = c.current.mark :: c.advance.marks := by
  obtain ⟨t, rest, here⟩ := List.exists_cons_of_ne_nil (c.ahead_ne_nil h)
  rw [marks_advance]
  simp [marks, current, here]

theorem current_mark {c : Cursor} {m : Mark} {ms : List Mark} (h : c.marks = m :: ms) :
    c.current.mark = m := by
  obtain ⟨t, rest, here, same, _⟩ := List.map_eq_cons_iff.mp h
  rw [current, here, List.headD_cons, same]

end Cursor

/-- The marks are derived from the phrase, and their numbers have values. -/
def Phrase.Covers (p : Phrase) (ms : List Mark) : Prop :=
  Derives p (ms.map Mark.kind) ∧ ∀ m ∈ ms, m.Counts

namespace Phrase

theorem covers_symbol_iff (n : Nonterminal) (ms : List Mark) :
    (symbol n).Covers ms ↔ n.production.Covers ms := by
  rw [Covers, Covers, Derives.symbol_iff]

theorem covers_seq_iff (p q : Phrase) (ms : List Mark) :
    (p ++ q).Covers ms ↔
      ∃ first second, ms = first ++ second ∧ p.Covers first ∧ q.Covers second := by
  rw [Covers, Derives.seq_iff]
  constructor
  · rintro ⟨⟨_, _, split, left, right⟩, count⟩
    obtain ⟨first, second, rfl, rfl, rfl⟩ := List.map_eq_append_iff.mp split
    obtain ⟨countFirst, countSecond⟩ := List.forall_mem_append.mp count
    exact ⟨first, second, rfl, ⟨left, countFirst⟩, ⟨right, countSecond⟩⟩
  · rintro ⟨first, second, rfl, ⟨left, countFirst⟩, ⟨right, countSecond⟩⟩
    exact ⟨⟨_, _, List.map_append, left, right⟩,
      List.forall_mem_append.mpr ⟨countFirst, countSecond⟩⟩

theorem covers_either_iff (p q : Phrase) (ms : List Mark) :
    (p ||| q).Covers ms ↔ p.Covers ms ∨ q.Covers ms := by
  rw [Covers, Derives.either_iff, or_and_right]
  rfl

theorem covers_optional_iff (p : Phrase) (ms : List Mark) :
    p.optional.Covers ms ↔ p.Covers ms ∨ ms = [] := by
  rw [Covers, Derives.optional_iff, List.map_eq_nil_iff, or_and_right]
  refine or_congr Iff.rfl ?_
  constructor
  · exact And.left
  · rintro rfl
    exact ⟨rfl, List.forall_mem_nil _⟩

theorem covers_many_iff (p : Phrase) (ms : List Mark) :
    (many p).Covers ms ↔ ∃ parts : List (List Mark), ms = parts.flatten ∧
      ∀ part ∈ parts, p.Covers part := by
  rw [Covers, Derives.many_iff]
  constructor
  · rintro ⟨⟨kinds, split, each⟩, count⟩
    induction kinds generalizing ms with
    | nil => exact ⟨[], List.map_eq_nil_iff.mp split, List.forall_mem_nil _⟩
    | cons part others ih =>
      obtain ⟨first, rest, rfl, rfl, further⟩ := List.map_eq_append_iff.mp split
      obtain ⟨head, tail⟩ := List.forall_mem_cons.mp each
      obtain ⟨countFirst, countRest⟩ := List.forall_mem_append.mp count
      obtain ⟨parts, rfl, covered⟩ := ih rest countRest further tail
      exact ⟨first :: parts, rfl, List.forall_mem_cons.mpr ⟨⟨head, countFirst⟩, covered⟩⟩
  · rintro ⟨parts, rfl, each⟩
    refine ⟨⟨parts.map (List.map Mark.kind), List.map_flatten, ?_⟩, ?_⟩
    · intro kinds member
      obtain ⟨part, own, rfl⟩ := List.mem_map.mp member
      exact (each part own).1
    · intro m member
      obtain ⟨part, own, inside⟩ := List.mem_flatten.mp member
      exact (each part own).2 m inside

theorem covers_token_iff (fits : Kind → Bool) (ms : List Mark) :
    (token fits).Covers ms ↔ ∃ m : Mark, fits m.kind = true ∧ m.Counts ∧ ms = [m] := by
  rw [Covers, Derives.token_iff]
  constructor
  · rintro ⟨⟨_, fit, single⟩, count⟩
    obtain ⟨m, rfl, rfl⟩ := List.map_eq_singleton_iff.mp single
    exact ⟨m, fit, count m (List.mem_singleton_self _), rfl⟩
  · rintro ⟨m, fit, counts, rfl⟩
    exact ⟨⟨_, fit, rfl⟩, List.forall_mem_singleton.mpr counts⟩

theorem covers_punct_iff (p : Punct) (ms : List Mark) : (punct p).Covers ms ↔ ms = [.punct p] := by
  rw [punct, covers_token_iff]
  constructor
  · rintro ⟨m, fit, _, rfl⟩
    cases m <;> cases of_decide_eq_true fit
    rfl
  · rintro rfl
    exact ⟨.punct p, decide_eq_true rfl, trivial, rfl⟩

theorem covers_word_iff (w : Keyword) (ms : List Mark) : (word w).Covers ms ↔ ms = [.word w] := by
  rw [word, covers_token_iff]
  constructor
  · rintro ⟨m, fit, _, rfl⟩
    cases m <;> cases of_decide_eq_true fit
    rfl
  · rintro rfl
    exact ⟨.word w, decide_eq_true rfl, trivial, rfl⟩

theorem covers_name_iff (ms : List Mark) : name.Covers ms ↔ ∃ text, ms = [.name text] := by
  rw [name, covers_token_iff]
  constructor
  · rintro ⟨m, fit, _, rfl⟩
    cases m <;> cases of_decide_eq_true fit
    exact ⟨_, rfl⟩
  · rintro ⟨text, rfl⟩
    exact ⟨.name text, decide_eq_true rfl, trivial, rfl⟩

theorem covers_number_iff (ms : List Mark) :
    number.Covers ms ↔ ∃ text, (Number.value? text).isSome = true ∧ ms = [.number text] := by
  rw [number, covers_token_iff]
  constructor
  · rintro ⟨m, fit, counts, rfl⟩
    cases m <;> cases of_decide_eq_true fit
    exact ⟨_, counts, rfl⟩
  · rintro ⟨text, counts, rfl⟩
    exact ⟨.number text, decide_eq_true rfl, counts, rfl⟩

theorem covers_modifier_iff (ms : List Mark) : modifier.Covers ms ↔ ∃ m, ms = [.modifier m] := by
  rw [modifier, covers_token_iff]
  constructor
  · rintro ⟨m, fit, _, rfl⟩
    cases m <;> cases fit
    exact ⟨_, rfl⟩
  · rintro ⟨m, rfl⟩
    exact ⟨.modifier m, rfl, trivial, rfl⟩

theorem covers_primitive_iff (ms : List Mark) : primitive.Covers ms ↔ ∃ p, ms = [.primitive p] := by
  rw [primitive, covers_token_iff]
  constructor
  · rintro ⟨m, fit, _, rfl⟩
    cases m <;> cases fit
    exact ⟨_, rfl⟩
  · rintro ⟨p, rfl⟩
    exact ⟨.primitive p, rfl, trivial, rfl⟩

theorem covers_commaSeparated_iff (p : Phrase) (ms : List Mark) :
    p.commaSeparated.Covers ms ↔ ∃ first others, ms = Mark.listed (first :: others) ∧
      ∀ part ∈ first :: others, p.Covers part := by
  rw [commaSeparated, covers_seq_iff]
  constructor
  · rintro ⟨first, rest, rfl, one, more⟩
    obtain ⟨parts, rfl, each⟩ := (covers_many_iff ..).mp more
    -- every part but the first begins with its comma
    have split : ∃ others : List (List Mark), parts = others.map (.punct .comma :: ·) ∧
        ∀ part ∈ others, p.Covers part := by
      clear more
      induction parts with
      | nil => exact ⟨[], rfl, List.forall_mem_nil _⟩
      | cons part rest ih =>
        obtain ⟨head, tail⟩ := List.forall_mem_cons.mp each
        obtain ⟨_, own, rfl, comma, covered⟩ := (covers_seq_iff ..).mp head
        rw [covers_punct_iff] at comma
        obtain ⟨others, rfl, eachOther⟩ := ih tail
        exact ⟨own :: others, by rw [comma]; rfl, List.forall_mem_cons.mpr ⟨covered, eachOther⟩⟩
    obtain ⟨others, rfl, eachOther⟩ := split
    refine ⟨first, others, ?_, List.forall_mem_cons.mpr ⟨one, eachOther⟩⟩
    rw [Mark.listed, List.flatMap_def]
  · rintro ⟨first, others, rfl, each⟩
    obtain ⟨one, eachOther⟩ := List.forall_mem_cons.mp each
    refine ⟨first, _, rfl, one, (covers_many_iff ..).mpr ⟨_, List.flatMap_def, ?_⟩⟩
    intro part member
    obtain ⟨own, inside, rfl⟩ := List.mem_map.mp member
    exact (covers_seq_iff ..).mpr
      ⟨[.punct .comma], own, rfl, (covers_punct_iff ..).mpr rfl, eachOther own inside⟩

theorem covers_parameterList_iff (ms : List Mark) :
    Nonterminal.parameterList.Covers ms ↔ ms = [] ∨ ∃ first others ending,
      ms = Mark.listed (first :: others) ++ ending ∧ (ending = [.punct .comma] ∨ ending = []) ∧
      ∀ part ∈ first :: others, (symbol .parameter).Covers part := by
  rw [Nonterminal.parameterList, covers_optional_iff, covers_seq_iff, or_comm]
  refine or_congr Iff.rfl ?_
  constructor
  · rintro ⟨_, ending, rfl, listed, closed⟩
    obtain ⟨first, others, rfl, each⟩ := (covers_commaSeparated_iff ..).mp listed
    rw [covers_optional_iff, covers_punct_iff] at closed
    exact ⟨first, others, ending, rfl, closed, each⟩
  · rintro ⟨first, others, ending, rfl, closed, each⟩
    refine ⟨_, ending, rfl, (covers_commaSeparated_iff ..).mpr ⟨first, others, rfl, each⟩, ?_⟩
    rwa [covers_optional_iff, covers_punct_iff]

theorem Covers.ne_nil {p : Phrase} {ms : List Mark} (h : p.Covers ms) (solid : p.solid = true) :
    ms ≠ [] := by
  rintro rfl
  exact h.1.ne_nil solid rfl

end Phrase
end Javelet
