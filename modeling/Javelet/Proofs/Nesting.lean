import Javelet.Proofs.Extent
import Javelet.Proofs.Partition

/-! Spans nest like the syntax. In a stream whose tokens stand one behind the other, places further
on are at later bytes, so that parts laid between the same two places are inside the same span and
those of a row do not overlap. -/
namespace Javelet

def Position.byte (p : Position) : Nat := p.offset.toNat

/-- A token is one of the given ones, and stands in the source where it says. -/
structure Token.StandsIn (source : String) (tokens : List Token) (t : Token) : Prop where
  among : t ∈ tokens ∧ t.kind ≠ .eof
  nonempty : t.startByte < t.stopByte
  inside : t.stopByte ≤ source.utf8ByteSize
  shown : ∃ text, Text.Slice source t.startByte t.stopByte text ∧ t.SpelledBy text.toList

/-- A stream of tokens that stand in the source, one behind the other and all behind the place that
has been reached. -/
structure Cursor.Orderly (source : String) (tokens : List Token) (c : Cursor) : Prop where
  standing : ∀ t ∈ c.ahead, t.StandsIn source tokens
  ordered : (c.ahead ++ [c.ending]).Pairwise fun t t' => t.stopByte ≤ t'.startByte
  behind : ∀ t ∈ c.ahead ++ [c.ending], c.previousEnd.byte ≤ t.startByte

namespace Cursor

variable {source : String} {tokens : List Token} {c c' : Cursor}

theorem Step.orderly (step : c.Step c') (orderly : c.Orderly source tokens) :
    c'.Orderly source tokens := by
  obtain ⟨inside, rfl⟩ := step
  obtain ⟨t, rest, here⟩ := List.exists_cons_of_ne_nil inside
  have ahead : c.advance.ahead = rest := by rw [advance_ahead, here, List.tail_cons]
  have stop : c.advance.previousEnd = t.span.stop := by simp [advance, here]
  have ordered := orderly.ordered
  rw [here, List.cons_append, List.pairwise_cons] at ordered
  constructor
  · intro t' member
    rw [ahead] at member
    exact orderly.standing t' (by rw [here]; exact List.mem_cons_of_mem t member)
  · rw [ahead, advance_ending]
    exact ordered.2
  · rw [ahead, advance_ending, stop]
    exact ordered.1

theorem Leads.orderly (leads : c.Leads c') (orderly : c.Orderly source tokens) :
    c'.Orderly source tokens := by
  induction leads with
  | refl => exact orderly
  | tail _ step ih => exact step.orderly ih

/-- The current token is behind the place that has been reached. -/
theorem Orderly.gap (orderly : c.Orderly source tokens) :
    c.previousEnd.byte ≤ c.position.byte := by
  apply orderly.behind c.current
  unfold current
  cases c.ahead <;> simp

/-- A step takes one token, from where it starts to where it stops. -/
theorem Step.token (step : c.Step c') :
    ∃ t ∈ c.ahead, c.current = t ∧ c.position = t.span.start ∧ c'.previousEnd = t.span.stop := by
  obtain ⟨inside, rfl⟩ := step
  obtain ⟨t, rest, here⟩ := List.exists_cons_of_ne_nil inside
  exact ⟨t, by simp [here], by simp [current, here], by simp [position, current, here],
    by simp [advance, here]⟩

theorem Step.lt (step : c.Step c') (orderly : c.Orderly source tokens) :
    c.position.byte < c'.previousEnd.byte := by
  obtain ⟨t, member, _, start, stop⟩ := step.token
  rw [start, stop]
  exact (orderly.standing t member).nonempty

theorem Leads.previousEnd_le (leads : c.Leads c') (orderly : c.Orderly source tokens) :
    c.previousEnd.byte ≤ c'.previousEnd.byte := by
  induction leads with
  | refl => exact Nat.le_refl _
  | tail leads step ih =>
    have later := Leads.orderly leads orderly
    have gap := later.gap
    have further := step.lt later
    omega

theorem Leads.position_le (leads : c.Leads c') (orderly : c.Orderly source tokens) :
    c.position.byte ≤ c'.position.byte := by
  induction leads with
  | refl => exact Nat.le_refl _
  | tail leads step ih =>
    have later := Leads.orderly leads orderly
    have further := step.lt later
    have gap := (step.orderly later).gap
    omega

theorem Passes.lt (passes : c.Passes c') (orderly : c.Orderly source tokens) :
    c.position.byte < c'.previousEnd.byte := by
  obtain ⟨m, leads, step⟩ := Relation.TransGen.tail'_iff.mp passes
  have later := Leads.orderly leads orderly
  have start := Leads.position_le leads orderly
  have further := step.lt later
  omega

theorem Passes.starts (passes : c.Passes c') (orderly : c.Orderly source tokens) :
    ∃ t : Token, t.StandsIn source tokens ∧ c.position = t.span.start := by
  obtain ⟨m, step, _⟩ := Relation.TransGen.head'_iff.mp passes
  obtain ⟨t, member, _, start, _⟩ := step.token
  exact ⟨t, orderly.standing t member, start⟩

theorem Passes.stops (passes : c.Passes c') (orderly : c.Orderly source tokens) :
    ∃ t : Token, t.StandsIn source tokens ∧ c'.previousEnd = t.span.stop := by
  obtain ⟨m, leads, step⟩ := Relation.TransGen.tail'_iff.mp passes
  obtain ⟨t, member, _, _, stop⟩ := step.token
  exact ⟨t, (Leads.orderly leads orderly).standing t member, stop⟩

end Cursor

/-- The text of a name, number or reserved word is what is written there. -/
theorem Token.SpelledBy.of_shows {t : Token} {cs : List Char} {text : String}
    (spelled : t.SpelledBy cs) (shown : t.Shows text) : cs = text.toList := by
  obtain ⟨sort, rfl⟩ | reserved := shown
  · have plain : t.kind ≠ .string := by
      rintro quoted
      simp [quoted] at sort
    rw [spelled.value, if_neg plain]
  · exact (spelled.reserved (text, t.kind) reserved).mp rfl

namespace Span

/-- A span of a source, from where some token starts to where some token stops. -/
structure Proper (source : String) (tokens : List Token) (s : Span) : Prop where
  nonempty : s.start.byte < s.stop.byte
  inside : s.stop.byte ≤ source.utf8ByteSize
  starts : ∃ t ∈ tokens, t.kind ≠ .eof ∧ s.start = t.span.start
  stops : ∃ t ∈ tokens, t.kind ≠ .eof ∧ s.stop = t.span.stop

def Within (inner outer : Span) : Prop :=
  outer.start.byte ≤ inner.start.byte ∧ inner.stop.byte ≤ outer.stop.byte

def Covers (s : Span) (p : Position) : Prop := s.start.byte ≤ p.byte ∧ p.byte < s.stop.byte

def Before (first second : Span) : Prop := first.stop.byte ≤ second.start.byte

end Span

namespace Outline

/-- A part has a span of the source, and in it all that is on record about it: under the span of a
value stands its text, the other places are in the span, and so are the smaller parts, those of a
row one behind the other. -/
structure Encloses (source : String) (tokens : List Token) (o : Outline) : Prop where
  proper : o.span.Proper source tokens
  shown : ∀ text ∈ o.text?, Text.Slice source o.span.start.byte o.span.stop.byte text
  covered : ∀ p ∈ o.places, o.span.Covers p
  contained : ∀ row ∈ o.rows, ∀ part ∈ row, part.span.Within o.span
  ordered : ∀ row ∈ o.rows, row.Pairwise fun part part' => part.span.Before part'.span

/-- All the parts, however deep, enclose what they should. -/
inductive Nests (source : String) (tokens : List Token) : Outline → Prop
  | intro {o : Outline} : o.Encloses source tokens →
      (∀ row ∈ o.rows, ∀ part ∈ row, Nests source tokens part) → Nests source tokens o

end Outline

namespace Outline

variable {source : String} {tokens : List Token} {o : Outline} {c c' : Cursor}

theorem Fits.proper (fits : o.Fits c c') (orderly : c.Orderly source tokens) :
    o.span.Proper source tokens := by
  have bytes := fits.passes.lt orderly
  obtain ⟨first, standing, start⟩ := fits.passes.starts orderly
  obtain ⟨last, standing', stop⟩ := fits.passes.stops orderly
  rw [fits.span_eq]
  constructor
  · exact bytes
  · rw [stop]
    exact standing'.inside
  · exact ⟨first, standing.among.1, standing.among.2, start⟩
  · exact ⟨last, standing'.among.1, standing'.among.2, stop⟩

theorem Fits.shown (fits : o.Fits c c') (orderly : c.Orderly source tokens) {text : String}
    (value : text ∈ o.text?) :
    Text.Slice source o.span.start.byte o.span.stop.byte text := by
  obtain ⟨rfl, shown⟩ := fits.texts text value
  have step : c.Step c.advance := by
    obtain ⟨m, step, _⟩ := Relation.TransGen.head'_iff.mp fits.passes
    exact ⟨step.1, rfl⟩
  obtain ⟨t, member, current, start, stop⟩ := step.token
  obtain ⟨written, slice, spelled⟩ := (orderly.standing t member).shown
  rw [current] at shown
  have same : written = text := String.toList_injective (spelled.of_shows shown)
  rw [fits.span_eq, start, stop, ← same]
  exact slice

theorem Fits.covered (fits : o.Fits c c') (orderly : c.Orderly source tokens) {p : Position}
    (place : p ∈ o.places) : o.span.Covers p := by
  obtain ⟨a, leads, passes, rfl⟩ := fits.places p place
  rw [fits.span_eq]
  exact ⟨leads.position_le orderly, passes.lt (leads.orderly orderly)⟩

theorem Laid.within {part : Outline} {a b : Cursor} (laid : part.Laid a b) (fits : o.Fits c c')
    (orderly : c.Orderly source tokens) (before : c.Leads a) (behind : b.Leads c') :
    part.span.Within o.span := by
  have here := before.orderly orderly
  have there := laid.leads.orderly here
  rw [laid.fits.span_eq, fits.span_eq]
  exact ⟨before.position_le orderly, behind.previousEnd_le there⟩

/-- The first of two places is reached before the second part begins. -/
theorem Laid.before {part : Outline} {a b : Cursor} (first : o.Laid c c') (second : part.Laid a b)
    (orderly : c.Orderly source tokens) (between : c'.Leads a) : o.span.Before part.span := by
  have there := first.leads.orderly orderly
  have gap := there.gap
  have start := between.position_le there
  rw [first.fits.span_eq, second.fits.span_eq]
  exact Nat.le_trans gap start

theorem row_ordered {row : List Outline} (h : Row Laid row c c')
    (orderly : c.Orderly source tokens) :
    row.Pairwise fun part part' => part.span.Before part'.span := by
  induction h with
  | nil leads => exact .nil
  | cons leads here rest ih =>
    have begun := leads.orderly orderly
    apply List.pairwise_cons.mpr
    constructor
    · intro part member
      obtain ⟨a, b, between, laid, _⟩ := rest.exists_of_mem part member
      exact here.before laid begun between
    · exact ih (here.leads.orderly begun)

/-- What readers lay down in a stream that is in order is nested. -/
theorem Laid.nests (laid : o.Laid c c') (orderly : c.Orderly source tokens) :
    o.Nests source tokens := by
  induction o using Outline.induct generalizing c c' with
  | step o ih =>
    have fits := laid.fits
    have placed (row) (listed : row ∈ o.rows) (part) (member : part ∈ row) :
        ∃ a b, c.Leads a ∧ part.Laid a b ∧ b.Leads c' :=
      (laid.rows row listed).exists_of_mem part member
    refine .intro ⟨fits.proper orderly, ?_, ?_, ?_, ?_⟩ ?_
    · exact fun text value => fits.shown orderly value
    · exact fun p place => fits.covered orderly place
    · intro row listed part member
      obtain ⟨a, b, before, own, behind⟩ := placed row listed part member
      exact own.within fits orderly before behind
    · exact fun row listed => row_ordered (laid.rows row listed) orderly
    · intro row listed part member
      obtain ⟨a, b, before, own, _⟩ := placed row listed part member
      exact ih row listed part member own (before.orderly orderly)

end Outline

/-- The stream of a source is in order. -/
theorem Cursor.orderly_ofTokens {source file : String} {tokens : List Token}
    (short : source.utf8ByteSize < 2 ^ 32) (scanned : Token.scan source file = .ok tokens) :
    (ofTokens tokens file).Orderly source tokens ∧
      ∀ t ∈ tokens, t.kind ≠ .eof → t ∈ (ofTokens tokens file).ahead := by
  obtain ⟨l, whole, rfl⟩ := Token.exists_layout scanned
  have fits : 0 + Text.byteLength l.text < 2 ^ 32 := by
    rw [whole, ← Text.utf8ByteSize_eq]
    omega
  obtain ⟨spelled, all, each⟩ := l.tokens_spelled file 0
  have ordered := l.tokens_ordered file fits
  rw [all] at ordered ⊢
  rw [whole] at each
  rw [ofTokens_concat spelled rfl]
  refine ⟨⟨?_, ordered, fun _ _ => Nat.zero_le _⟩, ?_⟩
  · intro t member
    obtain ⟨before, s, after, split, rfl⟩ := each t member
    obtain ⟨nonempty, inside, slice⟩ := Token.placed_of_split short file s split
    refine ⟨⟨List.mem_append_left _ member, s.kind_ne_eof⟩, nonempty, inside, _, slice, ?_⟩
    rw [String.toList_ofList]
    exact Token.spelledBy_text s file _
  · intro t member real
    obtain own | ending := List.mem_append.mp member
    · exact own
    · rw [List.mem_singleton] at ending
      rw [ending] at real
      exact absurd rfl real

/-- In a source with at least one token, spans nest like the syntax. -/
theorem spans_nest (source file : String) {tokens : List Token} {u : CompilationUnit}
    (short : source.utf8ByteSize < 2 ^ 32) (scanned : Token.scan source file = .ok tokens)
    (inhabited : ∃ t ∈ tokens, t.kind ≠ .eof)
    (parsed : CompilationUnit.ofTokens tokens file = .ok u) : u.outline.Nests source tokens := by
  obtain ⟨orderly, ahead⟩ := Cursor.orderly_ofTokens short scanned
  obtain ⟨t, member, real⟩ := inhabited
  have inside : (Cursor.ofTokens tokens file).kind ≠ .eof := by
    have filled := List.ne_nil_of_mem (ahead t member real)
    obtain ⟨first, rest, here⟩ := List.exists_cons_of_ne_nil filled
    have standing := orderly.standing first (by rw [here]; exact List.mem_cons_self)
    simp [Cursor.kind, Cursor.current, here, standing.among.2]
  obtain ⟨c', run⟩ := CompilationUnit.exists_run_of_ofTokens parsed
  exact (Parser.compilationUnit_laid .standard inside run).nests orderly

/-- A field of two variables, a method with a parameter and a block in a block. -/
theorem spans_nest_sample :
    let source := "class C\x7bC a=d,e;C m(C b)\x7b\x7bC c=b;\x7d\x7d\x7d"
    source.utf8ByteSize < 2 ^ 32 ∧ ∃ tokens u, Token.scan source "a" = .ok tokens ∧
      (∃ t ∈ tokens, t.kind ≠ .eof) ∧ CompilationUnit.ofTokens tokens "a" = .ok u ∧
      u.outline.Nests source tokens := by
  intro source
  have short : source.utf8ByteSize < 2 ^ 32 := by decide
  have well : (do
      let tokens ← Token.scan "class C\x7bC a=d,e;C m(C b)\x7b\x7bC c=b;\x7d\x7d\x7d" "a"
      let _ ← CompilationUnit.ofTokens tokens "a"
      return tokens.any fun t => t.kind != .eof) = Except.ok true := by cbv
  obtain ⟨tokens, scanned, further⟩ := (Run.except_bind_ok_iff ..).mp well
  obtain ⟨u, parsed, some⟩ := (Run.except_bind_ok_iff ..).mp further
  obtain ⟨t, member, real⟩ := List.any_eq_true.mp (Except.ok.inj some)
  have inhabited : ∃ t ∈ tokens, t.kind ≠ .eof := ⟨t, member, bne_iff_ne.mp real⟩
  exact ⟨short, tokens, u, scanned, inhabited, parsed,
    spans_nest _ "a" short scanned inhabited parsed⟩

end Javelet
