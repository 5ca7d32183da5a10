import Javelet.Proofs.Exactness
import Javelet.Proofs.Lockstep

/-! No reader gets over an ending or over a number without a value. So two streams that are the same
up to such a token are read alike, whatever stands behind it. The second stream may have another
number in that place: the first reader then fails there, or the two do not come that far. -/
namespace Javelet

/-- A token that stops every reader, and the one that stands in its place in another stream. -/
structure Token.Bars (b b' : Token) : Prop where
  kind : b'.kind = b.kind
  span : b'.span = b.span
  bars : b.kind.bars = true
  valueless : b.kind = .number → Number.value? b.value = none

/-- Only a number without a value is called a bad one. -/
def Error.Honest (e : Error) : Prop :=
  ∀ text, e.cause = .badNumber text → Number.value? text = none

namespace Cursor

/-- The tokens from the current one on, with the ending. -/
def stream (c : Cursor) : List Token := c.ahead ++ [c.ending]

/-- Two places that are equally far from the tokens that stop readers, with the same tokens before
these. -/
structure Abreast (b b' : Token) (c d : Cursor) : Prop where
  bars : b.Bars b'
  ended : c.previousEnd = d.previousEnd
  streams : ∃ front rest rest', c.stream = front ++ b :: rest ∧ d.stream = front ++ b' :: rest' ∧
    ∀ t ∈ front, t.kind ≠ .eof

theorem head_stream (c : Cursor) : c.stream.head? = some c.current := by
  cases here : c.ahead <;> simp [stream, current, here]

theorem stream_eq_cons {c : Cursor} (inside : c.kind ≠ .eof) :
    c.stream = c.current :: c.advance.stream := by
  obtain ⟨t, rest, here⟩ := List.exists_cons_of_ne_nil (c.ahead_ne_nil inside)
  simp [stream, current, advance, here]

theorem previousEnd_advance {c : Cursor} (inside : c.kind ≠ .eof) :
    c.advance.previousEnd = c.current.span.stop := by
  obtain ⟨t, rest, here⟩ := List.exists_cons_of_ne_nil (c.ahead_ne_nil inside)
  simp [current, advance, here]

namespace Abreast

variable {b b' : Token} {c d : Cursor}

/-- Both places are before the tokens that stop readers, or else at the same token and further on
again abreast. -/
theorem next (h : Abreast b b' c d) : c.current = b ∧ d.current = b' ∨
    c.current = d.current ∧ c.kind ≠ .eof ∧ Abreast b b' c.advance d.advance := by
  obtain ⟨front, rest, rest', here, there, inside⟩ := h.streams
  have first := c.head_stream
  have second := d.head_stream
  cases front with
  | nil =>
    rw [here] at first
    rw [there] at second
    exact .inl ⟨(Option.some.inj first).symm, (Option.some.inj second).symm⟩
  | cons t front =>
    obtain ⟨sound, others⟩ := List.forall_mem_cons.mp inside
    rw [here] at first
    rw [there] at second
    cases Option.some.inj first
    have same : c.current = d.current := Option.some.inj second
    have inside' : d.kind ≠ .eof := by rwa [kind, ← same]
    rw [stream_eq_cons sound] at here
    rw [stream_eq_cons inside'] at there
    refine .inr ⟨same, sound, h.bars, ?_, front, rest, rest', ?_, ?_, others⟩
    · rw [previousEnd_advance sound, previousEnd_advance inside', same]
    · exact (List.cons.inj here).2
    · exact (List.cons.inj there).2

theorem kind_eq (h : Abreast b b' c d) : c.kind = d.kind := by
  obtain ⟨here, there⟩ | ⟨same, _⟩ := h.next
  · rw [kind, kind, here, there, h.bars.kind]
  · rw [kind, kind, same]

theorem position_eq (h : Abreast b b' c d) : c.position = d.position := by
  obtain ⟨here, there⟩ | ⟨same, _⟩ := h.next
  · rw [position, position, here, there, h.bars.span]
  · rw [position, position, same]

theorem current_eq (h : Abreast b b' c d) (same : b = b') : c.current = d.current := by
  obtain ⟨here, there⟩ | ⟨equal, _⟩ := h.next
  · rw [here, there, same]
  · exact equal

/-- A token of another kind is the same on both sides, and can be gone over. -/
theorem step (h : Abreast b b' c d) (free : c.kind.bars = false) :
    c.current = d.current ∧ Abreast b b' c.advance d.advance := by
  obtain ⟨here, _⟩ | ⟨same, _, further⟩ := h.next
  · rw [kind, here, h.bars.bars] at free
    cases free
  · exact ⟨same, further⟩

end Abreast
end Cursor

namespace Kind

/-- The kinds before the first that can stop a reader. -/
def free (kinds : List Kind) : List Kind := kinds.takeWhile (!bars ·)

theorem free_append (front : List Kind) {k : Kind} (stop : k.bars = true) (rest : List Kind) :
    free (front ++ k :: rest) = free front := by
  induction front with
  | nil => simp [free, stop]
  | cons first front ih =>
    unfold free at ih ⊢
    cases first.bars <;> simp_all [List.takeWhile_cons]

theorem skipDotted_free (kinds : List Kind) :
    Parser.skipDotted (free kinds) = free (Parser.skipDotted kinds) := by
  fun_induction Parser.skipDotted kinds with
  | case1 kinds ih => simpa [free, bars, Parser.skipDotted] using ih
  | case2 kinds other =>
    obtain ⟨rest, whole⟩ : free kinds <+: kinds := List.takeWhile_prefix _
    unfold Parser.skipDotted
    split
    · rename_i front here
      rw [here] at whole
      exact (other _ whole.symm).elim
    · rfl

theorem skipBrackets_free (kinds : List Kind) :
    Parser.skipBrackets (free kinds) = free (Parser.skipBrackets kinds) := by
  fun_induction Parser.skipBrackets kinds with
  | case1 kinds ih => simpa [free, bars, Parser.skipBrackets] using ih
  | case2 kinds other =>
    obtain ⟨rest, whole⟩ : free kinds <+: kinds := List.takeWhile_prefix _
    unfold Parser.skipBrackets
    split
    · rename_i front here
      rw [here] at whole
      exact (other _ whole.symm).elim
    · rfl

theorem head_free (kinds : List Kind) :
    ((free kinds).head? == some .identifier) = (kinds.head? == some .identifier) := by
  cases kinds with
  | nil => rfl
  | cons first rest => cases first <;> rfl

/-- The look ahead for a local declaration does not go over anything that can stop a reader. -/
theorem startsDeclaration_free (kinds : List Kind) :
    Parser.startsDeclaration (free kinds) = Parser.startsDeclaration kinds := by
  cases kinds with
  | nil => rfl
  | cons first rest =>
    cases first with
    | identifier =>
      change ((Parser.skipBrackets (Parser.skipDotted (free rest))).head? == some .identifier) = _
      rw [skipDotted_free, skipBrackets_free, head_free]
      rfl
    | _ => rfl

end Kind

theorem Cursor.free_ahead (c : Cursor) :
    Kind.free (c.ahead.map (·.kind)) = Kind.free (c.stream.map (·.kind)) := by
  rw [stream, List.map_append, List.map_singleton, Kind.free_append _ (by rw [c.ending_eof]; rfl)]

theorem Cursor.Abreast.startsDeclaration_eq {b b' : Token} {c d : Cursor} (h : Abreast b b' c d) :
    Parser.startsDeclaration (c.ahead.map (·.kind)) =
      Parser.startsDeclaration (d.ahead.map (·.kind)) := by
  obtain ⟨front, rest, rest', here, there, _⟩ := h.streams
  have stop : b'.kind.bars = true := by rw [h.bars.kind, h.bars.bars]
  rw [← Kind.startsDeclaration_free, ← Kind.startsDeclaration_free (d.ahead.map _), c.free_ahead,
    d.free_ahead, here, there, List.map_append, List.map_append, List.map_cons, List.map_cons,
    Kind.free_append _ h.bars.bars, Kind.free_append _ stop]

/-- Two streams that are the same up to a token that stops readers. The second may have another
number in its place: the first reader then fails there, or the two do not come that far. -/
def Lockstep.abreast (b b' : Token) : Lockstep where
  move := .stay
  level := Cursor.Abreast b b'
  fails e _ e' _ := e.Honest ∧ (b = b' → e' = e)
  stops e _ := b.kind = .number ∧ e = ⟨.badNumber b.value, b.span.start⟩
  kind_eq level := level.kind_eq.symm
  position_eq level := level.position_eq.symm
  previousEnd_eq level := level.ended.symm
  step level free := by
    obtain ⟨same, further⟩ := level.step free
    exact ⟨same.symm, further⟩
  number := by
    intro c d level number
    obtain ⟨here, _⟩ | ⟨same, _, further⟩ := level.next
    · rw [Cursor.kind, here] at number
      rw [Cursor.position, here]
      exact .inl ⟨level.bars.valueless number, number, rfl⟩
    · refine .inr ⟨same.symm, further, fun bad => ⟨?_, fun _ => rfl⟩⟩
      rintro text ⟨⟩
      exact bad
  declares level := level.startsDeclaration_eq.symm
  unexpected := by
    intro c d level
    refine ⟨by nofun, fun same => ?_⟩
    rw [Cursor.unexpected, Cursor.unexpected, level.current_eq same, level.position_eq]
  expected := by
    intro c d level message
    refine ⟨by nofun, fun same => ?_⟩
    rw [Cursor.expected, Cursor.expected, level.current_eq same, level.position_eq]
  throws _ proper := ⟨fun text bad => absurd bad (proper text), fun _ => rfl⟩

theorem Cursor.stream_ofTokens (tokens : List Token) (file : String) :
    ∃ tail, (ofTokens tokens file).stream = tokens ++ tail := by
  unfold ofTokens
  cases final : tokens.getLast? with
  | none =>
    rw [List.getLast?_eq_none_iff.mp final]
    exact ⟨_, rfl⟩
  | some last =>
    obtain ⟨front, rfl⟩ := List.getLast?_eq_some_iff.mp final
    dsimp only
    split
    · exact ⟨[], by simp [stream]⟩
    · exact ⟨[_], rfl⟩

theorem Cursor.previousEnd_ofTokens (tokens : List Token) (file : String) :
    (ofTokens tokens file).previousEnd = ⟨0, file⟩ := by
  unfold ofTokens
  split
  · rfl
  · dsimp only
    split <;> rfl

theorem Cursor.abreast_ofTokens {b b' : Token} (bars : b.Bars b') {front : List Token}
    (inside : ∀ t ∈ front, t.kind ≠ .eof) (rest rest' : List Token) (file : String) :
    Abreast b b' (ofTokens (front ++ b :: rest) file) (ofTokens (front ++ b' :: rest') file) := by
  obtain ⟨tail, here⟩ := stream_ofTokens (front ++ b :: rest) file
  obtain ⟨tail', there⟩ := stream_ofTokens (front ++ b' :: rest') file
  refine ⟨bars, ?_, front, rest ++ tail, rest' ++ tail', ?_, ?_, inside⟩
  · rw [previousEnd_ofTokens, previousEnd_ofTokens]
  · rw [here, List.append_assoc, List.cons_append]
  · rw [there, List.append_assoc, List.cons_append]

/-- A cursor is abreast of itself, with the first ending of its stream to stop it. -/
theorem Cursor.exists_abreast (c : Cursor) : ∃ b : Token, b.kind = .eof ∧ c.Abreast b b c := by
  have present : (c.stream.find? fun t => decide (t.kind = .eof)).isSome = true := by
    simp [stream, c.ending_eof]
  obtain ⟨b, found⟩ := Option.isSome_iff_exists.mp present
  obtain ⟨ending, front, rest, whole, before⟩ := List.find?_eq_some_iff_append.mp found
  have sort : b.kind = .eof := by simpa using ending
  refine ⟨b, sort, ⟨rfl, rfl, by rw [sort]; rfl, by simp [sort]⟩, rfl, front, rest, rest, whole,
    whole, ?_⟩
  intro t member
  simpa using before t member

/-- A unit that is read has all its places from the stream. -/
theorem Parser.compilationUnit_stays (g : Grammar) {c c' : Cursor} {u : CompilationUnit}
    (run : (compilationUnit g).run c = .ok u c') : u.move .stay = u := by
  obtain ⟨b, _, level⟩ := c.exists_abreast
  have ends := compilationUnit_inStep (L := .abreast b b) g c c level
  rw [run] at ends
  cases ends with
  | ok same _ => exact same.symm

/-- A number is never called bad that has a value. -/
theorem CompilationUnit.ofTokens_honest {tokens : List Token} {file : String} {e : Error}
    (failed : ofTokens tokens file = .error e) : e.Honest := by
  obtain ⟨b, ending, level⟩ := (Cursor.ofTokens tokens file).exists_abreast
  have ends := Parser.compilationUnit_inStep (L := .abreast b b) .standard _ _ level
  unfold ofTokens at failed
  generalize (Parser.compilationUnit .standard).run (.ofTokens tokens file) = run at ends failed
  cases ends with
  | ok _ _ => cases failed
  | error together =>
    cases failed
    exact together.1
  | stopped alone => cases ending.symm.trans alone.1

/-- If the tokens before a number can be followed by one, and the number has no value, then it is
where reading ends. What is behind it does not matter. -/
theorem CompilationUnit.ofTokens_stops {before : List Token} {number : Token} {tail : List Kind}
    (sort : number.kind = .number)
    (viable : Derives (.symbol .unit) (before.map (·.kind) ++ .number :: tail))
    (valued : ∀ t ∈ before, t.kind = .number → (Number.value? t.value).isSome = true)
    (bad : Number.value? number.value = none) (after : List Token) (file : String) :
    ofTokens (before ++ number :: after) file =
      .error ⟨.badNumber number.value, number.span.start⟩ := by
  let zero : Token := { number with value := "0" }
  let others : List Token := before ++ zero :: tail.map fun k => ⟨k, "0", .unknown⟩
  have kinds : others.map (·.kind) = before.map (·.kind) ++ .number :: tail := by
    simp [others, zero, sort, Function.comp_def]
  have inside : ∀ t ∈ others, t.kind ≠ .eof := by
    intro t member ended
    have known := viable.plain_or_star t.kind (by rw [← kinds]; exact List.mem_map_of_mem member)
    simp [ended, Kind.isPlain] at known
  -- with zero in place of the number, and of all behind it, the tokens are read as a unit
  have accepted : ∃ u, ofTokens others file = .ok u := by
    have counted : Token.beforeEnd others = others :=
      List.takeWhile_eq_self_iff.mpr (by simpa using inside)
    have zeroValue : (Number.value? "0").isSome = true := by decide
    rw [exists_ofTokens_iff, counted, Token.covers_marks_iff, kinds]
    refine ⟨?_, viable⟩
    intro t member number
    simp only [others, List.mem_append, List.mem_cons, List.mem_map] at member
    obtain own | rfl | ⟨k, _, rfl⟩ := member
    · exact valued t own number
    · exact zeroValue
    · exact zeroValue
  have bars : number.Bars zero := ⟨rfl, rfl, by rw [sort]; rfl, fun _ => bad⟩
  have level := Cursor.abreast_ofTokens bars
    (fun t member => inside t (List.mem_append_left _ member)) after
    (tail.map fun k => ⟨k, "0", .unknown⟩) file
  have ends := Parser.compilationUnit_inStep (L := .abreast number zero) .standard _ _ level
  obtain ⟨u, read⟩ := accepted
  unfold ofTokens at read ⊢
  cases ran : (Parser.compilationUnit .standard).run (.ofTokens others file) with
  | error e c => rw [ran] at read; cases read
  | ok v d =>
    have ended := (Parser.compilationUnit_between _ ran).2
    rw [ran] at ends
    generalize (Parser.compilationUnit .standard).run (.ofTokens (before ++ number :: after) file) =
      run at ends
    cases ends with
    | stopped alone => rw [alone.2]
    | ok _ level =>
      -- the other reader is at an ending, which is behind the number
      rw [← level.kind_eq] at ended
      obtain ⟨here, _⟩ | ⟨_, inside, _⟩ := level.next
      · rw [Cursor.kind, here, sort] at ended
        cases ended
      · exact absurd ended inside

end Javelet
