import Javelet.Checked
import Javelet.Proofs.Exactness
import Javelet.Proofs.Partition

namespace Javelet

theorem Mark.mem_listed {parts : List (List Mark)} {part : List Mark} {m : Mark}
    (member : part ∈ parts) (own : m ∈ part) : m ∈ listed parts := by
  cases parts with
  | nil => cases member
  | cons first others =>
    rw [listed, List.mem_append]
    obtain rfl | later := List.mem_cons.mp member
    · exact .inl own
    · exact .inr (List.mem_flatMap.mpr ⟨part, later, List.mem_cons_of_mem _ own⟩)

/-- Apart from strings and the ending, what the scanner finds is spelled as its mark says. -/
theorem Token.mark_spelled_of_scan {source file : String} {tokens : List Token}
    (scanned : scan source file = .ok tokens) :
    ∀ t ∈ tokens, t.kind ≠ .string → t.kind ≠ .eof → t.mark.Spelled := by
  obtain ⟨l, _, rfl⟩ := exists_layout scanned
  obtain ⟨spelled, all, each⟩ := l.tokens_spelled file 0
  rw [all]
  intro t member plain inside
  obtain own | ending := List.mem_append.mp member
  · obtain ⟨before, s, after, _, rfl⟩ := each t own
    have written := spelledBy_text s file (0 + Text.byteLength before)
    have text := written.value
    rw [if_neg plain] at text
    rw [text] at written
    unfold mark
    split <;> rename_i kind
    case h_1 => simpa [Mark.Spelled] using written.identifier.mp kind
    case h_2 => exact written.number.mp kind
    case h_7 => exact absurd kind plain
    case h_8 => exact absurd kind inside
    all_goals trivial
  · rw [List.mem_singleton] at ending
    rw [ending] at inside
    exact absurd rfl inside

theorem CompilationUnit.marks_spelled {source file : String} {u : CompilationUnit}
    (parsed : ofSource source file = .ok u) : ∀ c ∈ u.classes, ∀ m ∈ c.marks, m.Spelled := by
  obtain ⟨tokens, scanned, read⟩ := (Run.except_bind_ok_iff ..).mp parsed
  have covered := (exists_ofTokens_iff tokens file).mp ⟨u, read⟩
  intro c member m own
  have counted := marks_of_ofTokens read c member own
  obtain ⟨t, here, rfl⟩ := List.mem_map.mp counted
  have listed : t ∈ tokens := (List.takeWhile_sublist _).mem here
  have sort := covered.1.plain_or_star _ (List.mem_map_of_mem counted)
  rw [Token.mark_kind] at sort
  apply Token.mark_spelled_of_scan scanned t listed
  · intro string
    simp [string, Kind.isPlain] at sort
  · intro ending
    simp [ending, Kind.isPlain] at sort

end Javelet
