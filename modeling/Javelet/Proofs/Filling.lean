import Javelet.Proofs.Spelling

namespace Javelet

/-- A text that makes no token. A line comment goes up to the line break behind it or, where the
text closes its source, to the end; a block comment ends with its first `*/`. -/
inductive Filler (closes : Prop) : List Char → Prop
  | nil : Filler closes []
  | blank {c : Char} {rest : List Char} : Text.isBlank c = true → Filler closes rest →
      Filler closes (c :: rest)
  | line (body : List Char) {rest : List Char} : '\n' ∉ body → Filler closes ('\n' :: rest) →
      Filler closes ('/' :: '/' :: body ++ '\n' :: rest)
  | lastLine (body : List Char) : closes → '\n' ∉ body → Filler closes ('/' :: '/' :: body)
  | block (body : List Char) {rest : List Char} : ¬ ['*', '/'] <:+: body ++ ['*'] →
      Filler closes rest → Filler closes ('/' :: '*' :: body ++ '*' :: '/' :: rest)

namespace Filler

theorem mono {closes closes' : Prop} (weaker : closes → closes') {gap : List Char}
    (filler : Filler closes gap) : Filler closes' gap := by
  induction filler with
  | nil => exact .nil
  | blank own _ ih => exact .blank own ih
  | line body single _ ih => exact .line body single ih
  | lastLine body here single => exact .lastLine body (weaker here) single
  | block body first _ ih => exact .block body first ih

theorem blanks {closes : Prop} {front gap : List Char}
    (blank : ∀ c ∈ front, Text.isBlank c = true) (filler : Filler closes gap) :
    Filler closes (front ++ gap) := by
  induction front with
  | nil => exact filler
  | cons c front ih =>
    obtain ⟨own, others⟩ := List.forall_mem_cons.mp blank
    exact .blank own (ih others)

end Filler

namespace Lexeme

/-- The star and slash that end a comment stand nowhere in it before, also not half in its body. -/
theorem not_infix_cons {c : Char} {body : List Char} :
    ¬ ['*', '/'] <:+: c :: body ++ ['*'] ↔
      ¬ (c = '*' ∧ body.head? = some '/') ∧ ¬ ['*', '/'] <:+: body ++ ['*'] := by
  have front : ['*', '/'] <+: c :: body ++ ['*'] ↔ c = '*' ∧ body.head? = some '/' := by
    cases body with
    | nil => simp [List.cons_prefix_cons]
    | cons d body => simp [List.cons_prefix_cons, eq_comm]
  rw [List.cons_append, List.infix_cons_iff, ← List.cons_append, front, not_or]

theorem commentEnd?_eq_some {body : List Char} (first : ¬ ['*', '/'] <:+: body ++ ['*'])
    (rest : List Char) : commentEnd? (body ++ '*' :: '/' :: rest) = some (body.length + 2) := by
  induction body with
  | nil => rfl
  | cons c body ih =>
    obtain ⟨early, later⟩ := not_infix_cons.mp first
    have unended : ∀ tail, c = '*' → body ++ '*' :: '/' :: rest = '/' :: tail → False := by
      intro tail star slash
      refine early ⟨star, ?_⟩
      cases body with
      | nil => cases slash
      | cons d body => cases slash; rfl
    rw [List.cons_append, commentEnd?, ih later]
    · rfl
    · exact unended

theorem exists_of_commentEnd? {cs : List Char} {n : Nat} (found : commentEnd? cs = some n) :
    ∃ body rest, cs = body ++ '*' :: '/' :: rest ∧ n = body.length + 2 ∧
      ¬ ['*', '/'] <:+: body ++ ['*'] := by
  induction cs using commentEnd?.induct generalizing n with
  | case1 rest =>
    cases found
    exact ⟨[], rest, rfl, rfl, by decide⟩
  | case2 c cs unended ih =>
    rw [commentEnd?] at found
    · obtain ⟨m, inner, rfl⟩ := Option.map_eq_some_iff.mp found
      obtain ⟨body, rest, rfl, rfl, first⟩ := ih inner
      refine ⟨c :: body, rest, rfl, by simp, not_infix_cons.mpr ⟨?_, first⟩⟩
      rintro ⟨star, slash⟩
      cases body with
      | nil => cases slash
      | cons d body => cases slash; exact unended _ star rfl
    · exact unended
  | case3 => cases found

theorem first?_block {body : List Char} (first : ¬ ['*', '/'] <:+: body ++ ['*'])
    (rest : List Char) :
    first? ('/' :: '*' :: body ++ '*' :: '/' :: rest) = some (.blockComment, body.length + 4) := by
  refine first?_eq [word, number, blank, quoted, lineComment] _ rfl ?_ ?_
  · simp only [List.forall_mem_cons]
    exact ⟨rfl, width?_number_none rfl _, rfl, rfl, rfl, List.forall_mem_nil _⟩
  · simp only [List.cons_append, width?, commentEnd?_eq_some first]
    rfl

theorem first?_line {body : List Char} (single : '\n' ∉ body) (rest : List Char)
    (stops : ∀ c ∈ rest.head?, c = '\n') :
    first? ('/' :: '/' :: body ++ rest) = some (.lineComment, body.length + 2) := by
  have run : (body ++ rest).takeWhile (· ≠ '\n') = body := by
    apply takeWhile_stops
    · intro c member
      exact decide_eq_true fun newline => single (newline ▸ member)
    · intro c first
      rw [stops c first]
      rfl
  refine first?_eq [word, number, blank, quoted] _ rfl ?_ ?_
  · simp only [List.forall_mem_cons]
    exact ⟨rfl, width?_number_none rfl _, rfl, rfl, List.forall_mem_nil _⟩
  · simp only [List.cons_append, width?, run, Nat.add_comm]

end Lexeme

namespace Token

/-- What makes no token only moves the place where scanning goes on. -/
theorem scanFrom_skip {lexeme : Lexeme} (file : String) (byte : Nat) (piece rest : List Char)
    (first : Lexeme.first? (piece ++ rest) = some (lexeme, piece.length))
    (silent : lexeme.token? piece = none) :
    scanFrom file byte (piece ++ rest) = scanFrom file (byte + Text.byteLength piece) rest := by
  rw [scanFrom_eq_append file byte first, List.take_left, List.drop_left, ofLexeme?, silent]
  exact congrFun Except.map_id _

/-- A blank may be passed over by itself, although scanning takes a run of them at once. -/
theorem scanFrom_blank (file : String) (byte : Nat) {c : Char} (blank : Text.isBlank c = true)
    (cs : List Char) :
    scanFrom file byte (c :: cs) = scanFrom file (byte + c.utf8Size) cs := by
  obtain ⟨run, rest, rfl, _, blanks, stops⟩ := Lexeme.exists_run Text.isBlank cs
  have all : ∀ d ∈ c :: run, Text.isBlank d = true := List.forall_mem_cons.mpr ⟨blank, blanks⟩
  have whole := scanFrom_skip file byte (c :: run) rest
    (Lexeme.first?_blank (List.cons_ne_nil c run) all stops) rfl
  rw [List.cons_append] at whole
  rw [whole, Text.byteLength_cons, ← Nat.add_assoc]
  cases run with
  | nil => rfl
  | cons d run =>
    have first := Lexeme.first?_blank (List.cons_ne_nil d run) blanks stops
    exact (scanFrom_skip file _ (d :: run) rest first rfl).symm

/-- Scanning passes over a filler. One that closes its source has nothing behind it. -/
theorem scanFrom_filler {closes : Prop} {gap : List Char} (filler : Filler closes gap)
    {rest : List Char} (ends : closes → rest = []) (file : String) (byte : Nat) :
    scanFrom file byte (gap ++ rest) = scanFrom file (byte + Text.byteLength gap) rest := by
  induction filler generalizing byte with
  | nil => rfl
  | @blank c gap own _ ih =>
    rw [List.cons_append, scanFrom_blank file byte own, ih, Text.byteLength_cons, Nat.add_assoc]
  | @line body gap single _ ih =>
    have first := Lexeme.first?_line single ('\n' :: gap ++ rest) fun _ newline => by
      cases newline; rfl
    have step := scanFrom_skip file byte ('/' :: '/' :: body) _ first rfl
    rw [List.append_assoc, step, ih, Text.byteLength_append, Nat.add_assoc]
  | lastLine body here single =>
    rw [ends here]
    exact scanFrom_skip file byte _ [] (Lexeme.first?_line single [] nofun) rfl
  | @block body gap first _ ih =>
    have found := Lexeme.first?_block first (gap ++ rest)
    have step := scanFrom_skip file byte ('/' :: '*' :: body ++ ['*', '/']) (gap ++ rest)
      (by simpa using found) rfl
    have split : '/' :: '*' :: body ++ '*' :: '/' :: gap =
        ('/' :: '*' :: body ++ ['*', '/']) ++ gap := by simp
    rw [split, List.append_assoc, step, ih, Text.byteLength_append _ gap, Nat.add_assoc]

end Token
end Javelet
