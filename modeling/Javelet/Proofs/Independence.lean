import Javelet.Proofs.Naturality
import Javelet.Proofs.Revision

/-! What a check does not depend on. The layout of a source shows in the places of errors and in
nothing else. The values of local variables show in the derivation, but never make a check fail that
did not, nor fail in another way. -/
namespace Javelet
open Run (SameAnswer)

def Declarator.bare (d : Declarator) : Declarator := { d with value := none }

/-- A unit without the values of its local variables. Two units with the same bare one differ in
such values only, present or absent. -/
def CompilationUnit.bare (u : CompilationUnit) : CompilationUnit := u.revise Declarator.bare .stay

theorem Declarator.bare_keeps : Declarator.Keeps False Declarator.bare :=
  ⟨fun _ => rfl, False.elim⟩

/-- Whatever values the local variables of a unit have, the check ends well or it ends in the same
error at the same place. -/
theorem values_never_fatal (signatures : Signatures) (u u' : CompilationUnit)
    (same : u.bare = u'.bare) :
    (∃ v v', Verdict.ofUnit signatures u = .ok v ∧ Verdict.ofUnit signatures u' = .ok v') ∨
    ∃ e, Verdict.ofUnit signatures u = .error e ∧ Verdict.ofUnit signatures u' = .error e := by
  have left := Verdict.ofUnit_revise (r := .stay) Declarator.bare_keeps signatures u
  have right := Verdict.ofUnit_revise (r := .stay) Declarator.bare_keeps signatures u'
  rw [show u.revise Declarator.bare .stay = u'.revise Declarator.bare .stay from same] at left
  have both : SameAnswer Eq (fun _ _ => True) (Verdict.ofUnit signatures u)
      (Verdict.ofUnit signatures u') := by
    apply left.join right
    · rintro e f _ rfl moved
      exact moved
    · intros
      trivial
  generalize Verdict.ofUnit signatures u = answer at both
  generalize Verdict.ofUnit signatures u' = answer' at both
  cases both with
  | ok _ => exact .inl ⟨_, _, rfl, rfl⟩
  | error equal => exact .inr ⟨_, rfl, by rw [equal]⟩

/-- A name that is bound twice is refused at the same place with values that are of the wrong type
or of none, and without values. -/
theorem values_never_fatal_sample :
    let declare (place : UInt32) (value : Option Expression) : Statement :=
      .declaration ⟨⟨.primitive .int, .unknown⟩, [⟨"x", value, .unknown⟩], ⟨⟨place, ""⟩, .unknown⟩⟩
    let unit (first second : Option Expression) : CompilationUnit :=
      ⟨none, [], [⟨"C", [], [], [.procedure "m" [] [declare 20 first, .block [declare 30 second]
        .unknown]], [], .unknown⟩], .unknown⟩
    let u := unit (some (.boolean true .unknown)) (some (.name "y" .unknown))
    let e : Error := ⟨.variableDeclared "x" "int", ⟨30, ""⟩⟩
    let table : Signatures := ⟨[("C.m", .void)], [("C.m", [])]⟩
    u.bare = (unit none none).bare ∧ Verdict.ofUnit table u = .error e ∧
      Verdict.ofUnit table (unit none none) = .error e := by
  intro declare unit u e table
  have same : u.bare = (unit none none).bare := rfl
  have failed : Verdict.ofUnit table u = .error e := rfl
  obtain ⟨v, v', well, _⟩ | ⟨e', left, right⟩ := values_never_fatal table u (unit none none) same
  · rw [failed] at well
    cases well
  · rw [failed, Except.error.injEq] at left
    rw [← left] at right
    exact ⟨same, failed, right⟩

theorem Error.cause_of_forget (e f g : Error) (first : g = e.move .forget)
    (second : g = f.move .forget) : e.cause = f.cause := by
  have causes := congrArg Error.cause (first.symm.trans second)
  exact causes

theorem Cursor.move_ofTokens (tokens : List Token) (file : String) :
    (ofTokens tokens file).move .forget =
      ofTokens (tokens.map (Token.move .forget)) Position.unknown.file := by
  unfold ofTokens
  rw [List.getLast?_map]
  cases tokens.getLast? with
  | none => rfl
  | some last =>
    dsimp only [Option.map_some]
    by_cases closed : last.kind = .eof
    · rw [dif_pos closed, dif_pos (show (last.move .forget).kind = .eof from closed)]
      simp only [move, List.map_dropLast]
      rfl
    · rw [dif_neg closed, dif_neg (show ¬(last.move .forget).kind = .eof from closed)]
      rfl

/-- A stream with its places moved is read to the unit with its places moved. -/
theorem CompilationUnit.ofTokens_moves {r : Relocation} {tokens tokens' : List Token}
    {file file' : String}
    (moved : (Cursor.ofTokens tokens file).move r = .ofTokens tokens' file') :
    SameAnswer (fun e e' => e' = e.move r) (fun u u' => u' = u.move r)
      (ofTokens tokens file) (ofTokens tokens' file') := by
  have ends :=
    Parser.compilationUnit_inStep (L := .moved r) .standard (.ofTokens tokens file) _ rfl
  rw [moved] at ends
  unfold ofTokens
  generalize (Parser.compilationUnit .standard).run (.ofTokens tokens file) = left at ends
  generalize (Parser.compilationUnit .standard).run (.ofTokens tokens' file') = right at ends
  cases ends with
  | ok same _ => exact .ok same
  | error same => exact .error same
  | stopped never => exact never.elim

/-- A stream of tokens without their places is read to a unit without its places. -/
theorem CompilationUnit.ofTokens_forget (tokens : List Token) (file : String) :
    SameAnswer (fun e e' => e' = e.move .forget) (fun u u' => u' = u.move .forget)
      (ofTokens tokens file)
      (ofTokens (tokens.map (Token.move .forget)) Position.unknown.file) :=
  ofTokens_moves (Cursor.move_ofTokens tokens file)

/-- Tokens of the same kinds and values are read to units that differ in places only, or not at all
for the same cause. -/
theorem CompilationUnit.ofTokens_same {tokens tokens' : List Token} (file file' : String)
    (same : tokens.map (fun t => (t.kind, t.value)) = tokens'.map fun t => (t.kind, t.value)) :
    SameAnswer (fun e e' => e.cause = e'.cause) (fun u u' => u.erase = u'.erase)
      (ofTokens tokens file) (ofTokens tokens' file') := by
  have moved : tokens.map (Token.move .forget) = tokens'.map (Token.move .forget) := by
    have images := congrArg (List.map fun p : Kind × String => Token.mk p.1 p.2 .unknown) same
    rwa [List.map_map, List.map_map] at images
  have left := ofTokens_forget tokens file
  have right := ofTokens_forget tokens' file'
  rw [moved] at left
  apply left.join right
  · exact Error.cause_of_forget
  · rintro u u' _ rfl moved
    rw [← move_forget, ← move_forget, moved]

theorem Signatures.ofUnit_same {u u' : CompilationUnit} (same : u.erase = u'.erase) :
    SameAnswer (fun e e' => e.cause = e'.cause) Eq (ofUnit u) (ofUnit u') := by
  have left := ofUnit_revise (r := .forget) u (Declarator.move .forget)
  have right := ofUnit_revise (r := .forget) u' (Declarator.move .forget)
  rw [← u.move_forget, ← u'.move_forget] at same
  rw [show u.revise (Declarator.move .forget) .forget = u'.move .forget from same] at left
  apply left.join right
  · exact Error.cause_of_forget
  · rintro s _ _ rfl moved
    exact moved.symm

theorem Declarator.move_keeps (r : Relocation) : Declarator.Keeps True (Declarator.move r) := by
  constructor
  · intro d
    rfl
  · intro _ d
    cases value : d.value with
    | none => simp [move, value]
    | some e => cases e <;> simp [move, value, Expression.move, Expression.erase]

theorem Verdict.ofUnit_same (signatures : Signatures) {u u' : CompilationUnit}
    (same : u.erase = u'.erase) :
    SameAnswer (fun e e' => e.cause = e'.cause) Eq (ofUnit signatures u)
      (ofUnit signatures u') := by
  have left := ofUnit_revise (r := .forget) (Declarator.move_keeps .forget) signatures u
  have right := ofUnit_revise (r := .forget) (Declarator.move_keeps .forget) signatures u'
  rw [← u.move_forget, ← u'.move_forget] at same
  rw [show u.revise (Declarator.move .forget) .forget = u'.move .forget from same] at left
  apply left.join right
  · exact Error.cause_of_forget
  · intro v v' w kept kept'
    rw [← kept trivial, kept' trivial]

/-- Two sources whose tokens have the same kinds and values, wherever they stand, declare the same
and get the same verdict with the same tree, or end in errors of the same cause, which is to say of
the same name, message and tip. -/
theorem layout_never_matters (source source' file file' : String) {tokens tokens' : List Token}
    (scanned : Token.scan source file = .ok tokens)
    (scanned' : Token.scan source' file' = .ok tokens')
    (same : tokens.map (fun t => (t.kind, t.value)) = tokens'.map fun t => (t.kind, t.value)) :
    (∃ checked, check source file = .ok checked ∧ check source' file' = .ok checked) ∨
    ∃ cause position position', check source file = .error ⟨cause, position⟩ ∧
      check source' file' = .error ⟨cause, position'⟩ := by
  have answers : SameAnswer (fun e e' => e.cause = e'.cause) Eq (check source file)
      (check source' file') := by
    unfold check CompilationUnit.ofSource
    rw [scanned, scanned']
    apply (CompilationUnit.ofTokens_same file file' same).bind
    intro u u' erased
    apply (Signatures.ofUnit_same erased).bind
    rintro signatures _ rfl
    apply (Verdict.ofUnit_same signatures erased).bind
    rintro verdict _ rfl
    exact .ok rfl
  generalize check source file = answer at answers
  generalize check source' file' = answer' at answers
  cases answers with
  | ok equal => exact .inl ⟨_, rfl, by rw [equal]⟩
  | error causes => exact .inr ⟨_, _, _, rfl, by rw [causes]⟩

/-- One source in a row, the other with blanks, line breaks and comments. -/
theorem layout_never_matters_sample :
    let source := "class C\x7bC m()\x7bint x=m;\x7d\x7d"
    let source' := "class C /*\x7b*/ \x7b\nC m() \x7bint x = m;\x7d //\x7d\n\x7d"
    ∃ tokens tokens', Token.scan source "a" = .ok tokens ∧ Token.scan source' "b" = .ok tokens' ∧
      tokens.map (fun t => (t.kind, t.value)) = tokens'.map (fun t => (t.kind, t.value)) ∧
      ((∃ checked, check source "a" = .ok checked ∧ check source' "b" = .ok checked) ∨
      ∃ cause position position', check source "a" = .error ⟨cause, position⟩ ∧
        check source' "b" = .error ⟨cause, position'⟩) := by
  have well : (Token.scan "class C\x7bC m()\x7bint x=m;\x7d\x7d" "a").isOk = true := by cbv
  have images : (Token.scan "class C\x7bC m()\x7bint x=m;\x7d\x7d" "a").map
        (List.map fun t => (t.kind, t.value)) =
      (Token.scan "class C /*\x7b*/ \x7b\nC m() \x7bint x = m;\x7d //\x7d\n\x7d" "b").map
        (List.map fun t => (t.kind, t.value)) := by cbv
  obtain ⟨tokens, scanned⟩ := Run.exists_of_isOk well
  rw [scanned] at images
  cases scanned' : Token.scan
      "class C /*\x7b*/ \x7b\nC m() \x7bint x = m;\x7d //\x7d\n\x7d" "b" with
  | error e =>
    rw [scanned'] at images
    cases images
  | ok tokens' =>
    rw [scanned'] at images
    have same := Except.ok.inj images
    exact ⟨tokens, tokens', scanned, scanned', same,
      layout_never_matters _ _ "a" "b" scanned scanned' same⟩

end Javelet
