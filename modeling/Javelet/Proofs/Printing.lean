import Javelet.Proofs.Derivable
import Javelet.Proofs.Reparsing
import Javelet.Proofs.Weaving

namespace Javelet

theorem intercalate_nameParts (name : String) : ".".intercalate (nameParts name) = name := by
  have whole : String.toList ∘ String.ofList = id := by
    funext cs
    exact String.toList_ofList
  rw [← String.toList_inj, String.toList_intercalate, nameParts, List.map_map, whole, List.map_id]
  exact List.intercalate_splitOn '.'

/-- A dotted name has a first part, and is made of its parts. -/
theorem exists_nameParts (name : String) :
    ∃ first others, nameParts name = first :: others ∧
      ".".intercalate (first :: others) = name := by
  obtain ⟨first, others, parts⟩ := List.exists_cons_of_ne_nil
    (show nameParts name ≠ [] by simp [nameParts, List.splitOn_ne_nil])
  refine ⟨first, others, parts, ?_⟩
  rw [← parts, intercalate_nameParts]

/-- A class that has the members of another up to places is the other up to places. -/
theorem Class.erase_of_members {c : Class} {members : List Member} (span : Span)
    (same : members.map Member.erase = c.members.map Member.erase) :
    Class.erase ⟨c.name, c.modifiers, members.filterMap Member.field?,
      members.filterMap Member.method?, members.filterMap Member.nested?, span⟩ = c.erase := by
  have fields := Member.filterMap_map Member.field?_erase
  have methods := Member.filterMap_map Member.method?_erase
  have nested := Member.filterMap_map Member.nested?_erase
  have own : c.erase = ⟨c.name, c.modifiers, c.fields.map Field.erase, c.methods.map Method.erase,
      c.nested.map Class.erase, .unknown⟩ := by
    obtain ⟨name, modifiers, fields, methods, nested, span⟩ := c
    rw [erase, eraseAll_eq_map]
  rw [own, erase, eraseAll_eq_map, ← fields, ← methods, ← nested, same, fields, methods, nested,
    filterMap_field?_members, filterMap_method?_members, filterMap_nested?_members]

namespace Parser

theorem classOf_reads_class {c : Class} {depth : Nat}
    (each : ∀ m ∈ c.members, Opens m.marks ∧
      Reads (memberOf .standard (members .standard depth)) m.marks Anything (·.erase = m.erase))
    (start : Position) :
    Reads (classOf (members .standard (depth + 1)) start c.modifiers)
      (.word .classWord :: .name c.name :: .punct .openCurly ::
        (c.members.flatMap Member.marks ++ [.punct .closeCurly])) Anything (·.erase = c.erase) := by
  have inside := braces_read c.members each
  rw [members]
  refine (classOf_reads inside start c.modifiers c.name).imp ?_
  rintro _ ⟨members, span, same, rfl⟩
  exact Class.erase_of_members span same

/-- By induction on the depth, as for statements. -/
theorem memberOf_reads {m : Member} (formed : m.Formed) {depth : Nat}
    (enough : m.marks.length ≤ depth) :
    Opens m.marks ∧
      Reads (memberOf .standard (members .standard depth)) m.marks Anything
        (·.erase = m.erase) := by
  induction depth generalizing m with
  | zero =>
    have some := List.length_pos_iff.mpr m.marks_ne_nil
    omega
  | succ depth ih =>
    cases m with
    | empty =>
      obtain ⟨opens, reads⟩ := memberOf_reads_empty (members .standard (depth + 1))
      exact ⟨opens, reads.imp fun _ same => by rw [same]⟩
    | field f => exact memberOf_reads_field formed _
    | method m => exact memberOf_reads_method formed (.inr rfl) _
    | nested c =>
      rw [Member.Formed, Class.formed_iff] at formed
      rw [Member.marks, Class.marks_eq] at enough ⊢
      simp only [List.length_append, List.length_cons] at enough
      have each (m : Member) (member : m ∈ c.members) : Opens m.marks ∧ Reads
          (memberOf .standard (members .standard depth)) m.marks Anything (·.erase = m.erase) := by
        have shorter := length_le_flatMap Member.marks member
        exact ih (formed m member) (by omega)
      obtain ⟨opens, reads⟩ := memberOf_reads_class (classOf_reads_class each)
      refine ⟨opens, reads.imp ?_⟩
      rintro _ ⟨read, same, rfl⟩
      rw [Member.erase, same, Member.erase]

theorem nextClass_reads {c : Class} (formed : c.Formed) :
    Reads (nextClass .standard) c.marks Anything
      fun r => r.map (Option.map Class.erase) = some (some c.erase) := by
  rw [Class.formed_iff] at formed
  have reads : Reads (typeDeclaration .standard) c.marks Anything (·.erase = c.erase) := by
    rw [Class.marks_eq]
    refine typeDeclaration_reads fun depth start enough => ?_
    simp only [List.length_append, List.length_cons] at enough
    obtain ⟨depth, rfl⟩ : ∃ k, depth = k + 1 := ⟨depth - 1, by omega⟩
    refine classOf_reads_class (fun m member => ?_) start
    have shorter := length_le_flatMap Member.marks member
    exact memberOf_reads (formed m member) (by omega)
  rw [Class.marks_eq] at reads ⊢
  refine (nextClass_reads_class reads).imp ?_
  rintro _ ⟨read, same, rfl⟩
  rw [Option.map_some, Option.map_some, same]

/-- An import is read with the name that it is written for. -/
theorem nextImport_reads_marks (i : Import) :
    Reads nextImport i.marks Anything fun r => r.map Import.erase = some i.erase := by
  have named (r : Option Import) (same : r.map Import.name = some i.name) :
      r.map Import.erase = some i.erase := by
    obtain ⟨read, rfl, name⟩ := Option.map_eq_some_iff.mp same
    rw [Option.map_some, Import.erase, name, Import.erase]
  rw [Import.marks, Import.path]
  split
  · rename_i all
    obtain ⟨stem, whole⟩ := List.isSuffixOf_iff_suffix.mp all
    have cut : i.name.toList.dropLast.dropLast = stem := by
      rw [← whole, List.append_cons, List.dropLast_concat, List.dropLast_concat]
    obtain ⟨first, others, parts, joined⟩ := exists_nameParts (String.ofList stem)
    have name : ".".intercalate (first :: others) ++ ".*" = i.name := by
      rw [← String.toList_inj, String.toList_append, joined, String.toList_ofList]
      exact whole
    rw [cut, parts, List.cons_append, List.append_assoc]
    refine (nextImport_reads first others (wildcard_reads_star.anywhere _) fun _ => nofun).imp
      fun r same => named r ?_
    rw [same, name]
  · obtain ⟨first, others, parts, joined⟩ := exists_nameParts i.name
    rw [parts, List.cons_append]
    refine (nextImport_reads first others wildcard_reads_nothing fun _ => nofun).imp
      fun r same => named r ?_
    rw [same, joined, String.append_empty]

theorem packageName_reads_marks (u : CompilationUnit) :
    Reads packageName u.packageMarks (fun rest => Mark.next rest ≠ .keyword .packageWord)
      (· = u.package) := by
  rw [CompilationUnit.packageMarks]
  cases u.package with
  | none => exact packageName_reads_nothing
  | some name =>
    obtain ⟨first, others, parts, joined⟩ := exists_nameParts name
    dsimp only
    rw [parts, List.cons_append, ← joined]
    exact (packageName_reads first others).anywhere _

theorem compilationUnit_reads_marks {u : CompilationUnit} (formed : u.Formed) :
    Reads (compilationUnit .standard) u.marks (Before .eof) (·.erase = u.erase) := by
  have imports := many_reads u.imports nextImport_stops
    (fun _ _ => List.cons_ne_nil _ _) (fun _ _ _ => trivial) (fun _ _ => trivial)
    fun i _ => nextImport_reads_marks i
  have classes := many_reads u.classes nextClass_stops (fun c _ => by simp [Class.marks_eq])
    (fun _ _ _ => trivial) (fun _ _ => trivial) fun c member => nextClass_reads (formed c member)
  have undeclared (w : Keyword) (other : w ≠ .classWord) (rest : List Mark)
      (after : Before .eof rest) :
      Mark.next (u.classes.flatMap Class.marks ++ rest) ≠ .keyword w := by
    refine Mark.next_flatMap_ne (fun c _ more => ?_) ?_
    · rw [Class.marks_eq, List.append_assoc]
      refine modified_next_ne rfl ?_
      rintro ⟨⟩
      exact other rfl
    · rw [show Mark.next rest = _ from after]
      exact nofun
  have unimported (rest : List Mark) (after : Before .eof rest) :
      Mark.next (u.imports.flatMap Import.marks ++ (u.classes.flatMap Class.marks ++ rest)) ≠
        .keyword .packageWord :=
    Mark.next_flatMap_ne (fun _ _ _ => nofun) (undeclared .packageWord nofun rest after)
  rw [CompilationUnit.marks, List.append_assoc]
  refine (compilationUnit_reads (packageName_reads_marks u) imports classes unimported
    (undeclared .importWord nofun)).imp ?_
  rintro read ⟨package, sameImports, cs, sameClasses, found⟩
  have kept : (cs.filterMap id).map Class.erase = u.classes.map Class.erase := by
    have sorted := congrArg (List.filterMap id) sameClasses
    simpa [List.filterMap_map, List.map_filterMap, Function.comp_def] using sorted
  rw [CompilationUnit.erase, package, sameImports, found, kept, CompilationUnit.erase]

end Parser

/-- A token for a mark, at no place. -/
def Mark.token (m : Mark) : Token := ⟨m.kind, m.text, .unknown⟩

namespace CompilationUnit

/-- What is written is derivable: it is read, and only what is derivable is. -/
theorem covers_marks {u : CompilationUnit} (formed : u.Formed) :
    (Phrase.symbol .unit).Covers u.marks := by
  let c : Cursor := ⟨u.marks.map Mark.token, .ending .unknown, rfl, .unknown⟩
  have here : c.marks = u.marks ++ [] := by
    simp [c, Cursor.marks, Function.comp_def, Mark.token, Mark.mark_token]
  obtain ⟨_, c', ran, left, _⟩ := Parser.compilationUnit_reads_marks formed c [] here rfl
  obtain ⟨⟨ms, whole, covered⟩, _⟩ := Parser.compilationUnit_between _ ran
  rw [left, here, List.append_nil, List.append_nil] at whole
  rwa [whole]

/-- With one space between lexemes. -/
def print (u : CompilationUnit) : String := " ".intercalate (u.marks.map Mark.text)

theorem toList_print (u : CompilationUnit) : u.print.toList = Mark.spaced u.marks := by
  rw [print, String.toList_intercalate, List.map_map]
  rfl

theorem spelled_marks {u : CompilationUnit} (formed : u.Formed)
    (names : ∀ text, .name text ∈ u.marks →
      Lexeme.isWord text.toList = true ∧ Kind.reserved? text = none)
    (numbers : ∀ text, .number text ∈ u.marks → Lexeme.isLiteral text.toList = true) :
    ∀ m ∈ u.marks, m.Spelled := by
  intro m member
  have kinds := (covers_marks formed).1.plain_or_star _ (List.mem_map_of_mem member)
  cases m with
  | name text => exact names text member
  | number text => exact numbers text member
  | quoted => simp [Mark.kind, Kind.isPlain] at kinds
  | ending => simp [Mark.kind, Kind.isPlain] at kinds
  | _ => trivial

end CompilationUnit

/-- A unit that is printed and parsed again is the same but for places. Its names have to be free
for use and its numbers literals, and it has to be formed: qualified types have a qualifier,
declarations a variable, and numbers the value of their text. -/
theorem parsing_undoes_printing (u : CompilationUnit) (file : String) (formed : u.Formed)
    (names : ∀ text, .name text ∈ u.marks →
      Lexeme.isWord text.toList = true ∧ Kind.reserved? text = none)
    (numbers : ∀ text, .number text ∈ u.marks → Lexeme.isLiteral text.toList = true) :
    ∃ tokens parsed, Token.scan u.print file = .ok tokens ∧
      CompilationUnit.ofTokens tokens file = .ok parsed ∧ parsed.erase = u.erase := by
  have spelled := CompilationUnit.spelled_marks formed names numbers
  obtain ⟨tokens, stop, scanned, marks⟩ := Token.scanFrom_spaced file 0 spelled
  have here : (Cursor.ofTokens (tokens ++ [.ending stop]) file).marks = u.marks ++ [] := by
    rw [List.append_nil, ← marks]
    simp [Cursor.ofTokens, Cursor.marks, Token.ending]
  obtain ⟨parsed, _, ran, _, same⟩ := Parser.compilationUnit_reads_marks formed _ [] here rfl
  refine ⟨tokens ++ [.ending stop], parsed, ?_, ?_, same⟩
  · rw [Token.scan, CompilationUnit.toList_print, scanned]
  · rw [CompilationUnit.ofTokens, ran]

/-- A unit with something of everything:
```
package p.q; import a.b; import c.*;
public class C {
  private static int[] x = 0x1F, y;
  abstract void m(int i, a.b.D[][] d);
  E n() { int k = 7; { F w = null; } }
  final class I { }
}
```
-/
def CompilationUnit.varied : CompilationUnit :=
  let type (shape : TypeShape) : TypeExpr := ⟨shape, .unknown⟩
  let field : Field := ⟨[.privateAccess, .static], type (.array (.primitive .int)),
    [⟨"x", some (.number 31 "0x1F" .unknown), .unknown⟩, ⟨"y", none, .unknown⟩], .unknown⟩
  let declared : Method := ⟨[.abstract], type (.primitive .void), "m",
    [⟨"i", type (.primitive .int), .unknown⟩,
      ⟨"d", type (.array (.array (.qualified ["a", "b", "D"]))), .unknown⟩], none, .unknown⟩
  let defined : Method := ⟨[], type (.simple "E"), "n", [],
    some ⟨[.declare (.primitive .int) "k" (.number 7 "7" .unknown),
      .block [.declare (.simple "F") "w" (.null .unknown)] .unknown], .unknown⟩, .unknown⟩
  ⟨some "p.q", [⟨"a.b", .unknown⟩, ⟨"c.*", .unknown⟩],
    [⟨"C", [.publicAccess], [field], [declared, defined], [⟨"I", [.final], [], [], [], .unknown⟩],
      .unknown⟩], .unknown⟩

theorem parsing_undoes_printing_varied :
    CompilationUnit.varied.Formed ∧ ∃ tokens parsed,
      Token.scan CompilationUnit.varied.print "" = .ok tokens ∧
      CompilationUnit.ofTokens tokens "" = .ok parsed ∧
      parsed.erase = CompilationUnit.varied.erase := by
  have spelled : ∀ m ∈ CompilationUnit.varied.marks, (match m with
      | .name text => Lexeme.isWord text.toList && (Kind.reserved? text).isNone
      | .number text => Lexeme.isLiteral text.toList
      | _ => true) = true := by
    decide
  have formed : CompilationUnit.varied.Formed := by
    have hexadecimal : Number.value? "0x1F" = some 31 := by decide
    have decimal : Number.value? "7" = some 7 := by decide
    simp [CompilationUnit.Formed, CompilationUnit.varied, Class.Formed, Class.FormedIn,
      Field.Formed, Method.Formed, Parameter.Formed, Block.Formed, Statement.Formed,
      Statement.FormedIn, Statement.declare, LocalDeclaration.Formed, Declarator.ListFormed,
      Declarator.Formed, Expression.Formed, TypeShape.Formed, hexadecimal, decimal]
  refine ⟨formed, parsing_undoes_printing CompilationUnit.varied "" formed ?_ ?_⟩
  · intro text member
    have own := spelled _ member
    rwa [Bool.and_eq_true, Option.isNone_iff_eq_none] at own
  · intro text member
    exact spelled _ member

end Javelet
