import Javelet.Proofs.Erasure
import Javelet.Proofs.Marks
import Javelet.Proofs.Scoping

namespace Javelet

namespace Mark

/-- Names with dots between them. -/
def dotted : List String → List Mark
  | [] => []
  | first :: others => .name first :: others.flatMap fun part => [.punct .dot, .name part]

end Mark

/-- The names of a dotted name. -/
def nameParts (name : String) : List String := (name.toList.splitOn '.').map String.ofList

namespace TypeShape

def marks : TypeShape → List Mark
  | primitive p => [.primitive p]
  | simple name => [.name name]
  | qualified parts => Mark.dotted parts
  | array element => element.marks ++ [.punct .openBracket, .punct .closeBracket]

/-- A qualified name has a qualifier. -/
def Formed : TypeShape → Prop
  | qualified parts => 2 ≤ parts.length
  | array element => element.Formed
  | _ => True

def isArray : TypeShape → Bool
  | array _ => true
  | _ => false

/-- So many dimensions on top. -/
def arrays (element : TypeShape) : Nat → TypeShape
  | 0 => element
  | n + 1 => .array (element.arrays n)

theorem arrays_array (element : TypeShape) (n : Nat) :
    (array element).arrays n = .array (element.arrays n) := by
  induction n with
  | zero => rfl
  | succ n ih => rw [arrays, arrays, ih]

theorem marks_arrays (element : TypeShape) (n : Nat) :
    (element.arrays n).marks =
      element.marks ++ (List.replicate n [.punct .openBracket, .punct .closeBracket]).flatten := by
  induction n with
  | zero => rw [arrays, List.replicate_zero, List.flatten_nil, List.append_nil]
  | succ n ih =>
    rw [arrays, marks, ih, List.replicate_succ', List.flatten_concat, List.append_assoc]

theorem formed_arrays (element : TypeShape) (n : Nat) :
    (element.arrays n).Formed ↔ element.Formed := by
  induction n with
  | zero => rfl
  | succ n ih => rw [arrays, Formed, ih]

theorem exists_arrays (shape : TypeShape) :
    ∃ (element : TypeShape) (n : Nat), shape = element.arrays n ∧ element.isArray = false := by
  induction shape with
  | array element ih =>
    obtain ⟨base, n, rfl, head⟩ := ih
    exact ⟨base, n + 1, rfl, head⟩
  | primitive | simple | qualified => exact ⟨_, 0, rfl, rfl⟩

end TypeShape

namespace Expression

def mark : Expression → Mark
  | number _ text _ => .number text
  | boolean true _ => .word .trueWord
  | boolean false _ => .word .falseWord
  | null _ => .word .nullWord
  | name text _ => .name text

/-- A number has the value of its text. -/
def Formed : Expression → Prop
  | number value text _ => Number.value? text = some value
  | _ => True

end Expression

namespace Declarator

def marks (d : Declarator) : List Mark :=
  .name d.name :: match d.value with
    | some value => [.punct .assign, value.mark]
    | none => []

def Formed (d : Declarator) : Prop := ∀ value ∈ d.value, value.Formed

/-- The variables of one declaration, of which there is at least one. -/
def listMarks (declarators : List Declarator) : List Mark := Mark.listed (declarators.map marks)

def ListFormed (declarators : List Declarator) : Prop :=
  declarators ≠ [] ∧ ∀ d ∈ declarators, d.Formed

end Declarator

def LocalDeclaration.marks (d : LocalDeclaration) : List Mark :=
  d.type.shape.marks ++ Declarator.listMarks d.declarators ++ [.punct .semicolon]

def LocalDeclaration.Formed (d : LocalDeclaration) : Prop :=
  d.type.shape.Formed ∧ Declarator.ListFormed d.declarators

namespace Statement

mutual

def marks : Statement → List Mark
  | .block body _ => .punct .openCurly :: marksIn body ++ [.punct .closeCurly]
  | .declaration d => d.marks

def marksIn : List Statement → List Mark
  | [] => []
  | first :: rest => first.marks ++ marksIn rest

end

mutual

def Formed : Statement → Prop
  | .block body _ => FormedIn body
  | .declaration d => d.Formed

def FormedIn : List Statement → Prop
  | [] => True
  | first :: rest => first.Formed ∧ FormedIn rest

end

theorem marksIn_eq_flatMap (body : List Statement) : marksIn body = body.flatMap marks := by
  induction body with
  | nil => rfl
  | cons first rest ih => rw [marksIn, ih, List.flatMap_cons]

theorem formedIn_iff (body : List Statement) : FormedIn body ↔ ∀ s ∈ body, s.Formed := by
  induction body with
  | nil => exact ⟨fun _ => List.forall_mem_nil _, fun _ => trivial⟩
  | cons first rest ih => rw [FormedIn, ih, List.forall_mem_cons]

end Statement

def Block.marks (b : Block) : List Mark :=
  .punct .openCurly :: b.body.flatMap Statement.marks ++ [.punct .closeCurly]

def Block.Formed (b : Block) : Prop := ∀ s ∈ b.body, s.Formed

def Parameter.marks (p : Parameter) : List Mark := p.type.shape.marks ++ [.name p.name]

def Parameter.Formed (p : Parameter) : Prop := p.type.shape.Formed

def Field.marks (f : Field) : List Mark :=
  f.modifiers.map .modifier ++
    (f.type.shape.marks ++ (Declarator.listMarks f.declarators ++ [.punct .semicolon]))

def Field.Formed (f : Field) : Prop := f.type.shape.Formed ∧ Declarator.ListFormed f.declarators

namespace Method

def bodyMarks : Option Block → List Mark
  | some block => block.marks
  | none => [.punct .semicolon]

/-- A method from its name on, with something behind its last parameter. -/
def tail (m : Method) (behind : List Mark) : List Mark :=
  .name m.name :: .punct .openParen :: (Mark.listed (m.parameters.map Parameter.marks) ++ behind ++
    .punct .closeParen :: bodyMarks m.body)

def marksWith (m : Method) (behind : List Mark) : List Mark :=
  m.modifiers.map .modifier ++ (m.type.shape.marks ++ m.tail behind)

def marks (m : Method) : List Mark := m.marksWith []

def Formed (m : Method) : Prop :=
  m.type.shape.Formed ∧ (∀ p ∈ m.parameters, p.Formed) ∧ ∀ block ∈ m.body, block.Formed

end Method

namespace Class

mutual

def marks : Class → List Mark
  | ⟨name, modifiers, fields, methods, nested, _⟩ =>
    modifiers.map .modifier ++ .word .classWord :: .name name :: .punct .openCurly ::
      (fields.flatMap Field.marks ++ methods.flatMap Method.marks ++ marksIn nested ++
        [.punct .closeCurly])

def marksIn : List Class → List Mark
  | [] => []
  | first :: rest => first.marks ++ marksIn rest

end

mutual

def Formed : Class → Prop
  | ⟨_, _, fields, methods, nested, _⟩ =>
    (∀ f ∈ fields, f.Formed) ∧ (∀ m ∈ methods, m.Formed) ∧ FormedIn nested

def FormedIn : List Class → Prop
  | [] => True
  | first :: rest => first.Formed ∧ FormedIn rest

end

theorem marksIn_eq_flatMap (classes : List Class) : marksIn classes = classes.flatMap marks := by
  induction classes with
  | nil => rfl
  | cons first rest ih => rw [marksIn, ih, List.flatMap_cons]

theorem formedIn_iff (classes : List Class) : FormedIn classes ↔ ∀ c ∈ classes, c.Formed := by
  induction classes with
  | nil => exact ⟨fun _ => List.forall_mem_nil _, fun _ => trivial⟩
  | cons first rest ih => rw [FormedIn, ih, List.forall_mem_cons]

/-- The members in the order in which they are written. -/
def members (c : Class) : List Member :=
  c.fields.map .field ++ c.methods.map .method ++ c.nested.map .nested

theorem filterMap_field?_members (c : Class) : c.members.filterMap Member.field? = c.fields := by
  simp [members, List.filterMap_map, Function.comp_def, Member.field?]

theorem filterMap_method?_members (c : Class) : c.members.filterMap Member.method? = c.methods := by
  simp [members, List.filterMap_map, Function.comp_def, Member.method?,
    List.filterMap_eq_nil_iff.mpr]

theorem filterMap_nested?_members (c : Class) : c.members.filterMap Member.nested? = c.nested := by
  simp [members, List.filterMap_map, Function.comp_def, Member.nested?,
    List.filterMap_eq_nil_iff.mpr]

end Class

namespace Member

def marks : Member → List Mark
  | empty => [.punct .semicolon]
  | field f => f.marks
  | method m => m.marks
  | nested c => c.marks

def Formed : Member → Prop
  | empty => True
  | field f => f.Formed
  | method m => m.Formed
  | nested c => c.Formed

end Member

theorem Class.marks_eq (c : Class) :
    c.marks = c.modifiers.map .modifier ++ .word .classWord :: .name c.name :: .punct .openCurly ::
      (c.members.flatMap Member.marks ++ [.punct .closeCurly]) := by
  obtain ⟨name, modifiers, fields, methods, nested, span⟩ := c
  simp only [marks, marksIn_eq_flatMap, members, List.flatMap_append, List.flatMap_map,
    Member.marks]

theorem Member.marks_ne_nil (m : Member) : m.marks ≠ [] := by
  cases m <;> simp [marks, Field.marks, Method.marks, Method.marksWith, Method.tail, Class.marks_eq]

theorem Class.formed_iff (c : Class) : c.Formed ↔ ∀ m ∈ c.members, m.Formed := by
  obtain ⟨name, modifiers, fields, methods, nested, span⟩ := c
  simp only [Formed, formedIn_iff, members, List.forall_mem_append, List.forall_mem_map,
    Member.Formed, and_assoc]

/-- An import of all names ends in a star. -/
def Import.path (i : Import) : List Mark :=
  if ['.', '*'].isSuffixOf i.name.toList then
    Mark.dotted (nameParts (String.ofList i.name.toList.dropLast.dropLast)) ++
      [.punct .dot, .punct .star]
  else Mark.dotted (nameParts i.name)

def Import.marks (i : Import) : List Mark :=
  .word .importWord :: i.path ++ [.punct .semicolon]

namespace CompilationUnit

def packageMarks (u : CompilationUnit) : List Mark :=
  match u.package with
  | some name => .word .packageWord :: Mark.dotted (nameParts name) ++ [.punct .semicolon]
  | none => []

def marks (u : CompilationUnit) : List Mark :=
  u.packageMarks ++ u.imports.flatMap Import.marks ++ u.classes.flatMap Class.marks

def Formed (u : CompilationUnit) : Prop := ∀ c ∈ u.classes, c.Formed

end CompilationUnit

theorem Method.marks_subset_marksWith (m : Method) (behind : List Mark) :
    m.marks ⊆ m.marksWith behind := by
  intro mark member
  simp only [marks, marksWith, tail, List.mem_append, List.mem_cons, List.not_mem_nil,
    or_false] at member ⊢
  tauto

theorem Expression.mark_erase (e : Expression) : e.erase.mark = e.mark := by
  cases e with
  | boolean value span => cases value <;> rfl
  | number | null | name => rfl

theorem Declarator.marks_erase (d : Declarator) : d.erase.marks = d.marks := by
  unfold marks erase
  cases d.value with
  | none => rfl
  | some value => simp [Expression.mark_erase]

theorem Declarator.listMarks_erase (ds : List Declarator) :
    listMarks (ds.map erase) = listMarks ds := by
  simp [listMarks, Function.comp_def, marks_erase]

theorem Statement.marks_erase (s : Statement) : s.erase.marks = s.marks := by
  revert s
  suffices both : (∀ s : Statement, s.erase.marks = s.marks) ∧
      ∀ body, marksIn (eraseIn body) = marksIn body from both.1
  apply Statement.induct
  case block =>
    intro body span inside
    rw [erase, marks, marks, inside]
  case declaration =>
    intro d
    simp [erase, marks, LocalDeclaration.marks, LocalDeclaration.erase, TypeExpr.erase,
      Declarator.listMarks_erase]
  case nil => rfl
  case cons =>
    intro first rest head tail
    rw [eraseIn, marksIn, marksIn, head, tail]

theorem Field.marks_erase (f : Field) : f.erase.marks = f.marks := by
  simp [marks, erase, TypeExpr.erase, Declarator.listMarks_erase]

theorem Method.marks_erase (m : Method) : m.erase.marks = m.marks := by
  have bodies : bodyMarks (m.body.map Block.erase) = bodyMarks m.body := by
    cases m.body with
    | none => rfl
    | some b => simp [bodyMarks, Block.marks, Block.erase, List.flatMap_map, Statement.marks_erase]
  have parameters : (m.parameters.map Parameter.erase).map Parameter.marks =
      m.parameters.map Parameter.marks := by
    rw [List.map_map]
    rfl
  simp only [marks, marksWith, tail, erase, TypeExpr.erase, bodies, parameters]

open Phrase

/-- If each part can be written, all of them can be in a row. -/
theorem exists_written {β : Type} {write : β → List Mark} {good : β → Prop}
    {parts : List (List Mark)} (each : ∀ part ∈ parts, ∃ b, good b ∧ write b = part) :
    ∃ bs : List β, (∀ b ∈ bs, good b) ∧ bs.map write = parts := by
  induction parts with
  | nil => exact ⟨[], List.forall_mem_nil _, rfl⟩
  | cons part rest ih =>
    obtain ⟨⟨b, own, rfl⟩, others⟩ := List.forall_mem_cons.mp each
    obtain ⟨bs, formed, rfl⟩ := ih others
    exact ⟨b :: bs, List.forall_mem_cons.mpr ⟨own, formed⟩, rfl⟩

theorem exists_of_covers_qualified {ms : List Mark} (h : (symbol .qualified).Covers ms) :
    ∃ first others, ms = Mark.dotted (first :: others) := by
  obtain ⟨_, _, rfl, head, rest⟩ := (covers_seq_iff ..).mp ((covers_symbol_iff ..).mp h)
  obtain ⟨first, rfl⟩ := (covers_name_iff _).mp head
  obtain ⟨parts, rfl, each⟩ := (covers_many_iff ..).mp rest
  have written : ∀ part ∈ parts, ∃ name, True ∧ [Mark.punct .dot, .name name] = part := by
    intro part member
    obtain ⟨_, _, rfl, dot, own⟩ := (covers_seq_iff ..).mp (each part member)
    obtain ⟨name, rfl⟩ := (covers_name_iff _).mp own
    exact ⟨name, trivial, by rw [(covers_punct_iff ..).mp dot]; rfl⟩
  obtain ⟨others, _, rfl⟩ := exists_written written
  exact ⟨first, others, by rw [Mark.dotted, List.flatMap_def]; rfl⟩

namespace TypeShape

theorem exists_of_covers_head {ms : List Mark}
    (h : (Phrase.primitive ||| symbol .qualified).Covers ms) :
    ∃ shape : TypeShape, shape.Formed ∧ shape.marks = ms := by
  obtain own | named := (covers_either_iff ..).mp h
  · obtain ⟨p, rfl⟩ := (covers_primitive_iff _).mp own
    exact ⟨.primitive p, trivial, rfl⟩
  · obtain ⟨first, others, rfl⟩ := exists_of_covers_qualified named
    cases others with
    | nil => exact ⟨.simple first, trivial, rfl⟩
    | cons second rest =>
      exact ⟨.qualified (first :: second :: rest), by simp [Formed], rfl⟩

theorem exists_of_covers {ms : List Mark} (h : (symbol .type).Covers ms) :
    ∃ shape : TypeShape, shape.Formed ∧ shape.marks = ms := by
  obtain ⟨_, _, rfl, head, rest⟩ := (covers_seq_iff ..).mp ((covers_symbol_iff ..).mp h)
  obtain ⟨element, formed, rfl⟩ := exists_of_covers_head head
  obtain ⟨parts, rfl, each⟩ := (covers_many_iff ..).mp rest
  have same : parts = List.replicate parts.length [.punct .openBracket, .punct .closeBracket] := by
    refine List.eq_replicate_iff.mpr ⟨rfl, fun part member => ?_⟩
    obtain ⟨_, _, rfl, opening, closing⟩ := (covers_seq_iff ..).mp (each part member)
    rw [(covers_punct_iff ..).mp opening, (covers_punct_iff ..).mp closing]
    rfl
  exact ⟨element.arrays parts.length, (formed_arrays ..).mpr formed, by rw [marks_arrays, ← same]⟩

end TypeShape

theorem Expression.exists_of_covers {ms : List Mark} (h : (symbol .expression).Covers ms) :
    ∃ e : Expression, e.Formed ∧ [e.mark] = ms := by
  have alternatives := (covers_symbol_iff ..).mp h
  simp only [Nonterminal.production, covers_either_iff, covers_number_iff, covers_name_iff,
    covers_word_iff] at alternatives
  obtain (((⟨text, counts, rfl⟩ | ⟨text, rfl⟩) | rfl) | rfl) | rfl := alternatives
  · obtain ⟨value, known⟩ := Option.isSome_iff_exists.mp counts
    exact ⟨.number value text .unknown, known, rfl⟩
  · exact ⟨.name text .unknown, trivial, rfl⟩
  · exact ⟨.boolean true .unknown, trivial, rfl⟩
  · exact ⟨.boolean false .unknown, trivial, rfl⟩
  · exact ⟨.null .unknown, trivial, rfl⟩

namespace Declarator

theorem exists_of_covers {ms : List Mark} (h : (symbol .declarator).Covers ms) :
    ∃ d : Declarator, d.Formed ∧ d.marks = ms := by
  obtain ⟨_, _, rfl, head, rest⟩ := (covers_seq_iff ..).mp ((covers_symbol_iff ..).mp h)
  obtain ⟨name, rfl⟩ := (covers_name_iff _).mp head
  obtain initialized | rfl := (covers_optional_iff ..).mp rest
  · obtain ⟨_, _, rfl, assign, value⟩ := (covers_seq_iff ..).mp initialized
    obtain ⟨e, formed, rfl⟩ := Expression.exists_of_covers value
    rw [(covers_punct_iff ..).mp assign]
    refine ⟨⟨name, some e, .unknown⟩, ?_, rfl⟩
    rintro _ ⟨⟩
    exact formed
  · exact ⟨⟨name, none, .unknown⟩, nofun, rfl⟩

theorem list_of_covers {ms : List Mark} (h : (symbol .declarators).Covers ms) :
    ∃ ds : List Declarator, ListFormed ds ∧ listMarks ds = ms := by
  obtain ⟨first, others, rfl, each⟩ :=
    (covers_commaSeparated_iff ..).mp ((covers_symbol_iff ..).mp h)
  obtain ⟨ds, formed, written⟩ :=
    exists_written fun part member => exists_of_covers (each part member)
  refine ⟨ds, ⟨?_, formed⟩, by rw [listMarks, written]⟩
  rintro rfl
  cases written

end Declarator

theorem LocalDeclaration.exists_of_covers {ms : List Mark}
    (h : (symbol .type ++ symbol .declarators ++ punct .semicolon).Covers ms) :
    ∃ d : LocalDeclaration, d.Formed ∧ d.marks = ms := by
  obtain ⟨_, _, rfl, declared, semicolon⟩ := (covers_seq_iff ..).mp h
  obtain ⟨_, _, rfl, typed, listed⟩ := (covers_seq_iff ..).mp declared
  obtain ⟨shape, typeFormed, rfl⟩ := TypeShape.exists_of_covers typed
  obtain ⟨ds, formed, rfl⟩ := Declarator.list_of_covers listed
  rw [(covers_punct_iff ..).mp semicolon]
  exact ⟨⟨⟨shape, .unknown⟩, ds, .unknown⟩, ⟨typeFormed, formed⟩, rfl⟩

theorem exists_of_covers_block {ms : List Mark} (h : (symbol .block).Covers ms) :
    ∃ parts : List (List Mark), ms = .punct .openCurly :: parts.flatten ++ [.punct .closeCurly] ∧
      ∀ part ∈ parts, (symbol .statement).Covers part := by
  obtain ⟨_, _, rfl, front, closing⟩ := (covers_seq_iff ..).mp ((covers_symbol_iff ..).mp h)
  obtain ⟨_, _, rfl, opening, inside⟩ := (covers_seq_iff ..).mp front
  obtain ⟨parts, rfl, each⟩ := (covers_many_iff ..).mp inside
  rw [(covers_punct_iff ..).mp opening, (covers_punct_iff ..).mp closing]
  exact ⟨parts, rfl, each⟩

/-- By induction on the number of tokens: the statements of a block are shorter than the block. -/
theorem Statement.exists_of_covers {ms : List Mark} (h : (symbol .statement).Covers ms) :
    ∃ s : Statement, s.Formed ∧ s.marks = ms := by
  obtain block | declared := (covers_either_iff ..).mp ((covers_symbol_iff ..).mp h)
  · obtain ⟨parts, whole, each⟩ := exists_of_covers_block block
    have inside : ∀ part ∈ parts, ∃ s : Statement, s.Formed ∧ s.marks = part := by
      intro part member
      have shorter : part.length < ms.length := by
        have within := (List.sublist_flatten_of_mem member).length_le
        rw [whole, List.length_append, List.length_cons]
        omega
      exact exists_of_covers (each part member)
    obtain ⟨body, formed, rfl⟩ := exists_written inside
    refine ⟨.block body .unknown, (formedIn_iff body).mpr formed, ?_⟩
    rw [whole, marks, marksIn_eq_flatMap, List.flatMap_def]
  · obtain ⟨d, formed, rfl⟩ := LocalDeclaration.exists_of_covers declared
    exact ⟨.declaration d, formed, rfl⟩
termination_by ms.length

theorem Block.exists_of_covers {ms : List Mark} (h : (symbol .block).Covers ms) :
    ∃ b : Block, b.Formed ∧ b.marks = ms := by
  obtain ⟨parts, rfl, each⟩ := exists_of_covers_block h
  obtain ⟨body, formed, rfl⟩ :=
    exists_written fun part member => Statement.exists_of_covers (each part member)
  exact ⟨⟨body, .unknown⟩, formed, by rw [marks, List.flatMap_def]⟩

theorem Parameter.exists_of_covers {ms : List Mark} (h : (symbol .parameter).Covers ms) :
    ∃ p : Parameter, p.Formed ∧ p.marks = ms := by
  obtain ⟨_, _, rfl, typed, own⟩ := (covers_seq_iff ..).mp ((covers_symbol_iff ..).mp h)
  obtain ⟨shape, formed, rfl⟩ := TypeShape.exists_of_covers typed
  obtain ⟨name, rfl⟩ := (covers_name_iff _).mp own
  exact ⟨⟨name, ⟨shape, .unknown⟩, .unknown⟩, formed, rfl⟩

theorem Modifier.exists_of_covers {ms : List Mark} (h : (many modifier).Covers ms) :
    ∃ modifiers : List Modifier, ms = modifiers.map .modifier := by
  obtain ⟨parts, rfl, each⟩ := (covers_many_iff ..).mp h
  have written : ∀ part ∈ parts, ∃ m : Modifier, True ∧ [Mark.modifier m] = part := by
    intro part member
    obtain ⟨m, rfl⟩ := (covers_modifier_iff _).mp (each part member)
    exact ⟨m, trivial, rfl⟩
  obtain ⟨modifiers, _, rfl⟩ := exists_written written
  exact ⟨modifiers, by rw [← List.flatMap_def, ← List.map_eq_flatMap]⟩

theorem Field.exists_of_covers {ms : List Mark} (h : Nonterminal.fieldMember.Covers ms) :
    ∃ f : Field, f.Formed ∧ f.marks = ms := by
  obtain ⟨_, _, rfl, front, semicolon⟩ := (covers_seq_iff ..).mp h
  obtain ⟨_, _, rfl, declared, listed⟩ := (covers_seq_iff ..).mp front
  obtain ⟨_, _, rfl, modified, typed⟩ := (covers_seq_iff ..).mp declared
  obtain ⟨modifiers, rfl⟩ := Modifier.exists_of_covers modified
  obtain ⟨shape, typeFormed, rfl⟩ := TypeShape.exists_of_covers typed
  obtain ⟨ds, formed, rfl⟩ := Declarator.list_of_covers listed
  rw [(covers_punct_iff ..).mp semicolon]
  refine ⟨⟨modifiers, ⟨shape, .unknown⟩, ds, .unknown⟩, ⟨typeFormed, formed⟩, ?_⟩
  simp only [marks, List.append_assoc]

theorem Method.body_of_covers {ms : List Mark}
    (h : (punct .semicolon ||| symbol .block).Covers ms) :
    ∃ body : Option Block, (∀ block ∈ body, block.Formed) ∧ bodyMarks body = ms := by
  obtain absent | present := (covers_either_iff ..).mp h
  · exact ⟨none, nofun, by rw [bodyMarks, (covers_punct_iff ..).mp absent]⟩
  · obtain ⟨block, formed, rfl⟩ := Block.exists_of_covers present
    refine ⟨some block, ?_, rfl⟩
    rintro _ ⟨⟩
    exact formed

theorem Parameter.list_of_covers {ms : List Mark} (h : Nonterminal.parameterList.Covers ms) :
    ∃ (ps : List Parameter) (behind : List Mark), (∀ p ∈ ps, p.Formed) ∧
      Mark.listed (ps.map marks) ++ behind = ms ∧
      (behind = [.punct .comma] ∧ ps ≠ [] ∨ behind = []) := by
  obtain rfl | ⟨first, others, behind, rfl, ends, each⟩ := (covers_parameterList_iff _).mp h
  · exact ⟨[], [], List.forall_mem_nil _, rfl, .inr rfl⟩
  · obtain ⟨ps, formed, written⟩ :=
      exists_written fun part member => exists_of_covers (each part member)
    refine ⟨ps, behind, formed, by rw [written], ends.imp_left fun comma => ⟨comma, ?_⟩⟩
    rintro rfl
    cases written

/-- The parameters of a method may have a comma behind the last one. -/
theorem Method.exists_of_covers {ms : List Mark} (h : Nonterminal.methodMember.Covers ms) :
    ∃ (m : Method) (behind : List Mark), m.Formed ∧ m.marksWith behind = ms ∧
      (behind = [.punct .comma] ∧ m.parameters ≠ [] ∨ behind = []) := by
  obtain ⟨_, _, rfl, front, closed⟩ := (covers_seq_iff ..).mp h
  obtain ⟨_, _, rfl, front, closeParen⟩ := (covers_seq_iff ..).mp front
  obtain ⟨_, _, rfl, front, listed⟩ := (covers_seq_iff ..).mp front
  obtain ⟨_, _, rfl, front, openParen⟩ := (covers_seq_iff ..).mp front
  obtain ⟨_, _, rfl, front, named⟩ := (covers_seq_iff ..).mp front
  obtain ⟨_, _, rfl, modified, typed⟩ := (covers_seq_iff ..).mp front
  obtain ⟨modifiers, rfl⟩ := Modifier.exists_of_covers modified
  obtain ⟨shape, typeFormed, rfl⟩ := TypeShape.exists_of_covers typed
  obtain ⟨name, rfl⟩ := (covers_name_iff _).mp named
  obtain ⟨ps, behind, formed, rfl, ends⟩ := Parameter.list_of_covers listed
  obtain ⟨body, bodyFormed, rfl⟩ := body_of_covers closed
  rw [(covers_punct_iff ..).mp openParen, (covers_punct_iff ..).mp closeParen]
  refine ⟨⟨modifiers, ⟨shape, .unknown⟩, name, ps, body, .unknown⟩, behind,
    ⟨typeFormed, formed, bodyFormed⟩, ?_, ends⟩
  simp [marksWith, tail]

theorem Class.exists_of_covers {ms : List Mark} (h : (symbol .classDeclaration).Covers ms) :
    ∃ (modifiers : List Modifier) (name : String) (parts : List (List Mark)),
      ms = modifiers.map .modifier ++ .word .classWord :: .name name :: .punct .openCurly ::
        (parts.flatten ++ [.punct .closeCurly]) ∧
      ∀ part ∈ parts, (symbol .member).Covers part := by
  obtain ⟨_, _, rfl, front, closing⟩ := (covers_seq_iff ..).mp ((covers_symbol_iff ..).mp h)
  obtain ⟨_, _, rfl, front, inside⟩ := (covers_seq_iff ..).mp front
  obtain ⟨_, _, rfl, front, opening⟩ := (covers_seq_iff ..).mp front
  obtain ⟨_, _, rfl, front, named⟩ := (covers_seq_iff ..).mp front
  obtain ⟨_, _, rfl, modified, word⟩ := (covers_seq_iff ..).mp front
  obtain ⟨modifiers, rfl⟩ := Modifier.exists_of_covers modified
  obtain ⟨name, rfl⟩ := (covers_name_iff _).mp named
  obtain ⟨parts, rfl, each⟩ := (covers_many_iff ..).mp inside
  rw [(covers_word_iff ..).mp word, (covers_punct_iff ..).mp opening,
    (covers_punct_iff ..).mp closing]
  exact ⟨modifiers, name, parts, by simp, each⟩

end Javelet
