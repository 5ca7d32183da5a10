import Javelet.Proofs.Members
import Javelet.Proofs.Report
import Javelet.Proofs.Vocabulary

namespace Javelet

namespace OneLine

theorem append {first second : String} (one : OneLine first) (other : OneLine second) :
    OneLine (first ++ second) := by
  unfold OneLine at *
  simp [one, other]

theorem of_graphic {text : String} (graphic : ∀ c ∈ text.toList, Text.Graphic c) :
    OneLine text := by
  intro member
  have printed := (graphic _ member).1
  revert printed
  decide

theorem repr (n : Nat) : OneLine n.repr := by
  apply of_graphic
  intro c member
  rw [Nat.toList_repr] at member
  exact Lexeme.graphic_of_isDigit (Nat.isDigit_of_mem_toDigits (by decide) (by decide) member)

end OneLine

namespace Lexeme

theorem isWordPart_of_isWord {cs : List Char} (word : isWord cs = true) :
    ∀ c ∈ cs, isWordPart c = true := by
  cases cs with
  | nil => cases word
  | cons c rest =>
    rw [isWord, Bool.and_eq_true, List.all_eq_true] at word
    exact List.forall_mem_cons.mpr ⟨isWordPart_of_isWordStart word.1, word.2⟩

theorem isWordPart_of_isDigit {c : Char} (digit : c.isDigit = true) : isWordPart c = true := by
  simp [isWordPart, Char.isAlphanum, digit]

theorem isWordPart_of_isBinary {c : Char} (binary : isBinary c = true) : isWordPart c = true := by
  simp only [isBinary, Bool.or_eq_true, beq_iff_eq] at binary
  obtain rfl | rfl := binary <;> decide

theorem isWordPart_of_isHex {c : Char} (hex : isHex c = true) : isWordPart c = true := by
  simp only [isHex, Bool.or_eq_true, Bool.and_eq_true, decide_eq_true_eq, Char.le_def] at hex
  obtain (digit | ⟨low, high⟩) | ⟨low, high⟩ := hex
  · exact isWordPart_of_isDigit digit
  · have lower : c.isLower = true := by
      simpa [Char.isLower] using ⟨low, UInt32.le_trans high (by decide : 'f'.val ≤ 'z'.val)⟩
    simp [isWordPart, Char.isAlphanum, Char.isAlpha, lower]
  · have upper : c.isUpper = true := by
      simpa [Char.isUpper] using ⟨low, UInt32.le_trans high (by decide : 'F'.val ≤ 'Z'.val)⟩
    simp [isWordPart, Char.isAlphanum, Char.isAlpha, upper]

theorem isWordPart_of_isDigits {isDigit : Char → Bool}
    (part : ∀ c, isDigit c = true → isWordPart c = true) {cs : List Char}
    (digits : isDigits isDigit cs = true) : ∀ c ∈ cs, isWordPart c = true := by
  simp only [isDigits, Bool.and_eq_true, List.all_eq_true, Bool.or_eq_true, beq_iff_eq] at digits
  intro c member
  obtain digit | rfl := digits.2 c member
  · exact part c digit
  · decide

theorem isWordPart_of_isLiteral {cs : List Char} (literal : isLiteral cs = true) :
    ∀ c ∈ cs, isWordPart c = true := by
  have based {a b : Char} {isDigit : Char → Bool}
      (marks : isWordPart a = true ∧ isWordPart b = true)
      (part : ∀ c, isDigit c = true → isWordPart c = true)
      (h : isBased (fun c => c == a || c == b) isDigit cs = true) :
      ∀ c ∈ cs, isWordPart c = true := by
    obtain ⟨mark, digits, rfl, marked, read⟩ := (isBased_iff ..).mp h
    simp only [Bool.or_eq_true, beq_iff_eq] at marked
    have base : isWordPart mark = true := by
      obtain rfl | rfl := marked
      · exact marks.1
      · exact marks.2
    simp only [List.forall_mem_cons]
    exact ⟨by decide, base, isWordPart_of_isDigits part read⟩
  simp only [isLiteral, Bool.or_eq_true] at literal
  obtain hex | binary | decimal := literal
  · exact based (by decide) (fun _ => isWordPart_of_isHex) hex
  · exact based (by decide) (fun _ => isWordPart_of_isBinary) binary
  · exact isWordPart_of_isDigits (fun _ => isWordPart_of_isDigit) decimal

end Lexeme

/-- A text in one piece, as names and numbers are. -/
def Solid (text : String) : Prop := ∀ c ∈ text.toList, Lexeme.isWordPart c = true

theorem Solid.oneLine {text : String} (solid : Solid text) : OneLine text :=
  .of_graphic fun c member => Lexeme.graphic_of_isWordPart (solid c member)

/-- All that is written is in one piece, apart from punctuation. -/
theorem Mark.solid_of_spelled {m : Mark} (spelled : m.Spelled) (other : ∀ p, m ≠ .punct p) :
    Solid m.text := by
  cases m with
  | name text => exact Lexeme.isWordPart_of_isWord spelled.1
  | number text => exact Lexeme.isWordPart_of_isLiteral spelled
  | punct p => exact absurd rfl (other p)
  | modifier m => exact Lexeme.isWordPart_of_isWord (Mark.isWord_modifier m).1
  | primitive p => exact Lexeme.isWordPart_of_isWord (Mark.isWord_primitive p).1
  | word w => exact Lexeme.isWordPart_of_isWord (Mark.isWord_keyword w).1
  | quoted | ending => cases spelled

theorem Mark.oneLine_of_spelled {m : Mark} (spelled : m.Spelled) : OneLine m.text := by
  by_cases other : ∀ p, m ≠ .punct p
  · exact (solid_of_spelled spelled other).oneLine
  · obtain ⟨p, rfl⟩ := not_forall_not.mp other
    exact OneLine.of_graphic (Lexeme.graphic_spelling p)

/-- All that is written there stays on its line. -/
def Mark.OneLine (ms : List Mark) : Prop := ∀ m ∈ ms, Javelet.OneLine m.text

theorem TypeShape.tag?_oneLine {shape : TypeShape} {tag : Tag} (typed : shape.tag? = some tag)
    (written : Mark.OneLine shape.marks) : OneLine tag.text := by
  unfold tag? at typed
  split at typed <;> cases typed
  · exact written (.primitive .int) (List.mem_singleton_self _)
  · exact written (.primitive .boolean) (List.mem_singleton_self _)
  · exact written (.name _) (List.mem_singleton_self _)

theorem TypeShape.resultTag?_oneLine {shape : TypeShape} {tag : Tag}
    (typed : shape.resultTag? = some tag) (written : Mark.OneLine shape.marks) :
    OneLine tag.text := by
  unfold resultTag? at typed
  split at typed
  · cases typed
    exact written (.primitive .void) (List.mem_singleton_self _)
  · exact tag?_oneLine typed written

theorem Class.name_mem_marks (c : Class) : Mark.name c.name ∈ c.marks := by
  simp [marks_eq]

theorem Class.marks_of_method {c : Class} {m : Method} (member : m ∈ c.methods) :
    m.marks ⊆ c.marks := by
  intro mark own
  have inside : mark ∈ c.members.flatMap Member.marks :=
    List.mem_flatMap.mpr ⟨.method m, by simp [members, member], own⟩
  simp [marks_eq, inside]

theorem Expression.text_eq_mark (e : Expression) : e.text = e.mark.text := by
  cases e with
  | boolean value span => cases value <;> rfl
  | number | null | name => rfl

/-- The types that are on record stay on their lines. -/
structure Signatures.OneLine (s : Signatures) : Prop where
  types : ∀ entry ∈ s.types, Javelet.OneLine entry.2.text
  parameters : ∀ method ∈ s.parameters, ∀ entry ∈ method.2, Javelet.OneLine entry.2.text

/-- Every type in sight stays on its line. -/
structure Environment.OneLine (env : Environment) : Prop where
  bindings : ∀ entry ∈ env.bindings, Javelet.OneLine entry.2.text
  globals : env.globals.OneLine

namespace Environment

theorem OneLine.typeOf {env : Environment} (plain : env.OneLine) (name : String) :
    Javelet.OneLine (env.typeOf name).text := by
  unfold Environment.typeOf Signatures.type?
  cases inner : env.bindings.lookup name with
  | some tag => exact plain.bindings _ (Bindings.mem_of_lookup inner)
  | none =>
    cases outer : env.globals.types.lookup name with
    | some tag => exact plain.globals.types _ (Bindings.mem_of_lookup outer)
    | none => exact (by decide : Javelet.OneLine Tag.error.text)

theorem OneLine.extend {env : Environment} (plain : env.OneLine)
    {bindings : List (String × Tag)}
    (added : ∀ entry ∈ bindings, Javelet.OneLine entry.2.text) : (env.extend bindings).OneLine :=
  ⟨List.forall_mem_append.mpr ⟨added, plain.bindings⟩, plain.globals⟩

theorem OneLine.bind {env : Environment} (plain : env.OneLine) (name : String) {tag : Tag}
    (typed : Javelet.OneLine tag.text) : (env.bind name tag).OneLine :=
  ⟨List.forall_mem_cons.mpr ⟨typed, plain.bindings⟩, plain.globals⟩

end Environment

theorem Expression.typeIn_oneLine {env : Environment} (plain : env.OneLine) (e : Expression) :
    OneLine (e.typeIn env).text := by
  cases e with
  | name text span => exact plain.typeOf text
  | number value text span => exact (by decide : OneLine Tag.int.text)
  | boolean value span => exact (by decide : OneLine Tag.boolean.text)
  | null span => exact (by decide : OneLine Tag.null.text)

/-- A tree that its report determines. -/
structure Obligation.Legible (tree : Obligation) : Prop where
  built : tree.Built
  unbroken : tree.Everywhere Unbroken

namespace Obligation

theorem legible_leaf {label : String} (plain : OneLine label) (holds : Bool) :
    Legible (.leaf label holds) := by
  refine ⟨.leaf .., everywhere_iff.mpr ⟨plain, ?_⟩⟩
  exact List.forall_mem_nil _

theorem legible_ofChildren {label : String} {trees : List Obligation} (plain : OneLine label)
    (each : ∀ tree ∈ trees, Legible tree) : Legible (.ofChildren label trees) := by
  constructor
  · exact .ofChildren label fun tree member => (each tree member).built
  · rw [everywhere_iff, children_ofChildren]
    constructor
    · rw [Unbroken, label_ofChildren]
      exact plain
    · split
      · intro tree member
        rw [List.mem_singleton.mp member]
        exact (legible_leaf (by decide) true).unbroken
      · intro tree member
        exact (each tree member).unbroken

end Obligation

namespace Derivation
open Obligation (Legible legible_leaf legible_ofChildren)

theorem judgment_oneLine {subject : String} {tag : Tag} (plain : OneLine subject)
    (typed : OneLine tag.text) : OneLine (judgment subject tag) :=
  (plain.append (by decide)).append typed

theorem lookup_legible {name : String} {tag : Tag} (plain : OneLine name)
    (typed : OneLine tag.text) : Legible (lookup name tag).tree := by
  unfold lookup
  dsimp only
  refine legible_ofChildren (judgment_oneLine plain typed) ?_
  rw [List.forall_mem_singleton]
  refine legible_leaf ?_ _
  exact (((by decide : OneLine "E(").append plain).append
    (by decide)).append typed

theorem verdict_oneLine {tag : Tag} (verdict : tag = .void ∨ tag = .error) :
    OneLine tag.text := by
  obtain rfl | rfl := verdict <;> decide

theorem ofParts_legible {subject : String} {parts : List Derivation} (plain : OneLine subject)
    (each : ∀ part ∈ parts, Legible part.tree) : Legible (ofParts subject parts).tree := by
  refine legible_ofChildren (judgment_oneLine plain ?_) (List.forall_mem_map.mpr each)
  exact verdict_oneLine (Tag.allVoid_proper _)

theorem numbered_oneLine (letter : String) (plain : OneLine letter) (number : Nat) :
    OneLine (letter ++ toString number) :=
  plain.append (.repr number)

theorem ofVariable_legible {number : Nat} {env : Environment} {declarator : Declarator} {tag : Tag}
    (visible : env.OneLine) (written : Mark.OneLine declarator.marks)
    (typed : OneLine tag.text) : Legible (ofVariable number env declarator tag).tree := by
  have own : OneLine declarator.name := written (.name _) List.mem_cons_self
  have verdict := verdict_oneLine (ofVariable_tag_proper number env declarator tag)
  unfold ofVariable at verdict ⊢
  dsimp only at verdict ⊢
  refine legible_ofChildren (judgment_oneLine ?_ ?_) ?_
  · exact numbered_oneLine "S" (by decide) number
  · exact verdict
  · rw [List.forall_mem_cons]
    refine ⟨lookup_legible own typed, ?_⟩
    cases value : declarator.value with
    | none => exact List.forall_mem_nil _
    | some e =>
      have text : OneLine e.text := by
        rw [e.text_eq_mark]
        exact written e.mark (by simp [Declarator.marks, value])
      have right := e.typeIn_oneLine visible
      simp only [ofValue, List.forall_mem_cons]
      refine ⟨lookup_legible text right, legible_leaf ?_ _, List.forall_mem_nil _⟩
      exact (typed.append (by decide)).append right

end Derivation

namespace Check
open Obligation (Legible legible_ofChildren)

theorem localDeclaration_legible {d : LocalDeclaration} {c c' : Checker} {r : Derivation}
    (written : Mark.OneLine d.marks) (visible : c.scopes.environment.OneLine)
    (run : (localDeclaration d).run c = .ok r c') :
    Legible r.tree ∧ c'.scopes.environment.OneLine := by
  obtain ⟨declarator, tag, bound, _, opened, rfl, rfl⟩ := (localDeclaration_ok_iff ..).mp run
  obtain ⟨single, typed⟩ := (Declarator.typed?_eq_some_iff ..).mp bound
  obtain ⟨front, _⟩ := List.forall_mem_append.mp written
  obtain ⟨shape, named⟩ := List.forall_mem_append.mp front
  have plain := TypeShape.tag?_oneLine typed shape
  have own : Mark.OneLine declarator.marks := by
    simpa [Mark.OneLine, single, Declarator.listMarks, Mark.listed] using named
  have extended := visible.bind declarator.name plain
  refine ⟨Derivation.ofVariable_legible extended own plain, ?_⟩
  change (c.bound declarator.name tag).scopes.environment.OneLine
  rwa [bound_environment opened]

theorem statement_legible :
    (∀ s c c' d, Mark.OneLine s.marks → c.scopes.environment.OneLine →
      (statement s).run c = .ok d c' → Legible d.tree ∧ c'.scopes.environment.OneLine) ∧
    ∀ body c c' parts, Mark.OneLine (Statement.marksIn body) → c.scopes.environment.OneLine →
      (statements body).run c = .ok parts c' →
      (∀ part ∈ parts, Legible part.tree) ∧ c'.scopes.environment.OneLine := by
  apply Statement.induct
  case block =>
    intro body span inside c c' d written visible run
    obtain ⟨scopes, _⟩ := statement_scopes.1 _ _ _ _ run
    obtain ⟨parts, m, ran, rfl, _⟩ := (block_ok_iff ..).mp run
    obtain ⟨_, within⟩ := List.forall_mem_cons.mp (List.forall_mem_append.mp written).1
    have around : c.opened.scopes.environment.OneLine := visible
    obtain ⟨each, _⟩ := inside _ _ _ within around ran
    constructor
    · refine Derivation.ofParts_legible ?_ each
      exact Derivation.numbered_oneLine "B" (by decide) m.blocks
    · rw [scopes]
      exact (Scopes.extend_nil c.scopes).symm ▸ visible
  case declaration =>
    intro d c c' r written visible run
    rw [statement] at run
    exact localDeclaration_legible written visible run
  case nil =>
    intro c c' parts _ visible run
    obtain ⟨rfl, rfl⟩ := (statements_nil_ok_iff ..).mp run
    exact ⟨List.forall_mem_nil _, visible⟩
  case cons =>
    intro first rest head tail c c' parts written visible run
    obtain ⟨part, m, others, ran, ranOthers, rfl⟩ := (statements_cons_ok_iff ..).mp run
    obtain ⟨here, later⟩ := List.forall_mem_append.mp written
    obtain ⟨own, between⟩ := head _ _ _ here visible ran
    obtain ⟨each, after⟩ := tail _ _ _ later between ranOthers
    exact ⟨List.forall_mem_cons.mpr ⟨own, each⟩, after⟩

/-- Whatever a checker finds on record stays on its line. -/
structure Ready (c : Checker) : Prop where
  owner : OneLine c.className
  visible : c.scopes.environment.OneLine

theorem Ready.of_same {c c' : Checker} (ready : Ready c)
    (same : c'.scopes = c.scopes ∧ c'.className = c.className) : Ready c' := by
  obtain ⟨owner, visible⟩ := ready
  rw [← same.2] at owner
  rw [← same.1] at visible
  exact ⟨owner, visible⟩

theorem Ready.entries {c : Checker} (ready : Ready c) (m : Method) :
    ∀ entry ∈ m.entries c.scopes.environment c.className, OneLine entry.2.text := by
  have first : ∀ entry ∈ (c.scopes.globals.parameters?
        (Signatures.memberName c.className m.name)).getD [] ++
      [("this", Tag.reference c.className)], OneLine entry.2.text := by
    rw [List.forall_mem_append, List.forall_mem_singleton]
    refine ⟨?_, ready.owner⟩
    cases found : c.scopes.globals.parameters? (Signatures.memberName c.className m.name) with
    | none => exact List.forall_mem_nil _
    | some entries => exact ready.visible.globals.parameters _ (Bindings.mem_of_lookup found)
  unfold Method.entries
  dsimp only
  rw [List.forall_mem_append, List.forall_mem_singleton]
  refine ⟨first, (ready.visible.extend fun entry member => ?_).typeOf _⟩
  exact first entry (List.mem_reverse.mp member)

theorem method_legible {m : Method} {body : Block} {c c' : Checker} {d : Derivation}
    (hasBody : m.body = some body) (written : Mark.OneLine m.marks) (ready : Ready c)
    (run : (method m body).run c = .ok d c') : Legible d.tree := by
  obtain ⟨_, _, inner, n, ran, rfl, _⟩ := (method_ok_iff ..).mp run
  rw [block_eq_statement] at ran
  have tail := (List.forall_mem_append.mp (List.forall_mem_append.mp written).2).2
  rw [Method.tail, hasBody] at tail
  simp only [Method.bodyMarks, List.forall_mem_cons, List.forall_mem_append] at tail
  obtain ⟨name, _, _, _, inside⟩ := tail
  have visible : (c.restarted.boundAll
      (m.entries c.scopes.environment c.className)).scopes.environment.OneLine := by
    rw [boundAll_environment (List.cons_ne_nil _ _)]
    exact ready.visible.extend fun entry member =>
      ready.entries m entry (List.mem_reverse.mp member)
  have bodyMarks : Mark.OneLine (Statement.ofBlock body).marks := by
    rw [Statement.ofBlock, Statement.marks, Statement.marksIn_eq_flatMap]
    exact inside
  have legible := (statement_legible.1 _ _ _ _ bodyMarks visible ran).1
  have verdict := (statement_agrees.1 _ _ _ _ ran).judged.tag
  unfold Derivation.ofMethod
  dsimp only
  refine legible_ofChildren (Derivation.judgment_oneLine ?_ ?_) ?_
  · exact (by decide : OneLine "method ").append
      ((ready.owner.append (by decide)).append name)
  · exact Derivation.verdict_oneLine verdict
  · exact List.forall_mem_singleton.mpr legible

theorem methods_legible {all : List Method} {c c' : Checker} {parts : List Derivation}
    (written : ∀ m ∈ all, Mark.OneLine m.marks) (ready : Ready c)
    (run : (methods all).run c = .ok parts c') : ∀ part ∈ parts, Legible part.tree := by
  induction all generalizing c parts with
  | nil =>
    obtain ⟨rfl, _⟩ := (methods_nil_ok_iff ..).mp run
    exact List.forall_mem_nil _
  | cons m rest ih =>
    obtain ⟨own, others⟩ := List.forall_mem_cons.mp written
    cases hasBody : m.body with
    | none =>
      rw [methods_bodiless hasBody] at run
      exact ih others ready run
    | some body =>
      obtain ⟨part, n, later, head, tail, rfl⟩ := (methods_cons_ok_iff hasBody ..).mp run
      rw [List.forall_mem_cons]
      exact ⟨method_legible hasBody own ready head,
        ih others (ready.of_same (method_scopes head)) tail⟩

theorem ofClass_legible {cls : Class} {c c' : Checker} {d : Derivation}
    (written : Mark.OneLine cls.marks) (visible : c.scopes.environment.OneLine)
    (run : (ofClass cls).run c = .ok d c') : Legible d.tree := by
  obtain ⟨parts, ran, rfl⟩ := (ofClass_ok_iff ..).mp run
  have name : OneLine cls.name := written _ (Class.name_mem_marks cls)
  have methods : ∀ m ∈ cls.methods, Mark.OneLine m.marks := fun m member mark own =>
    written mark (Class.marks_of_method member own)
  have ready : Ready { c with className := cls.name } := ⟨name, visible⟩
  refine Derivation.ofParts_legible ((by decide : OneLine "class ").append name) ?_
  exact methods_legible methods ready ran

theorem classes_legible {all : List Class} {c c' : Checker} {parts : List Derivation}
    (written : ∀ cls ∈ all, Mark.OneLine cls.marks) (visible : c.scopes.environment.OneLine)
    (run : (classes all).run c = .ok parts c') : ∀ part ∈ parts, Legible part.tree := by
  induction all generalizing c parts with
  | nil =>
    obtain ⟨rfl, _⟩ := (classes_nil_ok_iff ..).mp run
    exact List.forall_mem_nil _
  | cons cls rest ih =>
    obtain ⟨own, others⟩ := List.forall_mem_cons.mp written
    obtain ⟨part, n, later, head, tail, rfl⟩ := (classes_cons_ok_iff ..).mp run
    obtain ⟨_, ran, _⟩ := (ofClass_ok_iff ..).mp head
    have same : n.scopes = c.scopes := (methods_scopes ran).1
    rw [List.forall_mem_cons]
    exact ⟨ofClass_legible own visible head, ih others (by rwa [same]) tail⟩

end Check

theorem Signatures.oneLine_concat {all : List Signatures} (each : ∀ s ∈ all, s.OneLine) :
    (concat all).OneLine := by
  constructor
  · rw [types_concat]
    intro entry member
    obtain ⟨s, own, here⟩ := List.mem_flatMap.mp member
    exact (each s own).types entry here
  · rw [parameters_concat]
    intro method member
    obtain ⟨s, own, here⟩ := List.mem_flatMap.mp member
    exact (each s own).parameters method here

theorem Field.signatures_oneLine {f : Field} (written : Mark.OneLine f.marks) (owner : String) :
    (f.signatures owner).OneLine := by
  unfold signatures
  split
  · rename_i declarator tag bound
    have typed := ((Declarator.typed?_eq_some_iff ..).mp bound).2
    have shape := (List.forall_mem_append.mp (List.forall_mem_append.mp written).2).1
    have plain := TypeShape.tag?_oneLine typed shape
    exact ⟨List.forall_mem_singleton.mpr plain, List.forall_mem_nil _⟩
  · exact ⟨List.forall_mem_nil _, List.forall_mem_nil _⟩

theorem Parameter.tags_oneLine {written : List Parameter}
    (each : ∀ p ∈ written, Mark.OneLine p.marks) :
    ∀ entry ∈ tags written, OneLine entry.2.text := by
  intro entry member
  obtain ⟨p, own, found⟩ := List.mem_filterMap.mp member
  obtain ⟨tag, typed, rfl⟩ := Option.map_eq_some_iff.mp found
  exact TypeShape.tag?_oneLine typed (List.forall_mem_append.mp (each p own)).1

theorem Method.signatures_oneLine {m : Method} (written : Mark.OneLine m.marks) (owner : String) :
    (m.signatures owner).OneLine := by
  obtain ⟨_, after⟩ := List.forall_mem_append.mp written
  obtain ⟨shape, tail⟩ := List.forall_mem_append.mp after
  simp only [Method.tail, List.append_nil, List.forall_mem_cons, List.forall_mem_append] at tail
  have parameters : ∀ p ∈ m.parameters, Mark.OneLine p.marks := by
    intro p member mark own
    exact tail.2.2.1 mark (Mark.mem_listed (List.mem_map_of_mem member) own)
  unfold signatures
  dsimp only
  split
  · rename_i tag typed
    have plain := TypeShape.resultTag?_oneLine typed shape
    exact ⟨List.forall_mem_singleton.mpr plain,
      List.forall_mem_singleton.mpr (Parameter.tags_oneLine parameters)⟩
  · exact ⟨List.forall_mem_nil _, List.forall_mem_nil _⟩

theorem Class.signatures_oneLine {c : Class} (written : Mark.OneLine c.marks) :
    c.signatures.OneLine := by
  have inside : ∀ m ∈ c.members, Mark.OneLine m.marks := by
    rw [Class.marks_eq] at written
    have later := (List.forall_mem_append.mp written).2
    simp only [List.forall_mem_cons, List.forall_mem_append] at later
    intro m member mark own
    exact later.2.2.2.1 mark (List.mem_flatMap.mpr ⟨m, member, own⟩)
  simp only [members, List.forall_mem_append, List.forall_mem_map, Member.marks] at inside
  apply Signatures.oneLine_concat
  rw [List.forall_mem_append, List.forall_mem_map, List.forall_mem_map]
  exact ⟨fun f member => f.signatures_oneLine (inside.1.1 f member) c.name,
    fun m member => m.signatures_oneLine (inside.1.2 m member) c.name⟩

/-- The tree behind a verdict on a source is one that its report determines. -/
theorem check_legible {source file : String} {checked : Checked}
    (done : check source file = .ok checked) : checked.verdict.root.Legible := by
  obtain ⟨u, parsed, rest⟩ := (Run.except_bind_ok_iff ..).mp done
  obtain ⟨signatures, collected, rest⟩ := (Run.except_bind_ok_iff ..).mp rest
  obtain ⟨verdict, judged, ended⟩ := (Run.except_bind_ok_iff ..).mp rest
  cases ended
  have written : ∀ c ∈ u.classes, Mark.OneLine c.marks := fun c member m own =>
    Mark.oneLine_of_spelled (CompilationUnit.marks_spelled parsed c member m own)
  obtain ⟨_, rfl⟩ := (Signatures.ofUnit_ok_iff ..).mp collected
  have recorded : (Signatures.concat (u.classes.map Class.signatures)).OneLine :=
    Signatures.oneLine_concat
      (List.forall_mem_map.mpr fun c member => Class.signatures_oneLine (written c member))
  obtain ⟨d, c', run, rfl⟩ := (Verdict.ofUnit_ok_iff ..).mp judged
  obtain ⟨parts, ran, rfl⟩ := (Check.unit_ok_iff ..).mp run
  refine Derivation.ofParts_legible (by decide) ?_
  have visible : (Checker.initial (Signatures.concat
      (u.classes.map Class.signatures))).scopes.environment.OneLine :=
    ⟨List.forall_mem_nil _, recorded⟩
  exact Check.classes_legible written visible ran

/-- Trees that are built of leaves and groups, with labels of one line, can be told from their
reports. A report has one line for each node, in the order of a walk from the root, and the mark
on it is of the leaves at or below the node. Every tree that checking a source ends with is such
a tree. -/
theorem reports_determine_trees :
    (∀ tree tree' : Obligation, tree.Built → tree'.Built →
      tree.Everywhere Obligation.Unbroken → tree'.Everywhere Obligation.Unbroken →
      tree.report = tree'.report → tree = tree') ∧
    (∀ tree : Obligation, tree.Built → tree.Everywhere Obligation.Unbroken →
      Obligation.ofReport? tree.report = some tree) ∧
    (∀ tree : Obligation, tree.Everywhere Obligation.Unbroken →
      tree.report.toList.splitOn '\n' = tree.nodes.map (fun node =>
        List.replicate (2 * node.1) ' ' ++
          (if ∃ leaf ∈ node.2.leaves, leaf.2 = false then "[FAIL]" else "[ok]  ").toList ++
          ' ' :: node.2.label.toList) ++ [[]]) ∧
    ∀ source file checked, check source file = .ok checked →
      checked.verdict.root.Everywhere Obligation.Unbroken ∧
      checked.verdict.root.Everywhere (fun node => ∀ label, node ≠ .group label []) ∧
      Obligation.ofReport? checked.verdict.root.report = some checked.verdict.root := by
  refine ⟨?_, fun _ => Obligation.ofReport?_report, ?_, ?_⟩
  · intro tree tree' built built' unbroken unbroken' same
    have read := Obligation.ofReport?_report built unbroken
    rw [same, Obligation.ofReport?_report built' unbroken'] at read
    exact (Option.some.inj read).symm
  · intro tree unbroken
    rw [Obligation.splitOn_report unbroken]
    congr 1
    exact List.map_congr_left fun node _ => Obligation.text_entry node
  · intro source file checked done
    have legible := check_legible done
    exact ⟨legible.unbroken, (Obligation.built_iff _).mp legible.built,
      Obligation.ofReport?_report legible.built legible.unbroken⟩

/-- A label that looks like the front of a line, and the tree of a source in which a value does not
fit. -/
theorem reports_determine_trees_sample :
    let tree := Obligation.ofChildren "A" [.leaf "  [ok]" false, .ofChildren "B" []]
    (tree.Built ∧ tree.Everywhere Obligation.Unbroken ∧
      Obligation.ofReport? tree.report = some tree ∧
      (∀ tree' : Obligation, tree'.Built → tree'.Everywhere Obligation.Unbroken →
        tree'.report = tree.report → tree' = tree) ∧
      (tree.report.toList.splitOn '\n').length = 5) ∧
    ∃ checked, check "class C\x7bvoid m()\x7bint x=true;\x7d\x7d" "" = .ok checked ∧
      Obligation.ofReport? checked.verdict.root.report = some checked.verdict.root := by
  intro tree
  obtain ⟨injective, read, lines, sources⟩ := reports_determine_trees
  constructor
  · have legible : tree.Legible := by
      refine Obligation.legible_ofChildren (by decide) ?_
      rw [List.forall_mem_cons, List.forall_mem_singleton]
      exact ⟨Obligation.legible_leaf (by decide) _,
        Obligation.legible_ofChildren (by decide) (List.forall_mem_nil _)⟩
    refine ⟨legible.built, legible.unbroken, read _ legible.built legible.unbroken, ?_, ?_⟩
    · intro tree' built unbroken same
      exact injective _ _ built legible.built unbroken legible.unbroken same
    · rw [lines tree legible.unbroken]
      simp [tree, Obligation.ofChildren, Obligation.nodes, Obligation.nodesAt, Obligation.nodesIn,
        Obligation.trivial]
  · have well : (check "class C\x7bvoid m()\x7bint x=true;\x7d\x7d" "").isOk = true := by cbv
    obtain ⟨checked, done⟩ := Run.exists_of_isOk well
    exact ⟨checked, done, (sources _ _ _ done).2.2⟩

end Javelet
