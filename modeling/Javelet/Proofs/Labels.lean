import Javelet.Proofs.Legibility
import Javelet.Proofs.Noninterference

/-! What the label of a leaf tells of its verdict. A class can have the name by which a label says
that there is no type, or that a value is null. Apart from that, leaves of one label agree. -/
namespace Javelet

/-- A leaf says nothing, that a name or literal has a type, or that a value fits a variable. -/
inductive Assertion where
  | nothing
  | typed (subject : String) (tag : Tag)
  | fits (left right : Tag)

namespace Assertion

def label : Assertion → String
  | nothing => "true"
  | typed subject tag => "E(" ++ subject ++ ") = " ++ tag.text
  | fits left right => left.text ++ " := " ++ right.text

def holds : Assertion → Bool
  | nothing => true
  | typed _ tag => !tag.isError
  | fits left right => left.assignable right

def leaf (a : Assertion) : String × Bool := (a.label, a.holds)

end Assertion

/-- A type that a value can have where these classes are in sight. -/
def Tag.Known (names : List String) : Tag → Prop
  | .reference name => name ∈ names
  | .void => False
  | _ => True

/-- A type that a variable can be declared with. -/
def Tag.Declared (names : List String) (tag : Tag) : Prop :=
  tag.Known names ∧ tag ≠ .error ∧ tag ≠ .null

/-- What a leaf can say where these classes are in sight. -/
def Assertion.Known (names : List String) : Assertion → Prop
  | nothing => True
  | typed subject tag => Solid subject ∧ tag.Known names
  | fits left right => left.Declared names ∧ right.Known names

namespace Solid

variable {p : Char → Bool} {front front' back back' : List Char} {stop stop' : Char}

/-- Two lists that are equal have the same part up to the first stop. -/
theorem cut (one : ∀ c ∈ front, p c = true) (other : ∀ c ∈ front', p c = true)
    (ends : p stop = false) (ends' : p stop' = false)
    (same : front ++ stop :: back = front' ++ stop' :: back') :
    front = front' ∧ stop = stop' ∧ back = back' := by
  have fronts := congrArg (List.takeWhile p) same
  rw [List.takeWhile_append_of_pos one, List.takeWhile_append_of_pos other,
    List.takeWhile_cons_of_neg (by simp [ends]), List.takeWhile_cons_of_neg (by simp [ends']),
    List.append_nil, List.append_nil] at fronts
  subst fronts
  exact ⟨rfl, List.cons_eq_cons.mp (List.append_cancel_left same)⟩

/-- They have the same part behind the last stop. -/
theorem cut_back (one : ∀ c ∈ back, p c = true) (other : ∀ c ∈ back', p c = true)
    (ends : p stop = false) (ends' : p stop' = false)
    (same : front ++ stop :: back = front' ++ stop' :: back') : back = back' := by
  have reversed := congrArg List.reverse same
  simp only [List.reverse_append, List.reverse_cons, List.append_assoc, List.cons_append,
    List.nil_append] at reversed
  have backs := (cut (by simpa using one) (by simpa using other) ends ends' reversed).1
  exact List.reverse_inj.mp backs

end Solid

variable {names : List String}

theorem Tag.solid (spelled : ∀ name ∈ names, (Mark.name name).Spelled) {tag : Tag}
    (known : tag.Known names) : Solid tag.text := by
  cases tag with
  | reference name => exact Lexeme.isWordPart_of_isWord (spelled name known).1
  | void => cases known
  | int | boolean | null | error =>
    apply Lexeme.isWordPart_of_isWord
    decide

/-- A class that has the name of what is no class. -/
inductive Tag.Clash : Tag → Tag → Prop
  | error : Clash .error (.reference "ERROR")
  | null : Clash .null (.reference "nullType")

theorem Tag.eq_or_clash_reference {name : String} (spelled : (Mark.name name).Spelled) {tag : Tag}
    (known : tag.Known names) (same : tag.text = name) :
    tag = .reference name ∨ Clash tag (.reference name) := by
  subst same
  cases tag with
  | int | boolean => exact absurd spelled.2 (by decide)
  | void => cases known
  | error => exact .inr .error
  | null => exact .inr .null
  | reference name => exact .inl rfl

/-- Types of one text are the same, unless they clash. -/
theorem Tag.eq_or_clash (spelled : ∀ name ∈ names, (Mark.name name).Spelled) {s t : Tag}
    (known : s.Known names) (known' : t.Known names) (same : s.text = t.text) :
    s = t ∨ Clash s t ∨ Clash t s := by
  cases t with
  | reference name =>
    obtain equal | clash := eq_or_clash_reference (spelled name known') known same
    · exact .inl equal
    · exact .inr (.inl clash)
  | int | boolean | void | null | error =>
    cases s with
    | reference name =>
      obtain equal | clash := eq_or_clash_reference (spelled name known) known' same.symm
      · exact .inl equal.symm
      · exact .inr (.inr clash)
    | int | boolean | void | null | error =>
      left
      revert same
      decide

/-- Declared types of one text are the same. -/
theorem Tag.Declared.eq (spelled : ∀ name ∈ names, (Mark.name name).Spelled) {s t : Tag}
    (declared : s.Declared names) (declared' : t.Declared names) (same : s.text = t.text) :
    s = t := by
  obtain ⟨known, proper, other⟩ := declared
  obtain ⟨known', proper', other'⟩ := declared'
  obtain equal | clash | clash := eq_or_clash spelled known known' same
  · exact equal
  · cases clash with
    | error => exact absurd rfl proper
    | null => exact absurd rfl other
  · cases clash with
    | error => exact absurd rfl proper'
    | null => exact absurd rfl other'

namespace Assertion

/-- Assertions that differ at most in the type that comes last, and not in its text. -/
inductive Alike : Assertion → Assertion → Prop
  | nothing : Alike nothing nothing
  | typed (subject : String) {s t : Tag} : s.text = t.text →
      Alike (typed subject s) (typed subject t)
  | fits (left : Tag) {s t : Tag} : s.text = t.text → Alike (fits left s) (fits left t)

theorem toList_label_typed (subject : String) (tag : Tag) :
    (typed subject tag).label.toList =
      ['E'] ++ '(' :: (subject.toList ++ ')' :: ' ' :: '=' :: ' ' :: tag.text.toList) := by
  simp [label]

theorem toList_label_fits (left right : Tag) :
    (fits left right).label.toList =
      left.text.toList ++ ' ' :: ':' :: '=' :: ' ' :: right.text.toList := by
  simp [label]

/-- A label falls into its parts in one way only. -/
theorem alike_of_label (spelled : ∀ name ∈ names, (Mark.name name).Spelled) {a b : Assertion}
    (known : a.Known names) (known' : b.Known names) (same : a.label = b.label) : Alike a b := by
  -- behind the first word of a label is nothing, a parenthesis or a blank
  have texts := congrArg String.toList same
  have letter : ∀ c ∈ ['E'], Lexeme.isWordPart c = true := List.forall_mem_singleton.mpr (by decide)
  have word : ' ' ∉ nothing.label.toList := by decide
  have front : 'E' ∉ nothing.label.toList := by decide
  cases a with
  | nothing =>
    cases b with
    | nothing => exact .nothing
    | typed subject tag =>
      rw [texts, toList_label_typed] at front
      simp at front
    | fits left right =>
      rw [texts, toList_label_fits] at word
      simp at word
  | typed subject tag =>
    rw [toList_label_typed] at texts
    cases b with
    | nothing =>
      rw [← texts] at front
      simp at front
    | typed subject' tag' =>
      rw [toList_label_typed] at texts
      obtain ⟨_, _, rest⟩ := Solid.cut letter letter (by decide) (by decide) texts
      obtain ⟨subjects, _, types⟩ := Solid.cut known.1 known'.1 (by decide) (by decide) rest
      simp only [List.cons.injEq, true_and] at types
      rw [String.toList_inj.mp subjects]
      exact .typed subject' (String.toList_inj.mp types)
    | fits left right =>
      rw [toList_label_fits] at texts
      have solid := Tag.solid spelled known'.1.1
      obtain ⟨_, stop, _⟩ := Solid.cut letter solid (by decide) (by decide) texts
      exact absurd stop (by decide)
  | fits left right =>
    rw [toList_label_fits] at texts
    have solid := Tag.solid spelled known.1.1
    cases b with
    | nothing =>
      rw [← texts] at word
      simp at word
    | typed subject tag =>
      rw [toList_label_typed] at texts
      obtain ⟨_, stop, _⟩ := Solid.cut solid letter (by decide) (by decide) texts
      exact absurd stop (by decide)
    | fits left' right' =>
      rw [toList_label_fits] at texts
      have solid' := Tag.solid spelled known'.1.1
      obtain ⟨lefts, _, rights⟩ := Solid.cut solid solid' (by decide) (by decide) texts
      simp only [List.cons.injEq, true_and] at rights
      obtain rfl := Tag.Declared.eq spelled known.1 known'.1 (String.toList_inj.mp lefts)
      exact .fits left (String.toList_inj.mp rights)

/-- The labels that leaves of either verdict can have. -/
inductive Ambiguous (names : List String) : String → Prop
  | typed (subject : String) : "ERROR" ∈ names → Ambiguous names ("E(" ++ subject ++ ") = ERROR")
  | fits : "ERROR" ∈ names → Ambiguous names "ERROR := ERROR"
  | null {name : String} : "nullType" ∈ names → name ∈ names → name ≠ "nullType" →
      Ambiguous names (name ++ " := nullType")

theorem Ambiguous.named {label : String} (ambiguous : Ambiguous names label) :
    "ERROR" ∈ names ∨ "nullType" ∈ names := by
  cases ambiguous with
  | typed _ named => exact .inl named
  | fits named => exact .inl named
  | null named => exact .inr named

theorem Alike.ambiguous (spelled : ∀ name ∈ names, (Mark.name name).Spelled) {a b : Assertion}
    (alike : Alike a b) (known : a.Known names) (known' : b.Known names) (holds : a.holds = true)
    (fails : b.holds = false) : Ambiguous names a.label := by
  cases alike with
  | nothing => cases fails
  | @typed subject s t same =>
    simp only [Assertion.holds, Tag.isError, Bool.not_eq_true', Bool.not_eq_false', beq_iff_eq,
      beq_eq_false_iff_ne] at holds fails
    subst fails
    obtain equal | clash | clash := Tag.eq_or_clash spelled known.2 known'.2 same
    · exact absurd equal holds
    · cases clash
    · cases clash
      have label : "E(" ++ subject ++ ") = " ++ "ERROR" = "E(" ++ subject ++ ") = ERROR" :=
        String.append_assoc
      rw [Assertion.label, Tag.text, label]
      exact .typed subject known.2
  | @fits left s t same =>
    simp only [Assertion.holds] at holds fails
    have valued := (Tag.assignable_iff ..).mp holds
    obtain equal | clash | clash := Tag.eq_or_clash spelled known.2 known'.2 same
    · rw [equal, fails] at holds
      cases holds
    · cases clash with
      | error => exact absurd rfl (Tag.ne_error_of_assignable holds)
      | null =>
        obtain ⟨name, rfl⟩ : ∃ name, left = .reference name := by
          obtain ⟨_, rfl | ⟨_, found⟩⟩ := valued
          · exact absurd rfl known.1.2.2
          · exact found
        have label : name ++ " := " ++ "nullType" = name ++ " := nullType" := String.append_assoc
        rw [Assertion.label, Tag.text, Tag.text, label]
        refine .null known'.2 known.1.1 ?_
        rintro rfl
        exact absurd fails (by decide)
    · cases clash with
      | error =>
        obtain ⟨_, rfl | ⟨absent, _⟩⟩ := valued
        · exact .fits known.2
        · cases absent
      | null =>
        obtain ⟨_, rfl | ⟨absent, _⟩⟩ := valued
        · exact absurd fails (by decide)
        · cases absent

/-- Where no class is named so, the name of the error type stands for that type. -/
theorem mem_of_holds (spelled : ∀ name ∈ names, (Mark.name name).Spelled) {a : Assertion}
    (known : a.Known names) {front : String} (ends : a.label = front ++ "= ERROR")
    (holds : a.holds = true) : "ERROR" ∈ names := by
  have texts := congrArg String.toList ends
  have right : (front ++ "= ERROR").toList = (front.toList ++ ['=']) ++ ' ' :: "ERROR".toList := by
    simp
  have solid : Solid "ERROR" := Lexeme.isWordPart_of_isWord (by decide)
  rw [right] at texts
  -- the type behind the last blank has the text of the error type, and it is another
  have clash {tag : Tag} (before : List Char) (typed : tag.Known names) (proper : tag ≠ .error)
      (label : a.label.toList = before ++ ' ' :: tag.text.toList) : "ERROR" ∈ names := by
    have text : tag.text = Tag.error.text := String.toList_inj.mp
      (Solid.cut_back (Tag.solid spelled typed) solid (by decide) (by decide)
        (label.symm.trans texts))
    obtain equal | clash | clash := Tag.eq_or_clash (t := .error) spelled typed trivial text
    · exact absurd equal proper
    · cases clash
    · cases clash
      exact typed
  cases a with
  | nothing =>
    have absent : ' ' ∉ nothing.label.toList := by decide
    rw [texts] at absent
    simp at absent
  | typed subject tag =>
    have proper : tag ≠ .error := by simpa [Assertion.holds, Tag.isError] using holds
    refine clash ('E' :: '(' :: (subject.toList ++ [')', ' ', '='])) known.2 proper ?_
    rw [toList_label_typed]
    simp
  | fits left tag =>
    have proper : tag ≠ .error := Tag.ne_error_of_assignable holds
    refine clash (left.text.toList ++ [' ', ':', '=']) known.2 proper ?_
    rw [toList_label_fits]
    simp

end Assertion

/-- The class that a type names. -/
def TypeShape.className? : TypeShape → Option String
  | .simple name => some name
  | _ => none

theorem TypeShape.tag?_known {shape : TypeShape} {tag : Tag} (typed : shape.tag? = some tag)
    (named : ∀ name ∈ shape.className?, name ∈ names) : tag.Known names := by
  unfold tag? at typed
  split at typed <;> cases typed
  · trivial
  · trivial
  · exact named _ rfl

theorem Expression.solid_text (e : Expression) (spelled : e.mark.Spelled) : Solid e.text := by
  rw [e.text_eq_mark]
  refine Mark.solid_of_spelled spelled fun p => ?_
  cases e with
  | boolean value span => cases value <;> exact Mark.noConfusion
  | name | number | null => exact Mark.noConfusion

/-- Whatever name a source uses has a type of these classes there. -/
def Environment.Known (names : List String) (env : Environment) : Prop :=
  ∀ name, (Mark.name name).Spelled → (env.typeOf name).Known names

namespace Environment.Known

variable {env : Environment}

theorem extend (known : env.Known names) {bindings : List (String × Tag)}
    (added : ∀ entry ∈ bindings, (Mark.name entry.1).Spelled → entry.2.Known names) :
    (env.extend bindings).Known names := by
  intro name spelled
  cases found : bindings.lookup name with
  | some tag =>
    have own : (env.extend bindings).typeOf name = tag := by
      simp [typeOf, Environment.extend, List.lookup_append, found]
    rw [own]
    exact added _ (Bindings.mem_of_lookup found) spelled
  | none =>
    have outer : (env.extend bindings).typeOf name = env.typeOf name := by
      simp [typeOf, Environment.extend, List.lookup_append, found]
    rw [outer]
    exact known name spelled

theorem bind (known : env.Known names) (name : String) {tag : Tag} (typed : tag.Known names) :
    (env.bind name tag).Known names :=
  known.extend (List.forall_mem_singleton.mpr fun _ => typed)

theorem typeIn (known : env.Known names) {e : Expression} (spelled : e.mark.Spelled) :
    (e.typeIn env).Known names := by
  cases e with
  | name text span => exact known text spelled
  | number value text span => trivial
  | boolean value span => trivial
  | null span => trivial

end Environment.Known

/-- Every leaf of the tree says something of these classes. -/
def Obligation.Asserts (names : List String) (tree : Obligation) : Prop :=
  ∀ leaf ∈ tree.leaves, ∃ a : Assertion, a.Known names ∧ a.leaf = leaf

namespace Obligation

theorem leavesIn_eq_flatMap (trees : List Obligation) : leavesIn trees = trees.flatMap leaves := by
  induction trees with
  | nil => rfl
  | cons tree rest ih => rw [leavesIn, ih, List.flatMap_cons]

theorem asserts_leaf {a : Assertion} (known : a.Known names) :
    (Obligation.leaf a.label a.holds).Asserts names := by
  rw [Asserts, leaves, List.forall_mem_singleton]
  exact ⟨a, known, rfl⟩

theorem asserts_ofChildren {label : String} {trees : List Obligation}
    (each : ∀ tree ∈ trees, tree.Asserts names) : (ofChildren label trees).Asserts names := by
  cases trees with
  | nil => exact List.forall_mem_singleton.mpr ⟨.nothing, True.intro, rfl⟩
  | cons first rest =>
    rw [ofChildren, Asserts, leaves]
    · intro leaf member
      rw [leavesIn_eq_flatMap] at member
      obtain ⟨tree, own, below⟩ := List.mem_flatMap.mp member
      exact each tree own leaf below
    · simp

end Obligation

namespace Derivation
open Obligation (asserts_leaf asserts_ofChildren)

theorem lookup_asserts {name : String} {tag : Tag} (solid : Solid name) (known : tag.Known names) :
    (lookup name tag).tree.Asserts names := by
  refine asserts_ofChildren (List.forall_mem_singleton.mpr ?_)
  exact asserts_leaf (a := .typed name tag) ⟨solid, known⟩

theorem ofParts_asserts {subject : String} {parts : List Derivation}
    (each : ∀ part ∈ parts, part.tree.Asserts names) : (ofParts subject parts).tree.Asserts names :=
  asserts_ofChildren (List.forall_mem_map.mpr each)

theorem ofVariable_asserts {number : Nat} {env : Environment} {declarator : Declarator} {tag : Tag}
    (visible : env.Known names) (spelled : ∀ m ∈ declarator.marks, m.Spelled)
    (typed : tag.Known names) (proper : tag ≠ .error ∧ tag ≠ .null) :
    (ofVariable number env declarator tag).tree.Asserts names := by
  have own : Solid declarator.name :=
    Lexeme.isWordPart_of_isWord (spelled (.name _) List.mem_cons_self).1
  refine asserts_ofChildren (List.forall_mem_cons.mpr ⟨lookup_asserts own typed, ?_⟩)
  cases value : declarator.value with
  | none => exact List.forall_mem_nil _
  | some e =>
    have written : e.mark.Spelled := spelled e.mark (by simp [Declarator.marks, value])
    have right := visible.typeIn written
    simp only [ofValue, List.forall_mem_cons]
    refine ⟨lookup_asserts (e.solid_text written) right, ?_, List.forall_mem_nil _⟩
    exact asserts_leaf (a := .fits tag (e.typeIn env)) ⟨⟨typed, proper⟩, right⟩

end Derivation

/-- The classes that values are of in a method with a body: its own, of which `this` is, and those
of its parameters and local variables. -/
def Method.typeNames (owner : String) (m : Method) : List String :=
  if m.body.isSome then
    owner :: (m.parameters.map (·.type) ++ m.sites.map (·.declaration.type)).filterMap
      (·.shape.className?)
  else []

def CompilationUnit.typeNames (u : CompilationUnit) : List String :=
  u.classes.flatMap fun cls => cls.methods.flatMap (Method.typeNames cls.name)

/-- A method that is written and on record with these classes. -/
structure Method.Covered (names : List String) (globals : Signatures) (owner : String)
    (m : Method) : Prop where
  spelled : ∀ mark ∈ m.marks, mark.Spelled
  named : ∀ name ∈ m.typeNames owner, name ∈ names
  recorded : m.body.isSome = true →
    ∀ entry ∈ (globals.parameters? (Signatures.memberName owner m.name)).getD [],
      entry.2.Known names

namespace Check

theorem localDeclaration_asserts {d : LocalDeclaration} {c c' : Checker} {r : Derivation}
    (spelled : ∀ m ∈ d.marks, m.Spelled)
    (named : ∀ name ∈ d.type.shape.className?, name ∈ names)
    (visible : c.scopes.environment.Known names) (run : (localDeclaration d).run c = .ok r c') :
    r.tree.Asserts names ∧ c'.scopes.environment.Known names := by
  obtain ⟨declarator, tag, bound, _, opened, rfl, rfl⟩ := (localDeclaration_ok_iff ..).mp run
  obtain ⟨single, typed⟩ := (Declarator.typed?_eq_some_iff ..).mp bound
  have own : ∀ m ∈ declarator.marks, m.Spelled := by
    intro m member
    refine spelled m (List.mem_append_left _ (List.mem_append_right _ ?_))
    simpa [single, Declarator.listMarks, Mark.listed] using member
  have known := TypeShape.tag?_known typed named
  have extended := visible.bind declarator.name known
  obtain ⟨proper, other, _⟩ := TypeShape.tag?_proper typed
  refine ⟨Derivation.ofVariable_asserts extended own known ⟨proper, other⟩, ?_⟩
  change (c.bound declarator.name tag).scopes.environment.Known names
  rwa [bound_environment opened]

theorem statement_asserts :
    (∀ s c c' d earlier, (∀ m ∈ s.marks, m.Spelled) →
      (∀ site ∈ s.sites earlier, ∀ name ∈ site.declaration.type.shape.className?, name ∈ names) →
      c.scopes.environment.Known names → (statement s).run c = .ok d c' →
      d.tree.Asserts names ∧ c'.scopes.environment.Known names) ∧
    ∀ body c c' parts earlier, (∀ m ∈ Statement.marksIn body, m.Spelled) →
      (∀ site ∈ Statement.sitesIn earlier body,
        ∀ name ∈ site.declaration.type.shape.className?, name ∈ names) →
      c.scopes.environment.Known names → (statements body).run c = .ok parts c' →
      (∀ part ∈ parts, part.tree.Asserts names) ∧ c'.scopes.environment.Known names := by
  apply Statement.induct
  case block =>
    intro body span inside c c' d earlier spelled named visible run
    obtain ⟨scopes, _⟩ := statement_scopes.1 _ _ _ _ run
    obtain ⟨parts, m, ran, rfl, _⟩ := (block_ok_iff ..).mp run
    obtain ⟨_, within⟩ := List.forall_mem_cons.mp (List.forall_mem_append.mp spelled).1
    have around : c.opened.scopes.environment.Known names := visible
    obtain ⟨each, _⟩ := inside _ _ _ earlier within named around ran
    constructor
    · exact Derivation.ofParts_asserts each
    · rw [scopes]
      exact (Scopes.extend_nil c.scopes).symm ▸ visible
  case declaration =>
    intro d c c' r earlier spelled named visible run
    rw [statement] at run
    exact localDeclaration_asserts spelled (named _ (List.mem_singleton_self _)) visible run
  case nil =>
    intro c c' parts earlier _ _ visible run
    obtain ⟨rfl, rfl⟩ := (statements_nil_ok_iff ..).mp run
    exact ⟨List.forall_mem_nil _, visible⟩
  case cons =>
    intro first rest head tail c c' parts earlier spelled named visible run
    obtain ⟨part, m, others, ran, ranOthers, rfl⟩ := (statements_cons_ok_iff ..).mp run
    obtain ⟨here, later⟩ := List.forall_mem_append.mp spelled
    rw [Statement.sitesIn] at named
    obtain ⟨sites, further⟩ := List.forall_mem_append.mp named
    obtain ⟨own, between⟩ := head _ _ _ _ here sites visible ran
    obtain ⟨each, after⟩ := tail _ _ _ _ later further between ranOthers
    exact ⟨List.forall_mem_cons.mpr ⟨own, each⟩, after⟩

theorem method_asserts {m : Method} {body : Block} {c c' : Checker} {d : Derivation}
    (hasBody : m.body = some body) (covered : m.Covered names c.scopes.globals c.className)
    (visible : c.scopes.environment.Known names) (run : (method m body).run c = .ok d c') :
    d.tree.Asserts names := by
  obtain ⟨_, _, inner, n, ran, rfl, _⟩ := (method_ok_iff ..).mp run
  rw [block_eq_statement] at ran
  have tail := (List.forall_mem_append.mp (List.forall_mem_append.mp covered.spelled).2).2
  rw [Method.tail, hasBody] at tail
  simp only [Method.bodyMarks, List.forall_mem_cons, List.forall_mem_append] at tail
  obtain ⟨_, _, _, _, inside⟩ := tail
  have bodyMarks : ∀ mark ∈ (Statement.ofBlock body).marks, mark.Spelled := by
    rw [Statement.ofBlock, Statement.marks, Statement.marksIn_eq_flatMap]
    exact inside
  have present : m.body.isSome = true := by rw [hasBody]; rfl
  have named := covered.named
  rw [Method.typeNames, if_pos present, List.forall_mem_cons, List.filterMap_append,
    List.forall_mem_append] at named
  have sites : ∀ site ∈ (Statement.ofBlock body).sites [],
      ∀ name ∈ site.declaration.type.shape.className?, name ∈ names := by
    rw [Method.sites_eq hasBody]
    intro site place name own
    exact named.2.2 name (List.mem_filterMap.mpr ⟨_, List.mem_map_of_mem place, own⟩)
  -- no source can ask for the type of `return`
  have entries : ∀ entry ∈ m.entries c.scopes.environment c.className,
      (Mark.name entry.1).Spelled → entry.2.Known names := by
    unfold Method.entries
    dsimp only
    simp only [List.forall_mem_append, List.forall_mem_singleton]
    refine ⟨⟨fun entry member _ => covered.recorded present entry member, fun _ => named.1⟩, ?_⟩
    exact fun spelled => absurd spelled.2 (by decide)
  have start : (c.restarted.boundAll
      (m.entries c.scopes.environment c.className)).scopes.environment.Known names := by
    rw [boundAll_environment (List.cons_ne_nil _ _)]
    exact visible.extend fun entry member => entries entry (List.mem_reverse.mp member)
  have asserts := (statement_asserts.1 _ _ _ _ [] bodyMarks sites start ran).1
  exact Obligation.asserts_ofChildren (List.forall_mem_singleton.mpr asserts)

theorem methods_assert {all : List Method} {c c' : Checker} {parts : List Derivation}
    (covered : ∀ m ∈ all, m.Covered names c.scopes.globals c.className)
    (visible : c.scopes.environment.Known names) (run : (methods all).run c = .ok parts c') :
    ∀ part ∈ parts, part.tree.Asserts names := by
  induction all generalizing c parts with
  | nil =>
    obtain ⟨rfl, _⟩ := (methods_nil_ok_iff ..).mp run
    exact List.forall_mem_nil _
  | cons m rest ih =>
    obtain ⟨own, others⟩ := List.forall_mem_cons.mp covered
    cases hasBody : m.body with
    | none =>
      rw [methods_bodiless hasBody] at run
      exact ih others visible run
    | some body =>
      obtain ⟨part, n, later, head, tail, rfl⟩ := (methods_cons_ok_iff hasBody ..).mp run
      obtain ⟨scopes, className⟩ := method_scopes head
      rw [← scopes, ← className] at others
      rw [List.forall_mem_cons]
      exact ⟨method_asserts hasBody own visible head, ih others (scopes ▸ visible) tail⟩

theorem classes_assert {all : List Class} {c c' : Checker} {parts : List Derivation}
    (covered : ∀ cls ∈ all, ∀ m ∈ cls.methods, m.Covered names c.scopes.globals cls.name)
    (visible : c.scopes.environment.Known names) (run : (classes all).run c = .ok parts c') :
    ∀ part ∈ parts, part.tree.Asserts names := by
  induction all generalizing c parts with
  | nil =>
    obtain ⟨rfl, _⟩ := (classes_nil_ok_iff ..).mp run
    exact List.forall_mem_nil _
  | cons cls rest ih =>
    obtain ⟨own, others⟩ := List.forall_mem_cons.mp covered
    obtain ⟨part, n, later, head, tail, rfl⟩ := (classes_cons_ok_iff ..).mp run
    obtain ⟨inner, ran, rfl⟩ := (ofClass_ok_iff ..).mp head
    have scopes : n.scopes = c.scopes := (methods_scopes ran).1
    rw [← scopes] at others
    rw [List.forall_mem_cons]
    refine ⟨Derivation.ofParts_asserts ?_, ih others (scopes ▸ visible) tail⟩
    exact methods_assert (c := { c with className := cls.name }) own visible ran

end Check

theorem TypeShape.mem_marks_of_className? {shape : TypeShape} {name : String}
    (named : name ∈ shape.className?) : Mark.name name ∈ shape.marks := by
  cases shape with
  | simple own =>
    cases named
    exact List.mem_singleton_self _
  | primitive | qualified | array => cases named

theorem Statement.marks_of_sites :
    (∀ (s : Statement) earlier, ∀ site ∈ s.sites earlier, site.declaration.marks ⊆ s.marks) ∧
    ∀ body earlier, ∀ site ∈ sitesIn earlier body, site.declaration.marks ⊆ marksIn body := by
  apply Statement.induct
  case block =>
    intro body span inside earlier site place
    rw [marks]
    refine List.Subset.trans (inside earlier site place) ?_
    simp
  case declaration =>
    intro d earlier site place
    rw [List.mem_singleton.mp place]
    exact List.Subset.refl _
  case nil =>
    intro earlier site place
    cases place
  case cons =>
    intro first rest head tail earlier site place
    rw [marksIn]
    rw [sitesIn] at place
    obtain here | later := List.mem_append.mp place
    · exact List.subset_append_of_subset_left _ (head earlier site here)
    · exact List.subset_append_of_subset_right _ (tail _ site later)

theorem Method.typeNames_spelled {m : Method} (spelled : ∀ mark ∈ m.marks, mark.Spelled)
    {owner : String} (own : (Mark.name owner).Spelled) :
    ∀ name ∈ m.typeNames owner, (Mark.name name).Spelled := by
  have tail := (List.forall_mem_append.mp (List.forall_mem_append.mp spelled).2).2
  simp only [Method.tail, List.append_nil, List.forall_mem_cons, List.forall_mem_append] at tail
  obtain ⟨_, _, parameters, _, inside⟩ := tail
  unfold typeNames
  split
  · rw [List.forall_mem_cons]
    refine ⟨own, fun name member => ?_⟩
    obtain ⟨type, listed, named⟩ := List.mem_filterMap.mp member
    have written := TypeShape.mem_marks_of_className? named
    obtain ofParameter | ofLocal := List.mem_append.mp listed
    · obtain ⟨p, there, rfl⟩ := List.mem_map.mp ofParameter
      refine parameters _ (Mark.mem_listed (List.mem_map_of_mem there) ?_)
      exact List.mem_append_left _ written
    · obtain ⟨site, place, rfl⟩ := List.mem_map.mp ofLocal
      obtain ⟨body, hasBody⟩ := Option.isSome_iff_exists.mp (hasBody_of_site place)
      rw [← sites_eq hasBody] at place
      have mark := Statement.marks_of_sites.1 _ _ site place
        (List.mem_append_left _ (List.mem_append_left _ written))
      rw [hasBody] at inside
      rw [Statement.ofBlock, Statement.marks, Statement.marksIn_eq_flatMap] at mark
      exact inside _ mark
  · exact List.forall_mem_nil _

/-- On record, a method has the parameters that it is written with. -/
theorem Class.covered {cls : Class} (supported : cls.Supported)
    (spelled : ∀ mark ∈ cls.marks, mark.Spelled)
    (named : ∀ m ∈ cls.methods, ∀ name ∈ m.typeNames cls.name, name ∈ names) :
    ∀ m ∈ cls.methods, m.Covered names cls.signatures cls.name := by
  intro m member
  refine ⟨fun mark own => spelled mark (marks_of_method member own), named m member, ?_⟩
  intro present entry own
  cases found : cls.signatures.parameters? (Signatures.memberName cls.name m.name) with
  | none => simp [found] at own
  | some known =>
    rw [found, Option.getD_some] at own
    obtain ⟨m', member', key, each⟩ := ((recorded supported).parameters _ _).mp found
    have distinct : (cls.methods.map (·.name)).Nodup :=
      (List.nodup_append.mp supported.distinct).2.1
    obtain rfl : m = m' := List.inj_on_of_nodup_map distinct member member'
      (Signatures.memberName_injective cls.name key)
    rw [← (Parameter.tags_eq_iff (supported.methods m member).parameters _).mpr each] at own
    obtain ⟨p, written, tagged⟩ := List.mem_filterMap.mp own
    obtain ⟨tag, typed, rfl⟩ := Option.map_eq_some_iff.mp tagged
    refine TypeShape.tag?_known typed fun name of => named m member name ?_
    rw [Method.typeNames, if_pos present, List.filterMap_append]
    refine List.mem_cons_of_mem _ (List.mem_append_left _ (List.mem_filterMap.mpr ?_))
    exact ⟨p.type, List.mem_map_of_mem written, of⟩

theorem Signatures.type?_of_undotted {u : CompilationUnit} {s : Signatures}
    (collected : ofUnit u = .ok s) {name : String} (undotted : Undotted name) :
    s.type? name = none := by
  cases classes : u.classes with
  | nil =>
    obtain ⟨_, rfl⟩ := (ofUnit_ok_iff ..).mp collected
    rw [classes]
    rfl
  | cons c rest =>
    obtain ⟨supported, rfl⟩ := ofUnit_class collected (classes ▸ List.mem_cons_self)
    exact Class.type?_of_undotted supported undotted

/-- The leaves of the tree behind a verdict on a source, and the classes that they are about. -/
theorem check_asserts {source file : String} {checked : Checked}
    (done : check source file = .ok checked) :
    ∃ u, CompilationUnit.ofSource source file = .ok u ∧
      (∀ name ∈ u.typeNames, (Mark.name name).Spelled) ∧
      checked.verdict.root.Asserts u.typeNames := by
  obtain ⟨u, parsed, rest⟩ := (Run.except_bind_ok_iff ..).mp done
  obtain ⟨signatures, collected, rest⟩ := (Run.except_bind_ok_iff ..).mp rest
  obtain ⟨verdict, judged, ended⟩ := (Run.except_bind_ok_iff ..).mp rest
  cases ended
  have spelled := CompilationUnit.marks_spelled parsed
  refine ⟨u, parsed, ?_, ?_⟩
  · intro name member
    obtain ⟨cls, own, below⟩ := List.mem_flatMap.mp member
    obtain ⟨m, listed, named⟩ := List.mem_flatMap.mp below
    refine Method.typeNames_spelled (fun mark inside => ?_) ?_ name named
    · exact spelled cls own mark (Class.marks_of_method listed inside)
    · exact spelled cls own _ cls.name_mem_marks
  · obtain ⟨d, c', run, rfl⟩ := (Verdict.ofUnit_ok_iff ..).mp judged
    obtain ⟨parts, ran, rfl⟩ := (Check.unit_ok_iff ..).mp run
    refine Derivation.ofParts_asserts (Check.classes_assert ?_ ?_ ran)
    · intro cls own
      obtain ⟨supported, rfl⟩ := Signatures.ofUnit_class collected own
      refine Class.covered supported (spelled cls own) fun m listed name named => ?_
      exact List.mem_flatMap.mpr ⟨cls, own, List.mem_flatMap.mpr ⟨m, listed, named⟩⟩
    · intro name word
      have unknown := Signatures.type?_of_undotted collected (Lexeme.undotted_of_isWord word.1)
      have untyped : (Checker.initial signatures).scopes.environment.typeOf name = .error := by
        simp [Environment.typeOf, Checker.initial, Scopes.environment, unknown]
      rw [untyped]
      trivial

/-- Two leaves of one label agree, unless the label can be read in two ways. Only a class that is
named like what is no class makes that happen, and only such a class lets a leaf hold whose label
ends in the error type. -/
theorem labels_tell_verdicts (source file : String) {checked : Checked}
    (done : check source file = .ok checked) :
    ∃ u, CompilationUnit.ofSource source file = .ok u ∧
      (∀ l ∈ checked.verdict.root.leaves, ∀ r ∈ checked.verdict.root.leaves, l.1 = r.1 →
        l.2 ≠ r.2 → Assertion.Ambiguous u.typeNames l.1) ∧
      (∀ l ∈ checked.verdict.root.leaves, ∀ front, l.1 = front ++ "= ERROR" → l.2 = true →
        "ERROR" ∈ u.typeNames) ∧
      ("ERROR" ∉ u.typeNames → "nullType" ∉ u.typeNames →
        (∀ l ∈ checked.verdict.root.leaves, ∀ r ∈ checked.verdict.root.leaves, l.1 = r.1 →
          l.2 = r.2) ∧
        ∀ l ∈ checked.verdict.root.leaves, ∀ front, l.1 = front ++ "= ERROR" → l.2 = false) := by
  obtain ⟨u, parsed, spelled, asserts⟩ := check_asserts done
  have labels : ∀ l ∈ checked.verdict.root.leaves, ∀ r ∈ checked.verdict.root.leaves,
      l.1 = r.1 → l.2 ≠ r.2 → Assertion.Ambiguous u.typeNames l.1 := by
    intro l own r own' same differ
    obtain ⟨a, known, rfl⟩ := asserts l own
    obtain ⟨b, known', rfl⟩ := asserts r own'
    change a.label = b.label at same
    change a.holds ≠ b.holds at differ
    change Assertion.Ambiguous u.typeNames a.label
    cases one : a.holds with
    | true =>
      have other : b.holds = false := by simpa [one] using differ.symm
      exact (Assertion.alike_of_label spelled known known' same).ambiguous spelled known known'
        one other
    | false =>
      have other : b.holds = true := by simpa [one] using differ.symm
      rw [same]
      exact (Assertion.alike_of_label spelled known' known same.symm).ambiguous spelled known'
        known other one
  have errors : ∀ l ∈ checked.verdict.root.leaves, ∀ front, l.1 = front ++ "= ERROR" →
      l.2 = true → "ERROR" ∈ u.typeNames := by
    intro l own front ends holds
    obtain ⟨a, known, rfl⟩ := asserts l own
    exact Assertion.mem_of_holds spelled known ends holds
  refine ⟨u, parsed, labels, errors, fun plain proper => ⟨?_, ?_⟩⟩
  · intro l own r own' same
    by_contra differ
    obtain named | named := (labels l own r own' same differ).named
    · exact plain named
    · exact proper named
  · intro l own front ends
    by_contra holds
    exact plain (errors l own front ends (Bool.eq_true_of_not_eq_false holds))

/-- A value without a type twice, once for each of two variables. -/
theorem labels_tell_verdicts_sample :
    ∃ checked u, check "class C\x7bvoid m()\x7bint x=y;int z=y;\x7d\x7d" "" = .ok checked ∧
      CompilationUnit.ofSource "class C\x7bvoid m()\x7bint x=y;int z=y;\x7d\x7d" "" = .ok u ∧
      u.typeNames = ["C"] ∧
      (∀ l ∈ checked.verdict.root.leaves, ∀ r ∈ checked.verdict.root.leaves, l.1 = r.1 →
        l.2 = r.2) ∧
      ∀ l ∈ checked.verdict.root.leaves, ∀ front, l.1 = front ++ "= ERROR" → l.2 = false := by
  have well : (do
      let _ ← check "class C\x7bvoid m()\x7bint x=y;int z=y;\x7d\x7d" ""
      let u ← CompilationUnit.ofSource "class C\x7bvoid m()\x7bint x=y;int z=y;\x7d\x7d" ""
      return u.typeNames) = Except.ok ["C"] := by cbv
  obtain ⟨checked, done, further⟩ := (Run.except_bind_ok_iff ..).mp well
  obtain ⟨u, parsed, _, _, agree⟩ := labels_tell_verdicts _ "" done
  rw [parsed] at further
  have names : u.typeNames = ["C"] := Except.ok.inj further
  obtain ⟨labels, errors⟩ := agree (by rw [names]; decide) (by rw [names]; decide)
  exact ⟨checked, u, done, parsed, names, labels, errors⟩

/-- Variables of classes that are named like what is no class. -/
theorem labels_clash :
    (∃ checked, check "class C\x7bvoid m()\x7bERROR x;\x7dvoid n()\x7bint y=x;\x7d\x7d" "" =
        .ok checked ∧ ("E(x) = ERROR", true) ∈ checked.verdict.root.leaves ∧
      ("E(x) = ERROR", false) ∈ checked.verdict.root.leaves) ∧
    ∃ checked, check "class C\x7bvoid m()\x7bnullType x;C y=x;C z=null;\x7d\x7d" "" =
        .ok checked ∧ ("C := nullType", true) ∈ checked.verdict.root.leaves ∧
      ("C := nullType", false) ∈ checked.verdict.root.leaves := by
  constructor
  · have leaves : (do
        let checked ← check "class C\x7bvoid m()\x7bERROR x;\x7dvoid n()\x7bint y=x;\x7d\x7d" ""
        return checked.verdict.root.leaves) = Except.ok [("E(x) = ERROR", true),
          ("E(y) = int", true), ("E(x) = ERROR", false), ("int := ERROR", false)] := by cbv
    obtain ⟨checked, done, same⟩ := (Run.except_bind_ok_iff ..).mp leaves
    exact ⟨checked, done, by rw [Except.ok.inj same]; decide, by rw [Except.ok.inj same]; decide⟩
  · have leaves : (do
        let checked ← check "class C\x7bvoid m()\x7bnullType x;C y=x;C z=null;\x7d\x7d" ""
        return checked.verdict.root.leaves) = Except.ok [("E(x) = nullType", true),
          ("E(y) = C", true), ("E(x) = nullType", true), ("C := nullType", false),
          ("E(z) = C", true), ("E(null) = nullType", true), ("C := nullType", true)] := by cbv
    obtain ⟨checked, done, same⟩ := (Run.except_bind_ok_iff ..).mp leaves
    exact ⟨checked, done, by rw [Except.ok.inj same]; decide, by rw [Except.ok.inj same]; decide⟩

end Javelet
