import Javelet.Proofs.Checking
import Mathlib.Data.List.Forall2

namespace Javelet

namespace Obligation

mutual

/-- The assertions of a tree, in order. -/
def leaves : Obligation → List (String × Bool)
  | leaf label holds => [(label, holds)]
  | group _ children => leavesIn children

def leavesIn : List Obligation → List (String × Bool)
  | [] => []
  | child :: rest => leaves child ++ leavesIn rest

end

theorem induct {P : Obligation → Prop} {Q : List Obligation → Prop}
    (leaf : ∀ label holds, P (.leaf label holds))
    (group : ∀ label children, Q children → P (.group label children))
    (nil : Q []) (cons : ∀ first rest, P first → Q rest → Q (first :: rest)) :
    (∀ tree, P tree) ∧ ∀ trees, Q trees :=
  ⟨@Obligation.rec P Q leaf group nil cons, @Obligation.rec_1 P Q leaf group nil cons⟩

theorem holds_eq_leaves :
    (∀ tree : Obligation, tree.holds = tree.leaves.all (·.2)) ∧
    ∀ trees, allHold trees = (leavesIn trees).all (·.2) := by
  apply Obligation.induct
  case leaf =>
    intro label holds
    simp [Obligation.holds, leaves]
  case group =>
    intro label children below
    rw [Obligation.holds, leaves, below]
  case nil => rfl
  case cons =>
    intro first rest head tail
    rw [allHold, leavesIn, List.all_append, head, tail]

theorem failing_eq_leaves :
    (∀ tree : Obligation, tree.failing = (tree.leaves.filter (!·.2)).map (·.1)) ∧
    ∀ trees, failingIn trees = ((leavesIn trees).filter (!·.2)).map (·.1) := by
  apply Obligation.induct
  case leaf =>
    intro label holds
    cases holds <;> simp [failing, leaves]
  case group =>
    intro label children below
    rw [failing, leaves, below]
  case nil => rfl
  case cons =>
    intro first rest head tail
    rw [failingIn, leavesIn, List.filter_append, List.map_append, head, tail]

theorem holds_iff_leaves (tree : Obligation) :
    tree.holds = true ↔ ∀ leaf ∈ tree.leaves, leaf.2 = true := by
  rw [holds_eq_leaves.1, List.all_eq_true]

/-- A tree holds exactly if no leaf of it fails. -/
theorem holds_eq_failing_isEmpty (tree : Obligation) : tree.holds = tree.failing.isEmpty := by
  rw [Bool.eq_iff_iff, holds_iff_leaves, failing_eq_leaves.1, List.isEmpty_iff, List.map_eq_nil_iff,
    List.filter_eq_nil_iff]
  simp

@[simp] theorem label_ofChildren (label : String) (trees : List Obligation) :
    (ofChildren label trees).label = label := by
  cases trees <;> rfl

theorem children_ofChildren (label : String) (trees : List Obligation) :
    (ofChildren label trees).children = if trees = [] then [.trivial] else trees := by
  cases trees <;> rfl

end Obligation

theorem Tag.allVoid_proper (tags : List Tag) : allVoid tags = .void ∨ allVoid tags = .error := by
  unfold allVoid
  split
  · exact .inl rfl
  · exact .inr rfl

theorem Tag.allVoid_eq_void_iff (tags : List Tag) :
    allVoid tags = .void ↔ ∀ tag ∈ tags, tag = .void := by
  simp [allVoid, isVoid]

theorem Tag.ne_error_of_assignable {left right : Tag} (fits : left.assignable right = true) :
    right ≠ .error := by
  rintro rfl
  simp [assignable, isError] at fits

namespace Derivation

theorem holds_lookup (name : String) (tag : Tag) :
    (lookup name tag).tree.holds = true ↔ tag ≠ .error := by
  simp [lookup, Obligation.holds_ofChildren, Obligation.holds, Tag.isError]

/-- The variable's own leaf cannot fail, and its value's only if the value does not fit. -/
theorem ofVariable_tag_eq_void_iff (number : Nat) (env : Environment) (declarator : Declarator)
    {tag : Tag} (proper : tag ≠ .error) :
    (ofVariable number env declarator tag).tag = .void ↔
      (ofVariable number env declarator tag).tree.holds = true := by
  have own : (lookup declarator.name tag).tree.holds = true := (holds_lookup ..).mpr proper
  cases present : declarator.value with
  | none =>
    simp [ofVariable, ofValue, present, Obligation.holds_ofChildren, own, Tag.isError, proper]
  | some value =>
    cases fits : tag.assignable (value.typeIn env) with
    | false =>
      simp [ofVariable, ofValue, present, fits, Obligation.holds_ofChildren, Obligation.holds]
    | true =>
      have other : (lookup value.text (value.typeIn env)).tree.holds = true :=
        (holds_lookup ..).mpr (Tag.ne_error_of_assignable fits)
      simp [ofVariable, ofValue, present, fits, Obligation.holds_ofChildren, Obligation.holds, own,
        other]

theorem ofVariable_tag_proper (number : Nat) (env : Environment) (declarator : Declarator)
    (tag : Tag) :
    (ofVariable number env declarator tag).tag = .void ∨
      (ofVariable number env declarator tag).tag = .error := by
  unfold ofVariable
  dsimp only
  split
  · exact .inl rfl
  · exact .inr rfl

end Derivation

/-- The constructs with a node of their own in the tree. Of methods, that is those with a body. -/
inductive Construct where
  | unit (u : CompilationUnit)
  | ofClass (c : Class)
  | method (owner : String) (m : Method) (body : Block)
  | statement (s : Statement)

namespace Construct

/-- What is directly inside, in source order. -/
def parts : Construct → List Construct
  | unit u => u.classes.map .ofClass
  | ofClass c => c.methods.filterMap fun m => m.body.map (.method c.name m)
  | method _ _ body => [.statement (.ofBlock body)]
  | statement (.block body _) => body.map .statement
  | statement (.declaration _) => []

def check : Construct → Check Derivation
  | unit u => Check.unit u
  | ofClass c => Check.ofClass c
  | method _ m body => Check.method m body
  | statement s => Check.statement s

/-- What a construct is called in its label; blocks and declarations go by a number. -/
def subject (number : Nat) : Construct → String
  | unit _ => "CompilationUnit"
  | ofClass c => "class " ++ c.name
  | method owner m _ => "method " ++ (owner ++ "." ++ m.name)
  | statement (.block _ _) => "B" ++ toString number
  | statement (.declaration _) => "S" ++ toString number

/-- What checking the construct derives is void or an error, its label ends in the one or the other,
and it is void exactly if the tree holds. -/
structure Judged (k : Construct) (d : Derivation) : Prop where
  derived : ∃ c c', k.check.run c = .ok d c'
  tag : d.tag = .void ∨ d.tag = .error
  label : ∃ number, d.tree.label = k.subject number ++ " : " ++ d.tag.text
  text : d.tag.text = if d.tag = .void then "void" else "ERROR"
  holds : d.tag = .void ↔ d.tree.holds = true
  leaves : d.tag = .void ↔ ∀ leaf ∈ d.tree.leaves, leaf.2 = true

/-- A construct is judged, and so are all inside of it. Apart from declarations, its node has the
nodes of its parts as children, or a placeholder if it has none. -/
inductive Agrees : Construct → Derivation → Prop
  | declaration {d : LocalDeclaration} {r : Derivation}
      (judged : Judged (.statement (.declaration d)) r) : Agrees (.statement (.declaration d)) r
  | composite {k : Construct} {d : Derivation} (inner : List Derivation) (judged : Judged k d)
      (children : d.tree.children = if inner = [] then [.trivial] else inner.map (·.tree))
      (below : List.Forall₂ Agrees k.parts inner) : Agrees k d

theorem Agrees.judged {k : Construct} {d : Derivation} (h : Agrees k d) : Judged k d := by
  cases h with
  | declaration judged => exact judged
  | composite _ judged => exact judged

theorem Agrees.judged_all {all : List Construct} {derived : List Derivation}
    (h : List.Forall₂ Agrees all derived) : ∀ d ∈ derived, ∃ k, Judged k d := by
  induction h with
  | nil => exact List.forall_mem_nil _
  | cons agrees _ ih => exact List.forall_mem_cons.mpr ⟨⟨_, agrees.judged⟩, ih⟩

theorem Judged.intro {k : Construct} {d : Derivation} {c c' : Checker} (number : Nat)
    (run : k.check.run c = .ok d c') (tag : d.tag = .void ∨ d.tag = .error)
    (label : d.tree.label = k.subject number ++ " : " ++ d.tag.text)
    (holds : d.tag = .void ↔ d.tree.holds = true) : Judged k d := by
  constructor
  case derived => exact ⟨c, c', run⟩
  case tag => exact tag
  case label => exact ⟨number, label⟩
  case text => obtain void | error := tag <;> simp [*, Tag.text]
  case holds => exact holds
  case leaves => rw [← Obligation.holds_iff_leaves, holds]

/-- A construct that is as good as its parts agrees if they do. -/
theorem Agrees.ofParts {k : Construct} {c c' : Checker} (number : Nat) {parts : List Derivation}
    (run : k.check.run c = .ok (.ofParts (k.subject number) parts) c')
    (below : List.Forall₂ Agrees k.parts parts) :
    Agrees k (.ofParts (k.subject number) parts) := by
  -- One level down is enough: a part's tree already holds exactly if the part is void.
  have each : ∀ part ∈ parts, part.tag = .void ↔ part.tree.holds = true := by
    intro part member
    obtain ⟨_, judged⟩ := Agrees.judged_all below part member
    exact judged.holds
  refine .composite parts (.intro number run (Tag.allVoid_proper _) ?_ ?_) ?_ below
  · exact Obligation.label_ofChildren ..
  · simp only [Derivation.ofParts, Tag.allVoid_eq_void_iff, Obligation.holds_ofChildren,
      List.all_eq_true, List.forall_mem_map]
    exact forall₂_congr each
  · simp only [Derivation.ofParts, Obligation.children_ofChildren, List.map_eq_nil_iff]

end Construct

open Construct

namespace Check

theorem declaration_judged {d : LocalDeclaration} {c c' : Checker} {r : Derivation}
    (run : (statement (.declaration d)).run c = .ok r c') :
    Judged (.statement (.declaration d)) r := by
  have ran := run
  rw [statement] at ran
  obtain ⟨declarator, tag, bound, _, _, rfl, _⟩ := (localDeclaration_ok_iff ..).mp ran
  have typed := ((Declarator.typed?_eq_some_iff ..).mp bound).2
  have proper := (TypeShape.tag?_proper typed).1
  exact .intro c.statements run (Derivation.ofVariable_tag_proper ..) rfl
    (Derivation.ofVariable_tag_eq_void_iff _ _ _ proper)

theorem statement_agrees :
    (∀ s c c' d, (statement s).run c = .ok d c' → Agrees (.statement s) d) ∧
    ∀ body c c' parts, (statements body).run c = .ok parts c' →
      List.Forall₂ Agrees (body.map .statement) parts := by
  apply Statement.induct
  case block =>
    intro body span inside c c' d run
    obtain ⟨parts, m, ran, rfl, _⟩ := (block_ok_iff ..).mp run
    exact .ofParts (k := .statement (.block body span)) m.blocks run (inside _ _ _ ran)
  case declaration =>
    intro d c c' r run
    exact .declaration (declaration_judged run)
  case nil =>
    intro c c' parts run
    obtain ⟨rfl, _⟩ := (statements_nil_ok_iff ..).mp run
    exact .nil
  case cons =>
    intro first rest head tail c c' parts run
    obtain ⟨part, m, others, ran, ranOthers, rfl⟩ := (statements_cons_ok_iff ..).mp run
    exact .cons (head _ _ _ ran) (tail _ _ _ ranOthers)

theorem method_agrees {m : Method} {body : Block} {c c' : Checker} {d : Derivation}
    (run : (method m body).run c = .ok d c') : Agrees (.method c.className m body) d := by
  obtain ⟨_, _, inner, n, ran, rfl, _⟩ := (method_ok_iff ..).mp run
  rw [block_eq_statement] at ran
  have agrees := statement_agrees.1 _ _ _ _ ran
  refine .composite [inner] (.intro 0 run agrees.judged.tag ?_ ?_) ?_ (.cons agrees .nil)
  · rfl
  · simpa [Derivation.ofMethod, Obligation.holds_ofChildren] using agrees.judged.holds
  · rfl

theorem methods_agree {all : List Method} {c c' : Checker} {parts : List Derivation}
    (run : (methods all).run c = .ok parts c') :
    List.Forall₂ Agrees (all.filterMap fun m => m.body.map (.method c.className m)) parts := by
  induction all generalizing c parts with
  | nil =>
    obtain ⟨rfl, _⟩ := (methods_nil_ok_iff ..).mp run
    exact .nil
  | cons m rest ih =>
    cases hasBody : m.body with
    | none =>
      rw [methods_bodiless hasBody] at run
      simpa [hasBody] using ih run
    | some body =>
      obtain ⟨part, n, others, head, tail, rfl⟩ := (methods_cons_ok_iff hasBody ..).mp run
      -- The parts are named after the class in the state, which a method leaves as it is.
      have later := ih tail
      rw [(method_scopes head).2] at later
      simpa [hasBody] using ⟨method_agrees head, later⟩

theorem ofClass_agrees {cls : Class} {c c' : Checker} {d : Derivation}
    (run : (ofClass cls).run c = .ok d c') : Agrees (.ofClass cls) d := by
  obtain ⟨parts, ran, rfl⟩ := (ofClass_ok_iff ..).mp run
  exact .ofParts (k := .ofClass cls) 0 run (methods_agree ran)

theorem classes_agree {all : List Class} {c c' : Checker} {parts : List Derivation}
    (run : (classes all).run c = .ok parts c') :
    List.Forall₂ Agrees (all.map .ofClass) parts := by
  induction all generalizing c parts with
  | nil =>
    obtain ⟨rfl, _⟩ := (classes_nil_ok_iff ..).mp run
    exact .nil
  | cons cls rest ih =>
    obtain ⟨part, n, others, head, tail, rfl⟩ := (classes_cons_ok_iff ..).mp run
    exact .cons (ofClass_agrees head) (ih tail)

theorem unit_agrees {u : CompilationUnit} {c c' : Checker} {d : Derivation}
    (run : (unit u).run c = .ok d c') : Agrees (.unit u) d := by
  obtain ⟨parts, ran, rfl⟩ := (unit_ok_iff ..).mp run
  exact .ofParts (k := .unit u) 0 run (classes_agree ran)

end Check

/-- The verdict is what the tree shows: the unit is well typed exactly if no leaf fails, and the
same is true of every construct and its own node. -/
theorem verdict_agrees {signatures : Signatures} {u : CompilationUnit} {v : Verdict}
    (h : Verdict.ofUnit signatures u = .ok v) :
    v.wellTyped = v.root.holds ∧ v.root.holds = v.root.failing.isEmpty ∧
    ∃ d : Derivation, d.tree = v.root ∧ Agrees (.unit u) d := by
  obtain ⟨d, c', run, rfl⟩ := (Verdict.ofUnit_ok_iff ..).mp h
  have agrees := Check.unit_agrees run
  refine ⟨?_, Obligation.holds_eq_failing_isEmpty _, d, rfl, agrees⟩
  rw [Bool.eq_iff_iff, ← agrees.judged.holds]
  simp [Tag.isVoid]

theorem verdict_agrees_sample : ∃ v, Verdict.ofUnit .sample .sample = .ok v ∧
    v.wellTyped = v.root.failing.isEmpty ∧
    ∃ d, d.tree = v.root ∧ d.tree.label = "CompilationUnit : ERROR" ∧ Agrees (.unit .sample) d := by
  obtain ⟨v, h⟩ := Verdict.ofUnit_sample
  obtain ⟨agree, shown, d, root, agrees⟩ := verdict_agrees h
  have label : (Verdict.ofUnit .sample .sample).map (·.root.label) =
      .ok "CompilationUnit : ERROR" := by cbv
  rw [h] at label
  refine ⟨v, h, agree.trans shown, d, root, ?_, agrees⟩
  rw [root]
  exact Except.ok.inj label

end Javelet
