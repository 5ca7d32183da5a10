import Javelet.Proofs.Agreement

/-! Blocks and declarations go by numbers that start anew with every method. A declaration gets the
next one where it stands, a block only when it is left. -/
namespace Javelet

/-- A statement with the numbers that it and what is inside of it go by. -/
inductive Numbering where
  | block (number : Nat) (inside : List Numbering)
  | declaration (number : Nat)

namespace Numbering

theorem induct {P : Numbering → Prop} {Q : List Numbering → Prop}
    (block : ∀ number inside, Q inside → P (.block number inside))
    (declaration : ∀ number, P (.declaration number)) (nil : Q [])
    (cons : ∀ first rest, P first → Q rest → Q (first :: rest)) :
    (∀ plan, P plan) ∧ ∀ plans, Q plans :=
  ⟨@Numbering.rec P Q block declaration nil cons, @Numbering.rec_1 P Q block declaration nil cons⟩

mutual

/-- The numbers of the blocks, a block after those inside of it. -/
def blocks : Numbering → List Nat
  | block number inside => blocksIn inside ++ [number]
  | declaration _ => []

def blocksIn : List Numbering → List Nat
  | [] => []
  | first :: rest => blocks first ++ blocksIn rest

end

mutual

/-- The numbers of the declarations in the order of the source. -/
def declarations : Numbering → List Nat
  | block _ inside => declarationsIn inside
  | declaration number => [number]

def declarationsIn : List Numbering → List Nat
  | [] => []
  | first :: rest => declarations first ++ declarationsIn rest

end

mutual

/-- A block's number is greater than all inside of it, and all in front of a block are less than
those in it. -/
def Ascending : Numbering → Prop
  | block number inside => (∀ n ∈ blocksIn inside, n < number) ∧ AscendingIn inside
  | declaration _ => True

def AscendingIn : List Numbering → Prop
  | [] => True
  | first :: rest => Ascending first ∧ (∀ m ∈ blocks first, ∀ n ∈ blocksIn rest, m < n) ∧
      AscendingIn rest

end

theorem ascending_of_pairwise :
    (∀ plan : Numbering, plan.blocks.Pairwise (· < ·) → plan.Ascending) ∧
    ∀ plans, (blocksIn plans).Pairwise (· < ·) → AscendingIn plans := by
  apply Numbering.induct
  case block =>
    intro number inside below sorted
    rw [blocks, List.pairwise_append] at sorted
    obtain ⟨within, _, last⟩ := sorted
    exact ⟨fun n member => last n member number (List.mem_singleton_self _), below within⟩
  case declaration =>
    intro number _
    trivial
  case nil =>
    intro _
    trivial
  case cons =>
    intro first rest head tail sorted
    rw [blocksIn, List.pairwise_append] at sorted
    obtain ⟨here, later, between⟩ := sorted
    exact ⟨head here, between, tail later⟩

mutual

/-- A tree that has one node for every statement, under the node of its block, in order and with the
number in front. A block without statements has a placeholder under its node. -/
def Labels : Numbering → Statement → Obligation → Prop
  | block number inside, .block body _, .group label children =>
    (∃ tag : Tag, label = "B" ++ toString number ++ " : " ++ tag.text) ∧
      ∃ trees, children = (if trees = [] then [.trivial] else trees) ∧ LabelsIn inside body trees
  | declaration number, .declaration _, .group label _ =>
    ∃ tag : Tag, label = "S" ++ toString number ++ " : " ++ tag.text
  | _, _, _ => False

def LabelsIn : List Numbering → List Statement → List Obligation → Prop
  | [], [], [] => True
  | first :: rest, s :: body, tree :: trees => Labels first s tree ∧ LabelsIn rest body trees
  | _, _, _ => False

end

end Numbering

namespace Statement

mutual

def blockCount : Statement → Nat
  | .block body _ => blockCountIn body + 1
  | .declaration _ => 0

def blockCountIn : List Statement → Nat
  | [] => 0
  | first :: rest => blockCount first + blockCountIn rest

end

mutual

def declarationCount : Statement → Nat
  | .block body _ => declarationCountIn body
  | .declaration _ => 1

def declarationCountIn : List Statement → Nat
  | [] => 0
  | first :: rest => declarationCount first + declarationCountIn rest

end

end Statement

namespace Checker

/-- On the way from one checker to the other, these numbers went to `n` blocks and `k`
declarations. -/
structure Counts (c c' : Checker) (n k : Nat) (bs ds : List Nat) : Prop where
  blocks : bs = List.range' c.blocks n
  declarations : ds = List.range' c.statements k
  nextBlock : c'.blocks = c.blocks + n
  nextStatement : c'.statements = c.statements + k

theorem Counts.nothing (c : Checker) : c.Counts c 0 0 [] [] := ⟨rfl, rfl, rfl, rfl⟩

theorem Counts.append {a b c : Checker} {n k n' k' : Nat} {bs ds bs' ds' : List Nat}
    (first : a.Counts b n k bs ds) (second : b.Counts c n' k' bs' ds') :
    a.Counts c (n + n') (k + k') (bs ++ bs') (ds ++ ds') := by
  constructor
  · rw [first.blocks, second.blocks, first.nextBlock, List.range'_append_1]
  · rw [first.declarations, second.declarations, first.nextStatement, List.range'_append_1]
  · rw [second.nextBlock, first.nextBlock, Nat.add_assoc]
  · rw [second.nextStatement, first.nextStatement, Nat.add_assoc]

/-- Opening a block takes no number, leaving it the next. -/
theorem Counts.block {c m : Checker} {n k : Nat} {bs ds : List Nat}
    (inside : c.opened.Counts m n k bs ds) :
    c.Counts m.blockDone (n + 1) k (bs ++ [m.blocks]) ds := by
  have started : c.opened.blocks = c.blocks := rfl
  constructor
  · rw [inside.blocks, inside.nextBlock, started, List.range'_1_concat]
  · exact inside.declarations
  · change m.blocks + 1 = _
    rw [inside.nextBlock, started, Nat.add_assoc]
  · exact inside.nextStatement

theorem boundAll_numbers (entries : List (String × Tag)) (c : Checker) :
    (c.boundAll entries).blocks = c.blocks ∧ (c.boundAll entries).statements = c.statements := by
  induction entries generalizing c with
  | nil => exact ⟨rfl, rfl⟩
  | cons entry rest ih => exact ih (c.bound entry.1 entry.2)

end Checker

/-- A node's children are these trees, with a placeholder if there are none. -/
def Obligation.Parents (tree : Obligation) (trees : List Obligation) : Prop :=
  tree.children = if trees = [] then [.trivial] else trees

theorem Derivation.parents_ofParts (subject : String) (parts : List Derivation) :
    (ofParts subject parts).tree.Parents (parts.map (·.tree)) :=
  Obligation.children_ofChildren ..

theorem Obligation.ofChildren_eq_group (label : String) (trees : List Obligation) :
    ofChildren label trees = .group label (if trees = [] then [.trivial] else trees) := by
  cases trees <;> rfl

namespace Check

theorem localDeclaration_numbered {d : LocalDeclaration} {c c' : Checker} {r : Derivation}
    (run : (localDeclaration d).run c = .ok r c') :
    (Numbering.declaration c.statements).Labels (.declaration d) r.tree ∧
      c.Counts c' 0 1 [] [c.statements] := by
  obtain ⟨declarator, tag, _, _, _, rfl, rfl⟩ := (localDeclaration_ok_iff ..).mp run
  exact ⟨⟨_, rfl⟩, rfl, rfl, rfl, rfl⟩

theorem statement_numbered :
    (∀ s c c' d, (statement s).run c = .ok d c' → ∃ plan : Numbering, plan.Labels s d.tree ∧
      c.Counts c' s.blockCount s.declarationCount plan.blocks plan.declarations) ∧
    ∀ body c c' parts, (statements body).run c = .ok parts c' → ∃ plans,
      Numbering.LabelsIn plans body (parts.map (·.tree)) ∧
      c.Counts c' (Statement.blockCountIn body) (Statement.declarationCountIn body)
        (Numbering.blocksIn plans) (Numbering.declarationsIn plans) := by
  apply Statement.induct
  case block =>
    intro body span inside c c' d run
    obtain ⟨parts, m, ran, rfl, rfl⟩ := (block_ok_iff ..).mp run
    obtain ⟨plans, labels, counts⟩ := inside _ _ _ ran
    refine ⟨.block m.blocks plans, ?_, counts.block⟩
    unfold Derivation.ofParts
    dsimp only
    rw [Obligation.ofChildren_eq_group]
    exact ⟨⟨_, rfl⟩, _, rfl, labels⟩
  case declaration =>
    intro d c c' r run
    rw [statement] at run
    exact ⟨_, localDeclaration_numbered run⟩
  case nil =>
    intro c c' parts run
    obtain ⟨rfl, rfl⟩ := (statements_nil_ok_iff ..).mp run
    exact ⟨[], trivial, .nothing _⟩
  case cons =>
    intro first rest head tail c c' parts run
    obtain ⟨part, m, others, ran, ranOthers, rfl⟩ := (statements_cons_ok_iff ..).mp run
    obtain ⟨plan, labels, counts⟩ := head _ _ _ ran
    obtain ⟨plans, labelsIn, countsIn⟩ := tail _ _ _ ranOthers
    exact ⟨plan :: plans, ⟨labels, labelsIn⟩, counts.append countsIn⟩

end Check

/-- A body's tree, with the numbers from zero on: declarations in the order of the source, blocks
each after those inside of it, and so the body itself last. -/
def Block.Numbered (b : Block) (tree : Obligation) : Prop :=
  let n := (Statement.ofBlock b).blockCount
  let k := (Statement.ofBlock b).declarationCount
  ∃ inside, let plan := Numbering.block (n - 1) inside
    plan.Labels (.ofBlock b) tree ∧ plan.declarations = List.range k ∧
      plan.blocks = List.range n ∧ plan.Ascending

theorem Check.method_numbered {m : Method} {body : Block} {c c' : Checker} {d : Derivation}
    (run : (method m body).run c = .ok d c') :
    ∃ tree, d.tree.Parents [tree] ∧ body.Numbered tree := by
  obtain ⟨_, _, inner, n, ran, rfl, _⟩ := (method_ok_iff ..).mp run
  rw [block_eq_statement] at ran
  obtain ⟨plan, labels, counts⟩ := statement_numbered.1 _ _ _ _ ran
  obtain ⟨startBlock, startStatement⟩ := Checker.boundAll_numbers
    (m.entries c.scopes.environment c.className) c.restarted
  have blocks : plan.blocks = List.range (Statement.ofBlock body).blockCount := by
    rw [counts.blocks, startBlock]
    exact List.range_eq_range'.symm
  have declarations : plan.declarations =
      List.range (Statement.ofBlock body).declarationCount := by
    rw [counts.declarations, startStatement]
    exact List.range_eq_range'.symm
  have ascending : plan.Ascending := by
    apply Numbering.ascending_of_pairwise.1
    rw [blocks]
    exact List.pairwise_lt_range
  refine ⟨inner.tree, rfl, ?_⟩
  cases plan with
  | declaration number => exact labels.elim
  | block number inside =>
    -- The body is the last of the blocks to be left.
    have last : number = (Statement.ofBlock body).blockCount - 1 := by
      have final := congrArg List.getLast? blocks
      rw [Numbering.blocks, List.getLast?_concat, List.getLast?_range] at final
      split at final
      · cases final
      · exact Option.some.inj final
    rw [last] at labels declarations blocks ascending
    exact ⟨inside, labels, declarations, blocks, ascending⟩

namespace Check

theorem methods_numbered {all : List Method} {c c' : Checker} {parts : List Derivation}
    (run : (methods all).run c = .ok parts c') :
    List.Forall₂ (fun body (methodTree : Obligation) =>
      ∃ tree, methodTree.Parents [tree] ∧ Block.Numbered body tree)
      (all.filterMap (·.body)) (parts.map (·.tree)) := by
  induction all generalizing c parts with
  | nil =>
    obtain ⟨rfl, _⟩ := (methods_nil_ok_iff ..).mp run
    exact .nil
  | cons m rest ih =>
    cases hasBody : m.body with
    | none =>
      rw [methods_bodiless hasBody] at run
      simpa [hasBody] using ih run
    | some body =>
      obtain ⟨part, n, others, head, tail, rfl⟩ := (methods_cons_ok_iff hasBody ..).mp run
      rw [List.filterMap_cons_some hasBody]
      exact .cons (method_numbered head) (ih tail)

end Check

/-- A class's tree, with a subtree for every method that has a body, and the body's under it. -/
def Class.Numbered (c : Class) (tree : Obligation) : Prop :=
  ∃ trees, tree.Parents trees ∧ List.Forall₂ (fun body (methodTree : Obligation) =>
    ∃ tree, methodTree.Parents [tree] ∧ Block.Numbered body tree)
    (c.methods.filterMap (·.body)) trees

theorem Check.ofClass_numbered {cls : Class} {c c' : Checker} {d : Derivation}
    (run : (ofClass cls).run c = .ok d c') : cls.Numbered d.tree := by
  obtain ⟨parts, ran, rfl⟩ := (ofClass_ok_iff ..).mp run
  exact ⟨_, Derivation.parents_ofParts .., methods_numbered ran⟩

theorem Check.classes_numbered {all : List Class} {c c' : Checker} {parts : List Derivation}
    (run : (classes all).run c = .ok parts c') :
    List.Forall₂ Class.Numbered all (parts.map (·.tree)) := by
  induction all generalizing c parts with
  | nil =>
    obtain ⟨rfl, _⟩ := (classes_nil_ok_iff ..).mp run
    exact .nil
  | cons cls rest ih =>
    obtain ⟨part, n, others, head, tail, rfl⟩ := (classes_cons_ok_iff ..).mp run
    exact .cons (ofClass_numbered head) (ih tail)

/-- In every method the declarations are numbered from zero in the order of the source, and the
blocks from zero in the order in which they are left. -/
theorem numbers_in_order_of_completion {signatures : Signatures} {u : CompilationUnit}
    {v : Verdict} (h : Verdict.ofUnit signatures u = .ok v) :
    ∃ trees, v.root.Parents trees ∧ List.Forall₂ Class.Numbered u.classes trees := by
  obtain ⟨d, c', run, rfl⟩ := (Verdict.ofUnit_ok_iff ..).mp h
  obtain ⟨parts, ran, rfl⟩ := (Check.unit_ok_iff ..).mp run
  exact ⟨_, Derivation.parents_ofParts .., Check.classes_numbered ran⟩

/-- The labels below the node that a path of labels leads to. -/
def Obligation.labelsBelow? (tree : Obligation) : List String → Option (List String)
  | [] => some (tree.children.map (·.label))
  | label :: path => (tree.child? label).bind (·.labelsBelow? path)

/-- Two blocks in one another, with declarations before, in and behind them. -/
theorem numbers_in_order_of_completion_sample : ∃ v trees,
    Verdict.ofUnit .sample .sample = .ok v ∧ v.root.Parents trees ∧
      List.Forall₂ Class.Numbered CompilationUnit.sample.classes trees ∧
      v.root.labelsBelow? ["class C : ERROR", "method C.m : ERROR", "B2 : ERROR"] =
        some ["S0 : void", "B1 : ERROR", "S3 : ERROR"] ∧
      v.root.labelsBelow? ["class C : ERROR", "method C.m : ERROR", "B2 : ERROR", "B1 : ERROR"] =
        some ["S1 : ERROR", "S2 : void", "B0 : void"] := by
  obtain ⟨v, h⟩ := Verdict.ofUnit_sample
  obtain ⟨trees, parents, numbered⟩ := numbers_in_order_of_completion h
  have outer : (Verdict.ofUnit .sample .sample).map
      (·.root.labelsBelow? ["class C : ERROR", "method C.m : ERROR", "B2 : ERROR"]) =
        .ok (some ["S0 : void", "B1 : ERROR", "S3 : ERROR"]) := by cbv
  have inner : (Verdict.ofUnit .sample .sample).map
      (·.root.labelsBelow? ["class C : ERROR", "method C.m : ERROR", "B2 : ERROR", "B1 : ERROR"]) =
        .ok (some ["S1 : ERROR", "S2 : void", "B0 : void"]) := by cbv
  rw [h] at outer inner
  exact ⟨v, trees, h, parents, numbered, Except.ok.inj outer, Except.ok.inj inner⟩

end Javelet
