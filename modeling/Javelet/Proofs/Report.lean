import Javelet.Proofs.Agreement

/-! The report on a tree can be read back. Its lines are the nodes in the order of a walk from the
root, and a line's indent says how far below the root its node is. A walk from the last line to the
first therefore finds what is below a node complete when it comes to the node. -/
namespace Javelet

/-- A text that stays on its line. -/
def OneLine (text : String) : Prop := '\n' ∉ text.toList

instance (text : String) : Decidable (OneLine text) :=
  inferInstanceAs (Decidable ('\n' ∉ text.toList))

namespace Obligation

mutual

/-- The nodes of a tree with their depths, a node before those below it. -/
def nodesAt (depth : Nat) : Obligation → List (Nat × Obligation)
  | leaf label holds => [(depth, leaf label holds)]
  | group label children => (depth, group label children) :: nodesIn (depth + 1) children

def nodesIn (depth : Nat) : List Obligation → List (Nat × Obligation)
  | [] => []
  | child :: rest => nodesAt depth child ++ nodesIn depth rest

end

def nodes (tree : Obligation) : List (Nat × Obligation) := nodesAt 0 tree

theorem nodesIn_eq_flatMap (depth : Nat) (trees : List Obligation) :
    nodesIn depth trees = trees.flatMap (nodesAt depth) := by
  induction trees with
  | nil => rfl
  | cons tree rest ih => simp [nodesIn, ih]

theorem nodesAt_eq (depth : Nat) (tree : Obligation) :
    nodesAt depth tree = (depth, tree) :: tree.children.flatMap (nodesAt (depth + 1)) := by
  cases tree with
  | leaf label holds => rfl
  | group label children => rw [nodesAt, nodesIn_eq_flatMap, Obligation.children]

theorem nodesAt_trees (tree : Obligation) (depth depth' : Nat) :
    (nodesAt depth tree).map (·.2) = (nodesAt depth' tree).map (·.2) := by
  revert tree
  suffices both : (∀ tree depth depth', (nodesAt depth tree).map (·.2) =
        (nodesAt depth' tree).map (·.2)) ∧
      ∀ trees depth depth', (nodesIn depth trees).map (·.2) = (nodesIn depth' trees).map (·.2) from
    fun tree => both.1 tree depth depth'
  apply Obligation.induct
  case leaf =>
    intro label holds depth depth'
    rfl
  case group =>
    intro label children below depth depth'
    simp [nodesAt, below (depth + 1) (depth' + 1)]
  case nil =>
    intro depth depth'
    rfl
  case cons =>
    intro first rest head tail depth depth'
    simp [nodesIn, head depth depth', tail depth depth']

/-- A property of every node of a tree. -/
def Everywhere (P : Obligation → Prop) (tree : Obligation) : Prop := ∀ node ∈ tree.nodes, P node.2

theorem everywhere_iff_nodesAt {P : Obligation → Prop} {tree : Obligation} (depth : Nat) :
    Everywhere P tree ↔ ∀ node ∈ nodesAt depth tree, P node.2 := by
  have same := nodesAt_trees tree 0 depth
  unfold Everywhere nodes
  rw [← List.forall_mem_map (P := P), same, List.forall_mem_map]

theorem everywhere_iff {P : Obligation → Prop} {tree : Obligation} :
    Everywhere P tree ↔ P tree ∧ ∀ child ∈ tree.children, Everywhere P child := by
  rw [everywhere_iff_nodesAt 0, nodesAt_eq, List.forall_mem_cons]
  apply and_congr_right
  intro _
  simp only [everywhere_iff_nodesAt 1, List.mem_flatMap, forall_exists_index, and_imp]
  constructor
  · intro below child mem node inside
    exact below node child mem inside
  · intro below node child mem inside
    exact below child mem node inside

/-- Trees made of leaves and of groups that are given their children. -/
inductive Built : Obligation → Prop
  | leaf (label : String) (holds : Bool) : Built (.leaf label holds)
  | ofChildren (label : String) {trees : List Obligation} (built : ∀ tree ∈ trees, Built tree) :
      Built (.ofChildren label trees)

theorem built_group_iff {label : String} {trees : List Obligation} :
    Built (.group label trees) ↔ trees ≠ [] ∧ ∀ tree ∈ trees, Built tree := by
  constructor
  · intro built
    generalize whole : group label trees = tree at built
    cases built with
    | leaf => cases whole
    | @ofChildren label' trees' inside =>
      cases trees' with
      | nil =>
        cases whole
        simpa [Obligation.trivial] using Built.leaf "true" true
      | cons first rest =>
        cases whole
        exact ⟨List.cons_ne_nil _ _, inside⟩
  · rintro ⟨some, inside⟩
    have same : ofChildren label trees = group label trees := by
      cases trees with
      | nil => exact absurd rfl some
      | cons first rest => rfl
    exact same ▸ .ofChildren label inside

/-- A built tree is one in which no group is without children. -/
theorem built_iff (tree : Obligation) :
    Built tree ↔ Everywhere (fun node => ∀ label, node ≠ .group label []) tree := by
  revert tree
  suffices both : (∀ tree, Built tree ↔ Everywhere (fun node => ∀ label, node ≠ group label [])
        tree) ∧
      ∀ trees : List Obligation, ∀ tree ∈ trees, Built tree ↔
        Everywhere (fun node => ∀ label, node ≠ group label []) tree from both.1
  apply Obligation.induct
  case leaf =>
    intro label holds
    rw [everywhere_iff]
    simp [children, Built.leaf]
  case group =>
    intro label trees below
    rw [built_group_iff, everywhere_iff]
    simp only [ne_eq, group.injEq, not_and, children]
    exact and_congr ⟨fun some _ _ => some, fun some => some label rfl⟩ (forall₂_congr below)
  case nil => exact List.forall_mem_nil _
  case cons =>
    intro first rest head tail
    exact List.forall_mem_cons.mpr ⟨head, tail⟩

/-- What a line shows of a node. -/
structure Entry where
  depth : Nat
  holds : Bool
  label : String

def entry (node : Nat × Obligation) : Entry := ⟨node.1, node.2.holds, node.2.label⟩

/-- A line without the end of it. -/
def Entry.text (e : Entry) : List Char :=
  List.replicate (2 * e.depth) ' ' ++ ((if e.holds then "[ok]  " else "[FAIL]") ++ " ").toList ++
    e.label.toList

theorem toList_pushn (text : String) (c : Char) (count : Nat) :
    (text.pushn c count).toList = text.toList ++ List.replicate count c := by
  rw [String.pushn_eq_repeat_push]
  induction count with
  | zero => simp [Nat.repeat]
  | succ count ih => simp [Nat.repeat, ih, List.replicate_succ']

theorem toList_line (e : Entry) :
    (line e.depth e.holds e.label).toList = e.text ++ ['\n'] := by
  simp [line, Entry.text, toList_pushn]

theorem toList_report (tree : Obligation) :
    tree.report.toList = tree.nodes.flatMap fun node => (entry node).text ++ ['\n'] := by
  suffices both : (∀ (tree : Obligation) depth, (reportAt depth tree).toList =
        (nodesAt depth tree).flatMap fun node => (entry node).text ++ ['\n']) ∧
      ∀ trees depth, (reportAll depth trees).toList =
        (nodesIn depth trees).flatMap fun node => (entry node).text ++ ['\n'] from
    both.1 tree 0
  apply Obligation.induct
  case leaf =>
    intro label holds depth
    have own := toList_line ⟨depth, holds, label⟩
    simpa [reportAt, nodesAt, entry, Obligation.holds, Obligation.label] using own
  case group =>
    intro label children below depth
    have own := toList_line ⟨depth, allHold children, label⟩
    rw [reportAt, nodesAt, List.flatMap_cons, String.toList_append, below, own]
    rfl
  case nil =>
    intro depth
    rfl
  case cons =>
    intro first rest head tail depth
    rw [reportAll, nodesIn, List.flatMap_append, String.toList_append, head, tail]

def Unbroken (node : Obligation) : Prop := OneLine node.label

theorem Entry.not_mem_text {e : Entry} (unbroken : OneLine e.label) : '\n' ∉ e.text := by
  have label : '\n' ∉ e.label.toList := unbroken
  cases holds : e.holds <;> simp [text, holds, label]

/-- A line is marked as failed exactly if a leaf at or below its node fails. -/
theorem text_entry (node : Nat × Obligation) :
    (entry node).text = List.replicate (2 * node.1) ' ' ++
      (if ∃ leaf ∈ node.2.leaves, leaf.2 = false then "[FAIL]" else "[ok]  ").toList ++
      ' ' :: node.2.label.toList := by
  have marked := node.2.holds_iff_leaves
  by_cases holds : node.2.holds = true
  · have sound : ¬∃ leaf ∈ node.2.leaves, leaf.2 = false := by
      rintro ⟨leaf, member, fails⟩
      rw [marked.mp holds leaf member] at fails
      cases fails
    simp [entry, Entry.text, holds, if_neg sound]
  · have unsound : ∃ leaf ∈ node.2.leaves, leaf.2 = false := by
      by_contra none
      refine holds (marked.mpr fun leaf member => ?_)
      by_contra fails
      exact none ⟨leaf, member, Bool.eq_false_of_not_eq_true fails⟩
    simp [entry, Entry.text, holds, if_pos unsound]

theorem splitOn_flatMap_line {texts : List (List Char)} (clean : ∀ text ∈ texts, '\n' ∉ text) :
    (texts.flatMap (· ++ ['\n'])).splitOn '\n' = texts ++ [[]] := by
  induction texts with
  | nil => rfl
  | cons text rest ih =>
    obtain ⟨here, later⟩ := List.forall_mem_cons.mp clean
    rw [List.flatMap_cons, List.append_assoc, List.singleton_append,
      List.splitOn_append_cons_self_of_not_mem here, ih later, List.cons_append]

/-- Cutting the report at line ends gives back the lines, and nothing after the last. -/
theorem splitOn_report {tree : Obligation} (unbroken : tree.Everywhere Unbroken) :
    tree.report.toList.splitOn '\n' = tree.nodes.map (fun node => (entry node).text) ++ [[]] := by
  have lines : tree.report.toList =
      (tree.nodes.map fun node => (entry node).text).flatMap (· ++ ['\n']) := by
    rw [toList_report, List.flatMap_map]
  rw [lines]
  apply splitOn_flatMap_line
  rw [List.forall_mem_map]
  exact fun node mem => Entry.not_mem_text (unbroken node mem)

/-- The indent, the mark after it, and the label behind the mark. -/
def Entry.ofText (text : List Char) : Entry :=
  let marked := text.dropWhile (· == ' ')
  ⟨(text.takeWhile (· == ' ')).length / 2, marked.take 4 == "[ok]".toList,
    String.ofList (marked.drop 7)⟩

/-- Sets a node in front of trees that stand at their depths. Those deeper than it, up to the first
that is not, are below it. -/
def place (e : Entry) (forest : List (Nat × Obligation)) : List (Nat × Obligation) :=
  let below := forest.takeWhile fun tree => e.depth < tree.1
  let tree := if below = [] then leaf e.label e.holds else group e.label (below.map (·.2))
  (e.depth, tree) :: forest.dropWhile fun tree => e.depth < tree.1

/-- The tree of a report, built from the last line to the first. -/
def ofReport? (report : String) : Option Obligation :=
  let lines := (report.toList.splitOn '\n').dropLast
  match (lines.map Entry.ofText).foldr place [] with
  | [(0, tree)] => some tree
  | _ => none

theorem Entry.ofText_text (e : Entry) : ofText e.text = e := by
  have blanks : ∀ c ∈ List.replicate (2 * e.depth) ' ', (c == ' ') = true := by simp
  unfold ofText text
  rw [List.append_assoc, List.takeWhile_append_of_pos blanks, List.dropWhile_append_of_pos blanks]
  cases e with
  | mk depth holds label => cases holds <;> simp

/-- The first of the trees, if there is one, is no deeper than that. -/
def HeadsAt (depth : Nat) (forest : List (Nat × Obligation)) : Prop :=
  ∀ first ∈ forest.head?, first.1 ≤ depth

theorem place_leaf {depth : Nat} {forest : List (Nat × Obligation)} (heads : HeadsAt depth forest)
    (label : String) (holds : Bool) :
    place ⟨depth, holds, label⟩ forest = (depth, leaf label holds) :: forest := by
  cases forest with
  | nil => rfl
  | cons first rest =>
    have outside : ¬depth < first.1 := Nat.not_lt.mpr (heads first rfl)
    simp [place, outside]

theorem place_group {depth : Nat} {forest : List (Nat × Obligation)} (heads : HeadsAt depth forest)
    (label : String) (holds : Bool) {trees : List Obligation} (some : trees ≠ []) :
    place ⟨depth, holds, label⟩ (trees.map (depth + 1, ·) ++ forest) =
      (depth, group label trees) :: forest := by
  have deeper : ∀ tree ∈ trees.map (depth + 1, ·), decide (depth < tree.1) = true := by simp
  have stop : forest.takeWhile (fun tree => depth < tree.1) = [] ∧
      forest.dropWhile (fun tree => depth < tree.1) = forest := by
    cases forest with
    | nil => exact ⟨rfl, rfl⟩
    | cons first rest =>
      have outside : ¬depth < first.1 := Nat.not_lt.mpr (heads first rfl)
      simp [outside]
  unfold place
  rw [List.takeWhile_append_of_pos deeper, List.dropWhile_append_of_pos deeper, stop.1, stop.2]
  simp [some, Function.comp_def]

theorem foldr_place :
    (∀ (tree : Obligation) depth forest, Built tree → HeadsAt depth forest →
      ((nodesAt depth tree).map entry).foldr place forest = (depth, tree) :: forest) ∧
    ∀ (trees : List Obligation) depth forest, (∀ tree ∈ trees, Built tree) →
      HeadsAt depth forest →
      ((nodesIn depth trees).map entry).foldr place forest = trees.map (depth, ·) ++ forest := by
  apply Obligation.induct
  case leaf =>
    intro label holds depth forest _ heads
    exact place_leaf heads label holds
  case group =>
    intro label trees below depth forest built heads
    obtain ⟨some, inside⟩ := built_group_iff.mp built
    have under : HeadsAt (depth + 1) forest := fun first mem => (heads first mem).trans (by omega)
    rw [nodesAt, List.map_cons, List.foldr_cons, below _ _ inside under]
    exact place_group heads _ _ some
  case nil =>
    intro depth forest _ _
    rfl
  case cons =>
    intro first rest head tail depth forest built heads
    obtain ⟨here, later⟩ := List.forall_mem_cons.mp built
    rw [nodesIn, List.map_append, List.foldr_append, tail _ _ later heads]
    -- The trees that follow stand at the same depth, so none of them is taken for a child.
    have beside : HeadsAt depth (rest.map (depth, ·) ++ forest) := by
      cases rest with
      | nil => exact heads
      | cons next others => simp [HeadsAt]
    rw [head _ _ here beside]
    rfl

/-- A report is read back to the tree it is about. -/
theorem ofReport?_report {tree : Obligation} (built : Built tree)
    (unbroken : tree.Everywhere Unbroken) : ofReport? tree.report = some tree := by
  have lines : (tree.report.toList.splitOn '\n').dropLast.map Entry.ofText =
      tree.nodes.map entry := by
    rw [splitOn_report unbroken, List.dropLast_concat, List.map_map]
    exact List.map_congr_left fun node _ => Entry.ofText_text _
  have placed := foldr_place.1 tree 0 [] built (by simp [HeadsAt])
  unfold ofReport?
  simp only [lines, nodes, placed]

end Obligation
end Javelet
