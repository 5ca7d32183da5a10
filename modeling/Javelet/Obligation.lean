namespace Javelet

/-- A leaf is a single assertion. A group names a construct with its type and holds when all below
it does. -/
inductive Obligation where
  | leaf (label : String) (holds : Bool)
  | group (label : String) (children : List Obligation)

namespace Obligation

/-- Stands in for the children of a construct with nothing to prove. -/
def trivial : Obligation := leaf "true" true

/-- A group that is never without children. -/
def ofChildren (label : String) : List Obligation → Obligation
  | [] => group label [trivial]
  | children => group label children

def label : Obligation → String
  | leaf label _ | group label _ => label

def children : Obligation → List Obligation
  | leaf _ _ => []
  | group _ children => children

mutual

def holds : Obligation → Bool
  | leaf _ holds => holds
  | group _ children => allHold children

def allHold : List Obligation → Bool
  | [] => true
  | child :: rest => holds child && allHold rest

end

mutual

/-- The labels of the leaves that do not hold, in tree order. -/
def failing : Obligation → List String
  | leaf label holds => if holds then [] else [label]
  | group _ children => failingIn children

def failingIn : List Obligation → List String
  | [] => []
  | child :: rest => failing child ++ failingIn rest

end

/-- The first direct child of that label. -/
def child? (obligation : Obligation) (label : String) : Option Obligation :=
  obligation.children.find? fun child => child.label == label

/-- A mark, then the label, indented by two columns a level. -/
def line (depth : Nat) (holds : Bool) (label : String) : String :=
  "".pushn ' ' (2 * depth) ++ (if holds then "[ok]  " else "[FAIL]") ++ " " ++ label ++ "\n"

mutual

def reportAt (depth : Nat) : Obligation → String
  | leaf label holds => line depth holds label
  | group label children => line depth (allHold children) label ++ reportAll (depth + 1) children

def reportAll (depth : Nat) : List Obligation → String
  | [] => ""
  | child :: rest => reportAt depth child ++ reportAll depth rest

end

/-- One line per node, a node before its children. -/
def report (obligation : Obligation) : String := reportAt 0 obligation

theorem allHold_eq_all (trees : List Obligation) : allHold trees = trees.all holds := by
  induction trees with
  | nil => rfl
  | cons tree rest ih => simp [allHold, ih]

theorem failingIn_eq_flatMap (trees : List Obligation) :
    failingIn trees = trees.flatMap failing := by
  induction trees with
  | nil => rfl
  | cons tree rest ih => simp [failingIn, ih]

theorem holds_ofChildren (label : String) (trees : List Obligation) :
    (ofChildren label trees).holds = trees.all holds := by
  cases trees with
  | nil => rfl
  | cons tree rest => simp [ofChildren, holds, allHold_eq_all]

theorem failing_ofChildren (label : String) (trees : List Obligation) :
    (ofChildren label trees).failing = trees.flatMap failing := by
  cases trees with
  | nil => rfl
  | cons tree rest => simp [ofChildren, failing, failingIn_eq_flatMap]

end Obligation

/-- The verdict on a unit and the tree behind it. -/
structure Verdict where
  wellTyped : Bool
  root : Obligation

def Verdict.text (verdict : Verdict) : String :=
  if verdict.wellTyped then "well typed" else "ill typed"

end Javelet
