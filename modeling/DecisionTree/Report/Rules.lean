import DecisionTree.Report.Names

/-!
# A tree as a list of rules

Every path from the root to a leaf is a rule: the conditions met on the way, and the
label that follows from them.  The rules come in the order of the leaves from left to
right.
-/

namespace DecisionTree

/-- A comparison of one feature with a threshold. -/
structure Condition (α : Type) where
  feature : Int
  threshold : α
  /-- Whether the value has to be at most the threshold, or above it. -/
  atMost : Bool

/-- The paths to all leaves from left to right, each as its conditions from the root
down. -/
def Tree.paths {α : Type} : Tree α → List (List (Condition α) × Leaf α)
  | .leaf reached => [([], reached)]
  | .split feature threshold _ left right =>
      left.paths.map (Prod.map ({ feature, threshold, atMost := true } :: ·) id) ++
        right.paths.map (Prod.map ({ feature, threshold, atMost := false } :: ·) id)

/-- There is one path to each leaf. -/
@[simp] theorem Tree.length_paths {α : Type} (tree : Tree α) :
    tree.paths.length = tree.leafCount := by
  induction tree with
  | leaf => rfl
  | split feature threshold impurity left right leftCount rightCount =>
      simp [paths, leafCount, leftCount, rightCount]

namespace Report

/-- How a condition is shown. -/
def conditionText (names : Names) (condition : Condition Float) : String :=
  let relation := if condition.atMost then " <= " else " > "
  names.feature condition.feature ++ relation ++ thresholdText condition.threshold

/-- How a rule is shown.  A tree without splits has one rule without conditions. -/
def ruleText (names : Names) (conditions : List (Condition Float)) (label : String) : String :=
  let body :=
    if conditions.isEmpty then "<root>"
    else " AND ".intercalate (conditions.map (conditionText names))
  body ++ " => " ++ label

/-- All rules of a tree. -/
def rules (names : Names) (tree : Tree Float) : Except Error (List String) :=
  tree.paths.mapM fun (conditions, leaf) => do
    pure (ruleText names conditions (← names.label leaf))

end Report

end DecisionTree
