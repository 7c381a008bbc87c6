import DecisionTree.Association
import DecisionTree.Atom.Basic
import DecisionTree.Decimal.Fixed
import DecisionTree.Position
import DecisionTree.Scalar

/-!
# Decision trees

A decision tree routes an input from the root to a leaf: at a split the input goes
left if its value of one feature is at most the threshold, and right otherwise.  A
leaf holds the label distribution of the training examples that ended there.
-/

namespace DecisionTree

/-- The end of a path: a distribution over labels, and the label it predicts. -/
structure Leaf (α : Type) where
  impurity : α
  labelId : Int
  label : Label
  /-- Share of each label, in id order. -/
  distribution : List α
  /-- All labels, in id order. -/
  labels : List Label

/-- A tree of threshold splits. -/
inductive Tree (α : Type) where
  | leaf (leaf : Leaf α)
  | split (feature : Int) (threshold impurity : α) (left right : Tree α)

namespace Leaf

variable {α : Type}

/-- The share of the predicted label. -/
def score? (leaf : Leaf α) : Option α :=
  Position.get? leaf.distribution leaf.labelId

/-- Each label with its share.  Of equal labels the first stands for all, with the
share of the last. -/
def scores (leaf : Leaf α) : List (Label × α) :=
  Association.ofPairs Atom.equal (leaf.labels.zip leaf.distribution)

/-- A line about a leaf; none if it predicts a label without a share. -/
def summary? (leaf : Leaf Float) : Option String := do
  let score ← leaf.score?
  pure (s!"LeafNode(label={leaf.label.quoted}, score={Decimal.Fixed.text 4 score}, " ++
    s!"impurity={Decimal.Fixed.text 4 leaf.impurity})")

end Leaf

namespace Tree

variable {α : Type}

/-- The leaf that an input reaches; none if the input lacks a feature that is asked
for. -/
def leafFor? [Scalar α] (input : List α) : Tree α → Option (Leaf α)
  | .leaf reached => some reached
  | .split feature threshold _ left right => do
      if Scalar.le (← Position.get? input feature) threshold then left.leafFor? input
      else right.leafFor? input

/-- The number of splits on the longest path. -/
def depth : Tree α → Nat
  | .leaf _ => 0
  | .split _ _ _ left right => 1 + max left.depth right.depth

def leafCount : Tree α → Nat
  | .leaf _ => 1
  | .split _ _ _ left right => left.leafCount + right.leafCount

/-- A line about the root of a tree. -/
def summary? : Tree Float → Option String
  | .leaf reached => reached.summary?
  | .split feature threshold impurity _ _ =>
      some (s!"SplitNode(feature_id={feature}, threshold={Decimal.Fixed.text 4 threshold}, " ++
        s!"impurity={Decimal.Fixed.text 4 impurity})")

end Tree

end DecisionTree
