import DecisionTree.Error
import DecisionTree.Tree

/-!
# Names and numbers in reports

Reports show features and labels by name and thresholds with four decimal places.
Features beyond the given names are shown by their ids.  Class names, if given,
replace the labels and have to reach up to every label that is shown.
-/

namespace DecisionTree.Report

/-- The names that a report uses. -/
structure Names where
  features : List String
  /-- Names in place of the labels, in label id order. -/
  classes : Option (List String)

namespace Names

/-- How a feature is shown. -/
def feature (names : Names) (id : Int) : String :=
  if 0 ≤ id then names.features.getD id.toNat s!"X[{id}]" else s!"X[{id}]"

/-- How the label of a leaf is shown. -/
def label {α : Type} (names : Names) (leaf : Leaf α) : Except Error String :=
  match names.classes with
  | none => .ok leaf.label.plain
  | some classes =>
      match Position.get? classes leaf.labelId with
      | some name => .ok name
      | none => .error .outOfRange

end Names

/-- How a threshold is shown. -/
def thresholdText (threshold : Float) : String :=
  Decimal.Fixed.text 4 threshold

/-- The distribution of a leaf as a table from label texts to shares, which are rounded
to four places and then written as short as they can be read back.  Of labels with
equal texts the first stands for all, with the share of the last. -/
def distributionText (leaf : Leaf Float) : String :=
  let shares := Association.ofPairs (· == ·)
    (leaf.scores.map fun (label, share) => (label.plain, Decimal.Fixed.round 4 share))
  let items := shares.map fun (label, share) =>
    Text.Quoted.text label ++ ": " ++ Decimal.Shortest.text share
  "\x7b" ++ ", ".intercalate items ++ "\x7d"

end DecisionTree.Report
