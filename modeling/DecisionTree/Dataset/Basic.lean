import DecisionTree.Example
import DecisionTree.FeatureNames
import DecisionTree.LabelTable
import DecisionTree.Nested

/-!
# Training data

A dataset is a list of weighted sparse examples with the names of their features
and the table of their labels.  Nothing ties the examples to the names and labels
here: ids that do not fit are found when the data are brought into columns.
-/

namespace DecisionTree

/-- Examples with the meaning of their ids. -/
structure Dataset (α : Type) where
  features : FeatureNames
  labels : LabelTable
  examples : List (Example α)

namespace Dataset

variable {α : Type} [Scalar α]

def size (dataset : Dataset α) : Nat :=
  dataset.examples.length

def weightSum (dataset : Dataset α) : α :=
  Scalar.sum (dataset.examples.map Example.weight)

/-- Total weight per label id, over the label table and all ids that occur. -/
def labelCounts (dataset : Dataset α) : Except Error (List α) :=
  Histogram.ofItems dataset.labels.size (dataset.examples.map fun e => (e.label, e.weight))

/-- The example at a position; a negative position counts from the end. -/
def example? (dataset : Dataset α) (position : Int) : Option (Example α) :=
  Position.get? dataset.examples position

def summary (dataset : Dataset α) : String :=
  s!"Dataset(n_examples={dataset.size}, n_features={dataset.features.size}, " ++
    s!"n_labels={dataset.labels.size})"

/-- The weights given for a number of examples; one each if none are given. -/
def weights (given : Option (Nested α)) (count : Nat) : Except Error (List α) :=
  match given with
  | none => .ok (List.replicate count (Scalar.ofNat 1))
  | some given => do
      match ← given.grid with
      | .line weights =>
          if weights.length ≠ count then throw .weightCountDiffers
          if weights.any fun weight => Scalar.lt weight 0 then throw .negativeWeight
          pure weights
      | _ => throw .weightCountDiffers

end Dataset

end DecisionTree
