import DecisionTree.Column.Compaction
import DecisionTree.Dataset.Basic

/-!
# A dataset in columns

Turning a dataset on its side makes zeros explicit: every example is spread to a
dense row, and every feature gets a column over all examples.
-/

namespace DecisionTree.Dataset

variable {α : Type} [Scalar α]

/-- Labels and weights of all examples. -/
def targets (dataset : Dataset α) : Targets α where
  labels := (dataset.examples.map Example.label).toArray
  weights := (dataset.examples.map Example.weight).toArray
  labelCount := dataset.labels.size

/-- The dense rows of all examples. -/
def rows (dataset : Dataset α) : Except Error (List (List α)) :=
  dataset.examples.mapM fun e => Example.row e.ids e.values dataset.features.size

/-- The ids of all examples. -/
def indices (dataset : Dataset α) : List Int :=
  (List.range dataset.size).map Int.ofNat

/-- One column for each feature, in id order. -/
def columns (dataset : Dataset α) : Except Error (List (Column α)) := do
  let rows ← dataset.rows
  (List.range dataset.features.size).mapM fun (feature : Nat) =>
    Column.ofObservations feature dataset.targets (rows.map fun row => row.getD feature 0)
      dataset.indices

end DecisionTree.Dataset
