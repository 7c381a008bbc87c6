import DecisionTree.Decimal.Shortest
import DecisionTree.Histogram
import DecisionTree.Position

/-!
# Columns of sorted values

A column is the training data of one feature, turned on its side: the distinct
values in ascending order, each with the ascending ids of the examples that hold it
and the label histogram of those examples.  A search can then go through the values
of a feature and look at histograms only.

A column is filled by observations, which wait until the column is compacted.
-/

namespace DecisionTree

/-- What a column needs to know of all examples: their label ids and weights, and
the number of labels. -/
structure Targets (α : Type) where
  labels : Array Int
  weights : Array α
  labelCount : Nat

/-- The label id and the weight of an example.  Ids of examples may count from the end. -/
def Targets.item? {α : Type} (targets : Targets α) (index : Int) : Option (Int × α) := do
  let label ← targets.labels[← Position.resolve targets.labels.size index]?
  let weight ← targets.weights[← Position.resolve targets.weights.size index]?
  pure (label, weight)

/-- One value of one example. -/
structure Observation (α : Type) where
  value : α
  index : Int

/-- One distinct value of a feature and the examples that hold it. -/
structure Entry (α : Type) where
  value : α
  indices : List Int
  counts : List α

/-- The values of one feature over some examples. -/
structure Column (α : Type) where
  feature : Int
  targets : Targets α
  entries : List (Entry α)
  /-- Observations since the last compaction, in the groups in which they came. -/
  pending : List (List (Observation α))

namespace Entry

def size {α : Type} (entry : Entry α) : Nat :=
  entry.indices.length

/-- The text that stands for an entry in a column's summary. -/
def summary (entry : Entry Float) : String :=
  s!"InvertedFeature(value={Decimal.Shortest.text entry.value}, n={entry.size}, counts=[" ++
    ", ".intercalate (entry.counts.map Decimal.Shortest.text) ++ "])"

end Entry

namespace Column

variable {α : Type}

/-- A column without entries or observations. -/
def empty (feature : Int) (targets : Targets α) : Column α :=
  { feature, targets, entries := [], pending := [] }

/-- The ids of all examples of a column, entry by entry. -/
def indices (column : Column α) : List Int :=
  column.entries.flatMap Entry.indices

def exampleCount (column : Column α) : Nat :=
  column.indices.length

/-- The label histogram of all examples of a column, added up entry by entry. -/
def counts [Scalar α] (column : Column α) : List α :=
  column.entries.foldl (fun total entry => Histogram.plus total entry.counts)
    (Histogram.zero column.targets.labelCount)

def summary (column : Column Float) : String :=
  s!"FeatureColumn(feature_id={column.feature}, n_labels={column.targets.labelCount}, entries=[" ++
    ", ".intercalate (column.entries.map Entry.summary) ++ "])"

end Column

end DecisionTree
