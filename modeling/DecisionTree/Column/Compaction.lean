import DecisionTree.Column.Basic
import DecisionTree.Sorting

/-!
# Observing and compacting

Observations may come one by one or many at a time, in any order.  Compaction sorts
the waiting observations by value and then by example id, and makes one entry of
each run of equal values.  Positive and negative zero are equal; an entry keeps the
value of its lowest id.  A value that is not a number equals nothing and makes an
entry of its own.

An example may be observed once only, and its label and weight have to be known.
Whether or not compaction succeeds, nothing is waiting afterwards; if it fails, the
entries stay as they were.
-/

namespace DecisionTree

variable {α : Type} [Scalar α]

/-- An observation with the label id and the weight of its example. -/
structure Sample (α : Type) where
  value : α
  index : Int
  label : Nat
  weight : α

/-- The order of samples: by value, then by example id. -/
def Sample.precedes (left right : Sample α) : Bool :=
  Scalar.precedes left.value right.value ||
    (!Scalar.precedes right.value left.value && left.index < right.index)

/-- Looks up the label and weight of an observed example.  Label ids may count from the
end, too. -/
def Targets.sample? (targets : Targets α) (observation : Observation α) : Option (Sample α) := do
  let (label, weight) ← targets.item? observation.index
  let label ← Position.resolve targets.labelCount label
  pure { value := observation.value, index := observation.index, label, weight }

/-- The entry of samples with one value, in ascending order of their ids. -/
def Entry.ofSamples (labelCount : Nat) (samples : List (Sample α)) : Entry α where
  value := (samples.head?.map Sample.value).getD 0
  indices := samples.map Sample.index
  counts := Histogram.tally labelCount (samples.map fun sample => (sample.label, sample.weight))

namespace Column

/-- Notes that an example has a value. -/
def observe (column : Column α) (value : α) (index : Int) : Column α :=
  { column with pending := column.pending ++ [[{ value, index }]] }

/-- Notes the values of many examples. -/
def observeMany (column : Column α) (values : List α) (indices : List Int) :
    Except Error (Column α) :=
  if values.length ≠ indices.length then .error .observationCountsDiffer
  else
    let observations := List.zipWith (fun value index => { value, index }) values indices
    .ok { column with pending := column.pending ++ [observations] }

/-- The entries that group observations by value. -/
def group (column : Column α) (observations : List (Observation α)) :
    Except Error (List (Entry α)) :=
  if ¬ (observations.map Observation.index).Nodup then .error (.observedTwice column.feature)
  else
    match observations.mapM column.targets.sample? with
    | none => .error .outOfRange
    | some samples =>
        let sorted := Sorting.sort (fun left right => !right.precedes left) samples
        let runs := sorted.splitBy fun left right => Scalar.eq left.value right.value
        .ok (runs.map (Entry.ofSamples column.targets.labelCount))

/-- Turns the waiting observations into entries.  With none waiting the entries stay;
the error, if any, is the second result. -/
def compact (column : Column α) : Column α × Option Error :=
  match column.pending with
  | [] => (column, none)
  | pending =>
      match column.group pending.flatten with
      | .ok entries => ({ column with entries, pending := [] }, none)
      | .error error => ({ column with pending := [] }, some error)

/-- A column that holds exactly the given observations. -/
def ofObservations (feature : Int) (targets : Targets α) (values : List α) (indices : List Int) :
    Except Error (Column α) := do
  let column ← (Column.empty feature targets).observeMany values indices
  match column.compact with
  | (column, none) => pure column
  | (_, some error) => throw error

end Column

end DecisionTree
