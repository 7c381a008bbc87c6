import DecisionTree.Dataset.Basic
import DecisionTree.Setting.Reading
import DecisionTree.Sorting

/-!
# Datasets from named records

A record maps feature names to cells and leaves out features that are zero.  The
features are all names that occur in any record, in the order of their code points.
What a cell contributes is a parameter: nothing for a zero, otherwise a value, or
an error for a cell that holds no number.
-/

namespace DecisionTree.Dataset

/-- A sparse row with its cells by name. -/
abbrev Record (κ : Type) := List (String × κ)

/-- The first of each run of equal names. -/
def dropRepeatedNames : List String → List String
  | [] => []
  | [name] => [name]
  | first :: second :: rest =>
      if first = second then dropRepeatedNames (second :: rest)
      else first :: dropRepeatedNames (second :: rest)

/-- All names that occur in the records, ascending and without repetition. -/
def recordNames {κ : Type} (records : List (Record κ)) : List String :=
  dropRepeatedNames
    (Sorting.sort (fun left right => !decide (right < left))
      (records.flatMap fun record => record.map Prod.fst))

/-- What a cell adds to the features of a record. -/
def recordFeature {α κ : Type} (read : κ → Except Error (Option α)) (features : FeatureNames)
    (item : String × κ) : Except Error (Option (Int × α)) := do
  match ← read item.2, features.idOf? (.text item.1) with
  | none, _ => pure none
  | some _, none => throw .missingKey
  | some value, some id => pure (some ((id : Int), value))

/-- The features of a record, with ids in ascending order. -/
def recordFeatures {α κ : Type} (read : κ → Except Error (Option α))
    (features : FeatureNames) (record : Record κ) : Except Error (List (Int × α)) := do
  let pairs ← record.mapM (recordFeature read features)
  pure (Sorting.sort (fun left right => left.1 ≤ right.1) (pairs.filterMap fun pair => pair))

/-- The example of a record that comes with a label id and a weight. -/
def exampleOfRecord {α κ : Type} (read : κ → Except Error (Option α)) (features : FeatureNames)
    (item : Record κ × Nat × α) : Except Error (Example α) := do
  let pairs ← recordFeatures read features item.1
  pure {
    ids := pairs.map Prod.fst
    values := pairs.map Prod.snd
    label := item.2.1
    weight := item.2.2 }

/-- The labels of records.  Only one line of labels can be looked up, but there is nothing to
look up in an array that is empty along its first dimension. -/
def recordLabels : Grid Label → Except Error (List Label)
  | .line labels => .ok labels
  | labels => if labels.shape.head? = some 0 then .ok [] else .error .wrongKind

/-- Builds a dataset from records and their labels.  Without a label table the
labels are numbered in ascending order. -/
def ofRecords {α κ : Type} [Scalar α] (read : κ → Except Error (Option α))
    (records : List (Record κ)) (labels : Nested Label) (weights : Option (Nested α))
    (table : Option LabelTable) : Except Error (Dataset α) := do
  let labels ← labels.grid
  let some count := labels.shape.head? | throw .outOfRange
  if records.length ≠ count then throw .recordCountsDiffer
  let weights ← Dataset.weights weights records.length
  let features ← FeatureNames.ofNames (recordNames records)
  let labels ← recordLabels labels
  let table ← table.elim (LabelTable.ofOccurrences labels) .ok
  let ids ← table.idsOf (Atom.uniform labels)
  let examples ← (records.zip (ids.zip weights)).mapM (exampleOfRecord read features)
  pure { features, labels := table, examples }

/-- A cell that holds a number. -/
def readNumber {α : Type} [Scalar α] (value : α) : Except Error (Option α) :=
  .ok (if Scalar.eq value 0 then none else some value)

/-- A cell of any kind.  Truth values are numbers, and a text is read as a float
without regard to its being zero. -/
def readSetting (cell : Setting) : Except Error (Option Float) :=
  if cell.isZero then .ok none else do pure (some (← cell.float?))

end DecisionTree.Dataset
