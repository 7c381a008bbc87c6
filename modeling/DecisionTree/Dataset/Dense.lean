import DecisionTree.Dataset.Basic

/-!
# Datasets from a dense table

Each row of a table becomes an example that keeps only the values other than zero.
A value that is not a number is refused; infinite values are not.
-/

namespace DecisionTree.Dataset

variable {α : Type} [Scalar α]

/-- The values of a row that are not zero, with their ids. -/
def sparse (row : List α) : List (Int × α) :=
  (row.zipIdx.filter fun (value, _) => !Scalar.eq value 0).map
    fun (value, id) => ((id : Int), value)

/-- The example of a row. -/
def exampleOfRow (row : List α) (label : Nat) (weight : α) : Example α :=
  { ids := (sparse row).map Prod.fst, values := (sparse row).map Prod.snd, label, weight }

/-- The examples of rows that come with label ids and weights. -/
def examplesOfRows (rows : List (List α)) (ids : List Nat) (weights : List α) :
    List (Example α) :=
  (rows.zip (ids.zip weights)).map fun (row, id, weight) => exampleOfRow row id weight

/-- Builds a dataset from a table of values and the labels of its rows.  Features
without names are named by their ids, and without a label table the labels are
numbered in ascending order. -/
def ofTable (values : Nested α) (labels : Nested Label) (weights : Option (Nested α))
    (names : Option Setting) (table : Option LabelTable) : Except Error (Dataset α) := do
  let values ← values.grid
  let labels ← labels.grid
  let .table width rows := values | throw .notTwoDimensional
  let .line labels := labels | throw .sampleCountsDiffer
  if labels.length ≠ rows.length then throw .sampleCountsDiffer
  if rows.any fun row => row.any fun value => !Scalar.isNumber value then throw .missingValue
  let names ← featureNames width names
  let weights ← Dataset.weights weights rows.length
  let features ← FeatureNames.ofNames names
  let table ← table.elim (LabelTable.ofOccurrences labels) .ok
  let ids ← table.idsOf (Atom.uniform labels)
  pure { features, labels := table, examples := examplesOfRows rows ids weights }
where
  /-- One text for each feature. -/
  featureNames (width : Nat) : Option Setting → Except Error (List String)
    | none => .ok (FeatureNames.standard width)
    | some names =>
        match names.items? with
        | none => .error .wrongKind
        | some items =>
            if items.length ≠ width then .error .nameCountDiffers
            else .ok (items.map Setting.plain)

end DecisionTree.Dataset
