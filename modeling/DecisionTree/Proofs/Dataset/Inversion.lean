import DecisionTree.Dataset.Columns
import DecisionTree.Proofs.Column.Compaction
import DecisionTree.Proofs.Dataset.Rows
import DecisionTree.Proofs.Outcome

/-!
# A dataset turned on its side

A dataset is `Invertible` if the ids and labels of its examples are known and their values are
numbers.  Then it can be brought into columns (`Invertible.exists_columns`), and the column of a
feature describes the values that the examples store for it (`Invertible.describes`).
-/

namespace DecisionTree

namespace Dataset

variable {α : Type}

theorem inRange_indices (dataset : Dataset α) :
    Targets.InRange dataset.size dataset.indices := by
  intro index member
  obtain ⟨place, placeMember, rfl⟩ := List.mem_map.mp member
  have := List.mem_range.mp placeMember
  simp only [Int.ofNat_eq_natCast]
  omega

theorem nodup_indices (dataset : Dataset α) : dataset.indices.Nodup :=
  List.nodup_range.map fun _ _ same => Int.ofNat.inj same

/-- The ids of all examples are the numbers below their count. -/
theorem mem_indices {dataset : Dataset α} {index : Int} :
    index ∈ dataset.indices ↔ 0 ≤ index ∧ index < dataset.size := by
  constructor
  · exact inRange_indices dataset index
  · intro bounds
    refine List.mem_map.mpr ⟨index.toNat, List.mem_range.mpr (by omega), ?_⟩
    simp only [Int.ofNat_eq_natCast]
    omega

variable [Scalar α]

/-- The value that an example stores for a feature; zero if it stores none. -/
def valueAt (dataset : Dataset α) (feature : Nat) (index : Int) : α :=
  (dataset.examples[index.toNat]?.map fun e => e.valueAt feature).getD 0

/-- All examples have labels of the table. -/
def Labelled (dataset : Dataset α) : Prop :=
  ∀ e ∈ dataset.examples, 0 ≤ e.label ∧ e.label < dataset.labels.size

/-- All examples have known ids and labels, and store numbers only. -/
structure Invertible (dataset : Dataset α) : Prop where
  fits : ∀ e ∈ dataset.examples, e.Fits dataset.features.size
  labelled : dataset.Labelled
  isNumber : ∀ feature < dataset.features.size, ∀ index ∈ dataset.indices,
    Scalar.isNumber (dataset.valueAt feature index) = true

namespace Labelled

variable {dataset : Dataset α} (labelled : dataset.Labelled)

include labelled

omit [Scalar α] in
/-- Labels and weights of all examples are known. -/
theorem known : dataset.targets.Known dataset.size where
  labels_size := by simp [targets, size]
  weights_size := by simp [targets, size]
  label_lt := by
    intro label member
    simp only [targets, List.mem_toArray, List.mem_map] at member
    obtain ⟨e, isExample, rfl⟩ := member
    exact labelled e isExample

/-- The histogram of a dataset is the tally of all its examples. -/
theorem labelCounts_eq :
    dataset.labelCounts = .ok (dataset.targets.tally dataset.indices) := by
  have bounded : ∀ item ∈ dataset.examples.map fun e : Example α => ((e.label, e.weight) : Int × α),
      0 ≤ item.1 ∧ item.1 < dataset.labels.size := by
    intro item member
    obtain ⟨e, isExample, rfl⟩ := List.mem_map.mp member
    exact labelled e isExample
  rw [labelCounts, Histogram.ofItems_of_lt bounded, Targets.tally]
  congr 2
  apply List.ext_getElem
  · simp [indices, size]
  · intro place inside bounded
    have isExample : place < dataset.examples.length := by simpa using inside
    simp [indices, Targets.labelled, targets, isExample]

end Labelled

namespace Invertible

variable {dataset : Dataset α} (invertible : dataset.Invertible)

include invertible

/-- The rows that examples are spread to hold their values. -/
theorem rows_eq {dense : List (List α)} (spread : dataset.rows = .ok dense) :
    dense = dataset.examples.map fun e => (List.range dataset.features.size).map e.valueAt := by
  have each := Outcome.mapM_eq_ok.mp spread
  apply List.ext_getElem
  · rw [List.length_map, each.length_eq]
  · intro place inside bounded
    have isExample : place < dataset.examples.length := by rwa [List.length_map] at bounded
    have own := each.get isExample inside
    simp only [List.get_eq_getElem, (invertible.fits _ (List.getElem_mem isExample)).row_eq] at own
    rw [List.getElem_map]
    cases accepted : Example.checkIds dataset.examples[place].ids
        dataset.examples[place].values.length dataset.features.size with
    | error error =>
        rw [accepted] at own
        cases own
    | ok checked =>
        rw [accepted] at own
        exact (Except.ok.inj own).symm

/-- Examples with ids that fit 64 bits are spread without failure. -/
theorem exists_rows (near : ∀ e ∈ dataset.examples, ∀ id ∈ e.ids, id < 2 ^ 63) :
    ∃ dense, dataset.rows = .ok dense := by
  apply Outcome.exists_mapM_eq_ok
  intro e isExample
  have fits := invertible.fits e isExample
  exact ⟨_, by rw [fits.row_eq, fits.checkIds_eq (near e isExample)]; rfl⟩

omit invertible in
/-- One feature of all rows, read by example. -/
theorem map_getD_eq {feature : Nat} (isFeature : feature < dataset.features.size) :
    ((dataset.examples.map fun e => (List.range dataset.features.size).map e.valueAt).map
        fun row => row.getD feature 0) = dataset.indices.map (dataset.valueAt feature) := by
  apply List.ext_getElem
  · simp [indices, size]
  · intro place inside bounded
    have isExample : place < dataset.examples.length := by simpa using inside
    simp [indices, valueAt, isFeature, isExample]

variable [Scalar.Ordered α]

theorem column_describes {feature : Nat} (isFeature : feature < dataset.features.size) :
    ∃ column : Column α,
      Column.ofObservations feature dataset.targets
        ((dataset.examples.map fun e => (List.range dataset.features.size).map e.valueAt).map
          fun row => row.getD feature 0) dataset.indices = .ok column ∧
        column.feature = feature ∧
        column.Describes dataset.targets (dataset.valueAt feature) dataset.indices := by
  rw [map_getD_eq isFeature]
  exact Column.ofObservations_describes invertible.labelled.known (inRange_indices dataset)
    (nodup_indices dataset) (invertible.isNumber feature isFeature) feature

/-- The columns of a dataset describe the values that its examples store. -/
theorem describes {columns : List (Column α)} (turned : dataset.columns = .ok columns) :
    columns.length = dataset.features.size ∧
      ∀ (feature : Nat) (column : Column α), columns[feature]? = some column →
        column.feature = feature ∧
          column.Describes dataset.targets (dataset.valueAt feature) dataset.indices := by
  obtain ⟨dense, spread, turned⟩ := Outcome.bind_eq_ok.mp turned
  rw [invertible.rows_eq spread] at turned
  have each := Outcome.mapM_eq_ok.mp turned
  refine ⟨by rw [← each.length_eq, List.length_range], ?_⟩
  intro feature column found
  obtain ⟨inside, rfl⟩ := List.getElem?_eq_some_iff.mp found
  have isFeature : feature < dataset.features.size := by
    rwa [← each.length_eq, List.length_range] at inside
  have own := each.get (by rwa [List.length_range]) inside
  obtain ⟨other, otherEq, properties⟩ := invertible.column_describes isFeature
  simp only [List.get_eq_getElem, List.getElem_range, otherEq] at own
  obtain rfl := Except.ok.inj own
  exact properties

/-- A dataset whose ids fit 64 bits can be turned on its side. -/
theorem exists_columns (near : ∀ e ∈ dataset.examples, ∀ id ∈ e.ids, id < 2 ^ 63) :
    ∃ columns, dataset.columns = .ok columns := by
  obtain ⟨dense, spread⟩ := invertible.exists_rows near
  have each : ∀ feature ∈ List.range dataset.features.size, ∃ column,
      Column.ofObservations feature dataset.targets (dense.map fun row => row.getD feature 0)
        dataset.indices = .ok column := by
    intro feature member
    rw [invertible.rows_eq spread]
    obtain ⟨column, found, -⟩ := invertible.column_describes (List.mem_range.mp member)
    exact ⟨column, found⟩
  obtain ⟨columns, turned⟩ := Outcome.exists_mapM_eq_ok each
  exact ⟨columns, Outcome.bind_eq_ok.mpr ⟨dense, spread, turned⟩⟩

end Invertible

end Dataset

end DecisionTree
