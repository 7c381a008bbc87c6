import DecisionTree.Proofs.Dataset.Records
import DecisionTree.Proofs.Exact

/-!
# What the columns of a dataset hold

A dataset is `WellFormed` if its examples have ascending ids of features with numbers beside them,
and known labels.  Both builders give such datasets (`FromRows.wellFormed`, `wellFormed_ofRecords`),
and turning one on its side loses nothing: each example is found once in every column, with the
value that it stores (`WellFormed.held`).  So the columns hold the cells of a table or the numbers
of records, whichever the dataset was built from (`inversion_reproduces_data`).
-/

namespace DecisionTree

variable {α : Type} [Scalar α]

/-- An example is in one place of a column only, and the entry there has its value. -/
structure Column.HoldsOnce (column : Column α) (index : Int) (value : α) : Prop where
  count_eq_one : column.indices.count index = 1
  value_eq : ∀ entry ∈ column.entries, index ∈ entry.indices → Scalar.eq entry.value value = true

theorem Column.Describes.holdsOnce [Scalar.Ordered α] {column : Column α} {targets : Targets α}
    {stored : Int → α} {indices : List Int} (describes : column.Describes targets stored indices)
    (distinct : indices.Nodup) {index : Int} (member : index ∈ indices) {value : α}
    (same : Scalar.eq (stored index) value = true) : column.HoldsOnce index value where
  count_eq_one := by
    rw [describes.perm.count_eq]
    exact List.count_eq_one_of_mem distinct member
  value_eq entry isEntry isOwn :=
    Scalar.Ordered.eq_trans (Scalar.Ordered.eq_symm (describes.valued entry isEntry index isOwn))
      same

namespace Dataset

/-- Examples of known features, each with a number, and of known labels. -/
structure WellFormed (dataset : Dataset α) : Prop where
  fits : ∀ e ∈ dataset.examples, e.Fits dataset.features.size
  labelled : dataset.Labelled
  isNumber : ∀ e ∈ dataset.examples, ∀ value ∈ e.values, Scalar.isNumber value = true

/-- The ids of features fit into the signed 64 bits of an array of indices. -/
def Narrow (dataset : Dataset α) : Prop :=
  ∀ e ∈ dataset.examples, ∀ id ∈ e.ids, id < 2 ^ 63

instance (dataset : Dataset α) : Decidable dataset.Narrow :=
  inferInstanceAs (Decidable (∀ e ∈ dataset.examples, ∀ id ∈ e.ids, id < 2 ^ 63))

/-- There is one column for each feature, and it holds the values of all examples. -/
structure Held (dataset : Dataset α) (value : Nat → Int → α) (columns : List (Column α)) :
    Prop where
  length_eq : columns.length = dataset.features.size
  feature_eq : ∀ (feature : Nat) (column : Column α), columns[feature]? = some column →
    column.feature = feature
  holdsOnce : ∀ (feature : Nat) (column : Column α), columns[feature]? = some column →
    ∀ index ∈ dataset.indices, column.HoldsOnce index (value feature index)

variable [Scalar.Ordered α] {dataset : Dataset α} {columns : List (Column α)}

/-- The columns of an invertible dataset hold all values that equal the stored ones. -/
theorem Invertible.held (invertible : dataset.Invertible) (turned : dataset.columns = .ok columns)
    {value : Nat → Int → α}
    (same : ∀ feature < dataset.features.size, ∀ index ∈ dataset.indices,
      Scalar.eq (dataset.valueAt feature index) (value feature index) = true) :
    dataset.Held value columns := by
  obtain ⟨length, describes⟩ := invertible.describes turned
  refine ⟨length, fun feature column found => (describes feature column found).1, ?_⟩
  intro feature column found index member
  have isFeature : feature < dataset.features.size :=
    length ▸ (List.getElem?_eq_some_iff.mp found).1
  exact (describes feature column found).2.holdsOnce (nodup_indices dataset) member
    (same feature isFeature index member)

namespace WellFormed

variable (wellFormed : dataset.WellFormed) (zero : Scalar.isNumber (0 : α) = true)

include wellFormed zero

omit [Scalar.Ordered α] in
theorem invertible : dataset.Invertible where
  fits := wellFormed.fits
  labelled := wellFormed.labelled
  isNumber feature _ index _ := by
    rw [valueAt]
    cases found : dataset.examples[index.toNat]? with
    | none => exact zero
    | some e =>
        rw [Option.map_some, Option.getD_some, Example.valueAt]
        cases stored : (e.ids.zip e.values).lookup (feature : Int) with
        | none => exact zero
        | some value =>
            have isExample := List.mem_of_getElem? found
            have fits := wellFormed.fits e isExample
            have distinct : ((e.ids.zip e.values).map Prod.fst).Nodup :=
              fits.keys_eq.symm ▸ fits.nodup_ids
            have member := (Example.lookup_eq_some_iff distinct).mp stored
            exact wellFormed.isNumber e isExample value (List.of_mem_zip member).2

/-- A well-formed dataset can be turned on its side, and its columns hold what it stores. -/
theorem held (narrow : dataset.Narrow) :
    ∃ columns, dataset.columns = .ok columns ∧ dataset.Held dataset.valueAt columns := by
  have invertible := wellFormed.invertible zero
  obtain ⟨columns, turned⟩ := invertible.exists_columns narrow
  exact ⟨columns, turned, invertible.held turned invertible.isNumber⟩

end WellFormed

namespace FromRows

variable {rows : List (List α)} (fromRows : dataset.FromRows rows)

include fromRows

theorem wellFormed : dataset.WellFormed where
  fits := fromRows.invertible.fits
  labelled := fromRows.labelled
  isNumber e isExample value member := by
    obtain ⟨row, isRow, label, weight, -, rfl⟩ := fromRows.exists_row isExample
    obtain ⟨⟨id, own⟩, stored, rfl⟩ := List.mem_map.mp member
    obtain ⟨place, -, found, -⟩ := mem_sparse.mp stored
    exact fromRows.isNumber row isRow own (List.mem_of_getElem? found)

/-- The columns of a dataset that comes from a table hold the cells of the table. -/
theorem held (turned : dataset.columns = .ok columns) : dataset.Held (cell rows) columns := by
  refine fromRows.invertible.held turned fun feature isFeature index member => ?_
  rw [fromRows.valueAt_eq]
  exact Scalar.Ordered.eq_symm (eq_clearZero (fromRows.isNumber_cell isFeature member))

end FromRows

end Dataset

/-- A cell that equals zero is read as a zero. -/
theorem Setting.float?_of_isZero {cell : Setting} (zero : cell.isZero = true) :
    ∃ value, cell.float? = .ok value ∧ Scalar.eq value 0 = true := by
  cases cell with
  | list | record => cases zero
  | atom value =>
      cases value with
      | null | text => cases zero
      | bool value =>
          cases value with
          | true => cases zero
          | false => exact ⟨_, rfl, by decide⟩
      | int value =>
          obtain rfl : value = 0 := by simpa [isZero, Atom.equal, Atom.integer?] using zero
          exact ⟨_, rfl, by decide⟩
      | float value => exact ⟨value, rfl, Atom.equal_zero value ▸ zero⟩

namespace Dataset

section Records

variable {records : List (Record Setting)} {labels : Nested Label}
variable {weights : Option (Nested Float)} {table : Option LabelTable} {dataset : Dataset Float}

/-- The number that a record has under a name; zero if it leaves the name out. -/
def Record.number (record : Record Setting) (name : String) : Float :=
  ((record.lookup name).bind fun cell => cell.float?.toOption).getD 0

/-- The numbers that the examples of records stand for. -/
def numberAt (records : List (Record Setting)) (features : FeatureNames) (feature : Nat)
    (index : Int) : Float :=
  (records.getD index.toNat []).number (features.names.getD feature "")

/-- No cell is read as a value that is no number. -/
def Numeric (records : List (Record Setting)) : Prop :=
  ∀ record ∈ records, ∀ item ∈ record, ∀ value, item.2.float? = .ok value →
    Scalar.isNumber value = true

theorem float?_of_readSetting {cell : Setting} {value : Float}
    (readEq : readSetting cell = .ok (some value)) : cell.float? = .ok value := by
  rw [readSetting] at readEq
  split at readEq
  · cases readEq
  · obtain ⟨own, ownEq, same⟩ := Outcome.bind_eq_ok.mp readEq
    obtain rfl := Option.some.inj (Except.ok.inj same)
    exact ownEq

/-- What a record stores for a name equals its number. -/
theorem Record.eq_number {record : Record Setting}
    (numeric : ∀ item ∈ record, ∀ value, item.2.float? = .ok value → Scalar.isNumber value = true)
    (distinct : (record.map Prod.fst).Nodup) (name : String) :
    Scalar.eq (record.valueOf readSetting name) (record.number name) = true := by
  have zeros : Scalar.eq (0 : Float) 0 = true := by decide
  rw [valueOf, number]
  cases looked : record.lookup name with
  | none => exact zeros
  | some cell =>
      have member := (Example.lookup_eq_some_iff distinct).mp looked
      rw [Option.bind_some, Option.bind_some, readSetting]
      split
      next zero =>
        obtain ⟨value, valueEq, isZero⟩ := Setting.float?_of_isZero zero
        rw [valueEq]
        exact Scalar.Ordered.eq_symm isZero
      next =>
        cases valueEq : cell.float? with
        | error => exact zeros
        | ok value => exact numeric _ member value valueEq

variable (distinct : ∀ record ∈ records, (record.map Prod.fst).Nodup) (numeric : Numeric records)
variable (accepted : ofRecords readSetting records labels weights table = .ok dataset)

include distinct numeric accepted

/-- Records without values that are no numbers give a well-formed dataset. -/
theorem wellFormed_ofRecords : dataset.WellFormed := by
  have origin : ∀ e ∈ dataset.examples, ∃ record ∈ records, ∃ (id : Nat) (weight : Float),
      id < dataset.labels.size ∧
      exampleOfRecord readSetting dataset.features (record, id, weight) = .ok e := by
    intro e isExample
    obtain ⟨place, found⟩ := List.getElem?_of_mem isExample
    obtain ⟨record, id, weight, isRecord, made⟩ := (exists_record accepted).2 place e found
    exact ⟨record, List.mem_of_getElem? isRecord, id, weight, made⟩
  refine ⟨fun e isExample => ?_, fun e isExample => ?_, fun e isExample value member => ?_⟩
  all_goals obtain ⟨record, isRecord, id, weight, known, made⟩ := origin e isExample
  · exact fits_exampleOfRecord (distinct record isRecord) made
  · obtain ⟨pairs, -, rfl⟩ := exampleOfRecord_eq_ok.mp made
    simp only
    omega
  · obtain ⟨pairs, stored, rfl⟩ := exampleOfRecord_eq_ok.mp made
    obtain ⟨⟨own, _⟩, pairMember, rfl⟩ := List.mem_map.mp member
    obtain ⟨place, name, cell, rfl, -, item, readEq⟩ := (mem_recordFeatures stored).mp pairMember
    exact numeric record isRecord _ item _ (float?_of_readSetting readEq)

/-- What is stored for records equals the numbers of the records. -/
theorem valueAt_eq_numberAt {feature : Nat} (isFeature : feature < dataset.features.size)
    {index : Int} (member : index ∈ dataset.indices) :
    Scalar.eq (dataset.valueAt feature index)
      (numberAt records dataset.features feature index) = true := by
  have inside : index.toNat < dataset.examples.length := by
    have bounds := mem_indices.mp member
    rw [size] at bounds
    omega
  have named : dataset.features.names[feature]? = some dataset.features.names[feature] :=
    List.getElem?_eq_getElem isFeature
  obtain ⟨record, id, weight, isRecord, -, made⟩ :=
    (exists_record accepted).2 _ _ (List.getElem?_eq_getElem inside)
  have isMember := List.mem_of_getElem? isRecord
  rw [valueAt, numberAt, List.getElem?_eq_getElem inside, Option.map_some, Option.getD_some,
    valueAt_exampleOfRecord (distinct record isMember) made named, List.getD_eq_getElem?_getD,
    isRecord, List.getD_eq_getElem?_getD, named]
  exact Record.eq_number (numeric record isMember) (distinct record isMember) _

/-- The columns of a dataset that comes from records hold the numbers of the records. -/
theorem held_ofRecords {columns : List (Column Float)} (turned : dataset.columns = .ok columns) :
    dataset.Held (numberAt records dataset.features) columns :=
  ((wellFormed_ofRecords distinct numeric accepted).invertible (by decide)).held turned
    fun _ isFeature _ member =>
      valueAt_eq_numberAt distinct numeric accepted isFeature member

end Records

section Exact

variable {K : Type} [Field K] [LinearOrder K] {dataset : Dataset K}

/-- Without rounding every column has the histogram of the whole dataset. -/
theorem WellFormed.labelCounts_eq (wellFormed : dataset.WellFormed) {columns : List (Column K)}
    (turned : dataset.columns = .ok columns) {column : Column K} (isColumn : column ∈ columns) :
    dataset.labelCounts = .ok column.counts := by
  obtain ⟨feature, found⟩ := List.getElem?_of_mem isColumn
  have invertible := wellFormed.invertible (Exact.isNumber 0)
  have describes := ((invertible.describes turned).2 feature column found).2
  rw [wellFormed.labelled.labelCounts_eq, describes.counts_eq]

end Exact

/-- Turning a dataset on its side reproduces the data, if examples have ascending ids of features,
each with a number, and known labels.  There is no failure, as ids are of 64 bits; every example is
found once in each column, and there with the value that it stores, or zero.
Datasets from tables and from records without a value that is no number are such datasets, so their
columns hold the cells of the table and the numbers of the records.  Without rounding, all columns
have the label histogram of the dataset. -/
theorem inversion_reproduces_data :
    (∀ dataset : Dataset Float, dataset.WellFormed → dataset.Narrow →
      ∃ columns, dataset.columns = .ok columns ∧ dataset.Held dataset.valueAt columns) ∧
    (∀ (values : Nested Float) (labels : Nested Label) (weights : Option (Nested Float))
        (names : Option Setting) (table : Option LabelTable) (dataset : Dataset Float),
      ofTable values labels weights names table = .ok dataset →
        dataset.WellFormed ∧ ∃ width rows, values.grid = .ok (.table width rows) ∧
          dataset.features.size = width ∧ dataset.size = rows.length ∧
          (dataset.Narrow →
            ∃ columns, dataset.columns = .ok columns ∧ dataset.Held (cell rows) columns)) ∧
    (∀ (records : List (Record Setting)) (labels : Nested Label) (weights : Option (Nested Float))
        (table : Option LabelTable) (dataset : Dataset Float),
      (∀ record ∈ records, (record.map Prod.fst).Nodup) → Numeric records →
      ofRecords readSetting records labels weights table = .ok dataset →
        dataset.WellFormed ∧ dataset.features.names = recordNames records ∧
          dataset.size = records.length ∧
          (dataset.Narrow → ∃ columns, dataset.columns = .ok columns ∧
            dataset.Held (numberAt records dataset.features) columns)) ∧
    ∀ {K : Type} [Field K] [LinearOrder K] (dataset : Dataset K), dataset.WellFormed →
      dataset.Narrow → ∃ columns, dataset.columns = .ok columns ∧
        ∀ column ∈ columns, dataset.labelCounts = .ok column.counts := by
  refine ⟨fun dataset wellFormed narrow => wellFormed.held (by decide) narrow, ?table, ?records,
    ?exact⟩
  case table =>
    intro values labels weights names table dataset accepted
    obtain ⟨width, rows, grid, fromRows⟩ := fromRows_of_ofTable accepted
    refine ⟨fromRows.wellFormed, width, rows, grid, size_features_of_ofTable accepted grid,
      fromRows.size_eq, fun narrow => ?_⟩
    obtain ⟨columns, turned, -⟩ := fromRows.wellFormed.held (by decide) narrow
    exact ⟨columns, turned, fromRows.held turned⟩
  case records =>
    intro records labels weights table dataset distinct numeric accepted
    have wellFormed := wellFormed_ofRecords distinct numeric accepted
    obtain ⟨_, _, _, _, -, -, -, -, names, -⟩ := ofRecords_eq_ok.mp accepted
    refine ⟨wellFormed, names, (exists_record accepted).1, fun narrow => ?_⟩
    obtain ⟨columns, turned, -⟩ := wellFormed.held (by decide) narrow
    exact ⟨columns, turned, held_ofRecords distinct numeric accepted turned⟩
  case exact =>
    intro K _ _ dataset wellFormed narrow
    obtain ⟨columns, turned, -⟩ := wellFormed.held (Exact.isNumber 0) narrow
    exact ⟨columns, turned, fun column isColumn => wellFormed.labelCounts_eq turned isColumn⟩

namespace Sample

/-- A record with an integer that is zero, and one that leaves out a name. -/
def records : List (Record Setting) :=
  [[("b", .atom (.float 1.5)), ("a", .atom (.int 0))], [("a", .atom (.bool true))]]

/-- Two labels. -/
def labels : Nested Label :=
  .many [.one (.text "x"), .one (.text "y")]

end Sample

/-- The records of the sample, a table with a negative zero, and a table without rounding. -/
theorem inversion_reproduces_data_sample :
    ∃ (stored dense : Dataset Float) (exact : Dataset ℚ)
      (columns denseColumns : List (Column Float)) (exactColumns : List (Column ℚ)),
      ofRecords readSetting Sample.records Sample.labels none none = .ok stored ∧
      stored.columns = .ok columns ∧ stored.Held stored.valueAt columns ∧
      stored.Held (numberAt Sample.records stored.features) columns ∧
      ofTable (.ofRows 2 [[-0.0, 1.5], [1, 0]]) Sample.labels none none none = .ok dense ∧
      dense.columns = .ok denseColumns ∧ dense.Held (cell [[-0.0, 1.5], [1, 0]]) denseColumns ∧
      ofTable (.ofRows 1 [[1 / 3], [0]]) Sample.labels none none none = .ok exact ∧
      exact.columns = .ok exactColumns ∧
      ∀ column ∈ exactColumns, exact.labelCounts = .ok column.counts := by
  have checked : ∀ record ∈ Sample.records, ∀ item ∈ record,
      item.2.float?.toOption.all Scalar.isNumber = true := by
    decide +kernel
  have numeric : Numeric Sample.records := fun record isRecord item isItem value valueEq => by
    simpa [valueEq, Except.toOption] using checked record isRecord item isItem
  have storedPassed : Outcome.passes
      (ofRecords readSetting Sample.records Sample.labels none none)
      (fun stored => decide stored.Narrow) = true := by
    decide +kernel
  have densePassed : Outcome.passes
      (ofTable (.ofRows 2 [[-0.0, 1.5], [1, 0]]) Sample.labels none none none)
      (fun dense => decide dense.Narrow) = true := by
    decide +kernel
  have exactPassed : Outcome.passes
      (ofTable (.ofRows 1 [[(1 / 3 : ℚ)], [0]]) Sample.labels none none none)
      (fun exact => decide exact.Narrow) = true := by
    decide +kernel
  obtain ⟨stored, storedEq, storedNarrow⟩ := Outcome.exists_of_passes storedPassed
  obtain ⟨dense, denseEq, denseNarrow⟩ := Outcome.exists_of_passes densePassed
  obtain ⟨exact, exactEq, exactNarrow⟩ := Outcome.exists_of_passes exactPassed
  obtain ⟨held, fromTable, fromRecords, counted⟩ := inversion_reproduces_data
  obtain ⟨wellFormed, -, -, numbers⟩ :=
    fromRecords Sample.records _ _ _ stored (by decide) numeric storedEq
  obtain ⟨columns, turned, values⟩ := held stored wellFormed (of_decide_eq_true storedNarrow)
  obtain ⟨_, turnedAlso, recordValues⟩ := numbers (of_decide_eq_true storedNarrow)
  obtain rfl := Except.ok.inj (turned.symm.trans turnedAlso)
  obtain ⟨-, width, rows, grid, -, -, cells⟩ := fromTable _ _ _ _ _ dense denseEq
  obtain ⟨-, rfl⟩ := (Grid.table.injEq ..).mp (Except.ok.inj grid)
  obtain ⟨denseColumns, denseTurned, denseCells⟩ := cells (of_decide_eq_true denseNarrow)
  obtain ⟨_, _, -, fromRows⟩ := fromRows_of_ofTable exactEq
  obtain ⟨exactColumns, exactTurned, exactCounts⟩ :=
    counted exact fromRows.wellFormed (of_decide_eq_true exactNarrow)
  exact ⟨stored, dense, exact, columns, denseColumns, exactColumns, storedEq, turned, values,
    recordValues, denseEq, denseTurned, denseCells, exactEq, exactTurned, exactCounts⟩

end Dataset

end DecisionTree
