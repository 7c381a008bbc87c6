import DecisionTree.Dataset.Records
import DecisionTree.Proofs.Binary64.Fields
import DecisionTree.Proofs.Dataset.Table
import Mathlib.Data.List.Sort
import Mathlib.Data.String.Basic

/-!
# Datasets that come from records

The names of records are given an order by `recordNames`, which lists each name that occurs once
and in ascending order (`names_recordNames`).  A record of different names is stored with ascending
ids, and for each of its names with what the cell is read as (`of_recordFeatures`).
-/

namespace DecisionTree

namespace Dataset

variable {α κ : Type}

section Names

/-- All names that occur in some records, in ascending order. -/
structure Names (records : List (Record κ)) (names : List String) : Prop where
  ascending : names.Pairwise (· < ·)
  mem_iff (name : String) : name ∈ names ↔ ∃ record ∈ records, name ∈ record.map Prod.fst

theorem mem_dropRepeatedNames {name : String} {names : List String} :
    name ∈ dropRepeatedNames names ↔ name ∈ names := by
  induction names using dropRepeatedNames.induct with
  | case1 => simp [dropRepeatedNames]
  | case2 => simp [dropRepeatedNames]
  | case3 first rest ih => simp [dropRepeatedNames, ih]
  | case4 first second rest differ ih => simp [dropRepeatedNames, differ, ih]

/-- Names in order are in strict order without the repeated ones. -/
theorem pairwise_dropRepeatedNames {names : List String} (sorted : names.Pairwise (· ≤ ·)) :
    (dropRepeatedNames names).Pairwise (· < ·) := by
  induction names using dropRepeatedNames.induct with
  | case1 => simp [dropRepeatedNames]
  | case2 => simp [dropRepeatedNames]
  | case3 first rest ih =>
      simp only [dropRepeatedNames, if_true]
      exact ih (List.pairwise_cons.mp sorted).2
  | case4 first second rest differ ih =>
      obtain ⟨above, restSorted⟩ := List.pairwise_cons.mp sorted
      simp only [dropRepeatedNames, differ, if_false]
      refine .cons (fun name member => ?_) (ih restSorted)
      have less : first < second := lt_of_le_of_ne (above second List.mem_cons_self) differ
      rcases List.mem_cons.mp (mem_dropRepeatedNames.mp member) with rfl | member
      · exact less
      · exact less.trans_le ((List.pairwise_cons.mp restSorted).1 name member)

theorem names_recordNames (records : List (Record κ)) : Names records (recordNames records) where
  ascending := by
    have inOrder (left right : String) : (!decide (right < left)) = true ↔ left ≤ right := by
      simp only [Bool.not_eq_true', decide_eq_false_iff_not, not_lt]
    refine pairwise_dropRepeatedNames (List.Pairwise.imp ?_ (Sorting.pairwise_sort ?_ ?_ _))
    · exact (inOrder _ _).mp
    · intro left right
      rw [Bool.or_eq_true, inOrder, inOrder]
      exact le_total left right
    · intro left middle right
      rw [inOrder, inOrder, inOrder]
      exact le_trans
  mem_iff name := by
    rw [recordNames, mem_dropRepeatedNames, (Sorting.perm_sort ..).mem_iff, List.mem_flatMap]

namespace Names

variable {records : List (Record κ)} {names : List String} (ordered : Names records names)

include ordered

/-- There is only one such list of names. -/
theorem eq_recordNames : names = recordNames records :=
  ordered.ascending.eq_of_mem_iff (names_recordNames records).ascending fun name => by
    rw [ordered.mem_iff, (names_recordNames records).mem_iff]

end Names

end Names

end Dataset

/-- The id of a name is its place among all names. -/
theorem FeatureNames.idOf?_eq_some_iff {features : FeatureNames} {name : String} {id : Nat} :
    features.idOf? (.text name) = some id ↔ features.names[id]? = some name := by
  rw [idOf?, List.findIdx?_eq_some_iff_getElem, List.getElem?_eq_some_iff]
  constructor
  · rintro ⟨inside, same, -⟩
    exact ⟨inside, eq_of_beq same⟩
  · rintro ⟨inside, same⟩
    refine ⟨inside, beq_iff_eq.mpr same, fun place before equal => ?_⟩
    have := (features.nodup.getElem_inj_iff).mp ((eq_of_beq equal).trans same.symm)
    omega

namespace Dataset

variable {α κ : Type}

section Features

variable {read : κ → Except Error (Option α)} {features : FeatureNames} {record : Record κ}
variable {pairs : List (Int × α)}

theorem recordFeatures_eq_ok :
    recordFeatures read features record = .ok pairs ↔
      ∃ options, record.mapM (recordFeature read features) = .ok options ∧
        Sorting.sort (fun left right => left.1 ≤ right.1) (options.filterMap id) = pairs := by
  rw [recordFeatures, Outcome.bind_eq_ok]
  exact exists_congr fun options => and_congr_right fun _ => ⟨Except.ok.inj, congrArg _⟩

/-- A cell adds nothing if nothing is read off it, and else a value for its name. -/
theorem recordFeature_eq_ok {item : String × κ} {option : Option (Int × α)} :
    recordFeature read features item = .ok option ↔
      read item.2 = .ok none ∧ option = none ∨
        ∃ (value : α) (id : Nat), read item.2 = .ok (some value) ∧
          features.names[id]? = some item.1 ∧ option = some ((id : Int), value) := by
  rw [recordFeature, Outcome.bind_eq_ok]
  constructor
  · rintro ⟨value?, readEq, added⟩
    split at added
    · exact .inl ⟨readEq, (Except.ok.inj added).symm⟩
    · cases added
    next value id idEq =>
      exact .inr ⟨value, id, readEq, FeatureNames.idOf?_eq_some_iff.mp idEq,
        (Except.ok.inj added).symm⟩
  · rintro (⟨readEq, rfl⟩ | ⟨value, id, readEq, found, rfl⟩)
    · exact ⟨none, readEq, rfl⟩
    · refine ⟨some value, readEq, ?_⟩
      rw [FeatureNames.idOf?_eq_some_iff.mpr found]
      rfl

/-- A record whose cells can be read is stored if all its names are known. -/
theorem exists_recordFeatures (known : ∀ name ∈ record.map Prod.fst, name ∈ features.names)
    (reads : ∀ item ∈ record, ∃ value?, read item.2 = .ok value?) :
    ∃ pairs, recordFeatures read features record = .ok pairs := by
  have each : ∀ item ∈ record, ∃ option, recordFeature read features item = .ok option := by
    intro item member
    obtain ⟨value?, readEq⟩ := reads item member
    cases value? with
    | none => exact ⟨none, recordFeature_eq_ok.mpr (.inl ⟨readEq, rfl⟩)⟩
    | some value =>
        obtain ⟨id, found⟩ := List.getElem?_of_mem (known item.1 (List.mem_map_of_mem member))
        exact ⟨_, recordFeature_eq_ok.mpr (.inr ⟨value, id, readEq, found, rfl⟩)⟩
  obtain ⟨options, found⟩ := Outcome.exists_mapM_eq_ok each
  exact ⟨_, recordFeatures_eq_ok.mpr ⟨options, found, rfl⟩⟩

/-- A stored record has the values that are read off its cells, under the ids of their names. -/
theorem mem_recordFeatures (stored : recordFeatures read features record = .ok pairs) {id : Int}
    {value : α} :
    (id, value) ∈ pairs ↔ ∃ (place : Nat) (name : String) (cell : κ), id = place ∧
      features.names[place]? = some name ∧ (name, cell) ∈ record ∧
      read cell = .ok (some value) := by
  obtain ⟨options, found, rfl⟩ := recordFeatures_eq_ok.mp stored
  simp only [(Sorting.perm_sort ..).mem_iff, List.mem_filterMap, id_eq, exists_eq_right]
  constructor
  · intro member
    obtain ⟨⟨name, cell⟩, itemMember, added⟩ := Outcome.exists_of_mem_mapM found _ member
    rcases recordFeature_eq_ok.mp added with ⟨-, same⟩ | ⟨own, place, readEq, nameEq, same⟩
    · cases same
    · obtain ⟨rfl, rfl⟩ := Prod.mk.inj (Option.some.inj same)
      exact ⟨place, name, cell, rfl, nameEq, itemMember, readEq⟩
  · rintro ⟨place, name, cell, rfl, nameEq, itemMember, readEq⟩
    obtain ⟨option, member, added⟩ := Outcome.mem_of_mapM found itemMember
    rcases recordFeature_eq_ok.mp added with ⟨other, -⟩ | ⟨own, id, ownRead, ownName, rfl⟩
    · cases readEq.symm.trans other
    · obtain rfl := Option.some.inj (Except.ok.inj (readEq.symm.trans ownRead))
      have inside := (List.getElem?_eq_some_iff.mp nameEq).1
      rwa [(List.getElem?_inj inside features.nodup).mp (nameEq.trans ownName.symm)]

/-- A stored record has its ids in ascending order. -/
theorem pairwise_recordFeatures (stored : recordFeatures read features record = .ok pairs)
    (distinct : (record.map Prod.fst).Nodup) :
    pairs.Pairwise fun left right => left.1 < right.1 := by
  obtain ⟨options, found, rfl⟩ := recordFeatures_eq_ok.mp stored
  have sorted : (Sorting.sort (fun left right => decide (left.1 ≤ right.1))
      (options.filterMap id)).Pairwise fun left right => left.1 ≤ right.1 := by
    refine (Sorting.pairwise_sort ?_ ?_ _).imp of_decide_eq_true
    · intro left right
      simpa using Int.le_total left.1 right.1
    · intro left middle right
      simpa using Int.le_trans
  have differ : options.Pairwise fun left right =>
      ∀ one ∈ left, ∀ other ∈ right, one.1 ≠ other.1 := by
    refine Outcome.pairwise_of_mapM found (List.pairwise_map.mp distinct) ?_
    rintro ⟨name, cell⟩ ⟨other, otherCell⟩ option another apart added otherAdded one oneMember
      two twoMember same
    rcases recordFeature_eq_ok.mp added with ⟨-, rfl⟩ | ⟨value, id, -, nameEq, rfl⟩
    · cases oneMember
    rcases recordFeature_eq_ok.mp otherAdded with ⟨-, rfl⟩ | ⟨otherValue, otherId, -, otherEq, rfl⟩
    · cases twoMember
    obtain rfl := Option.some.inj oneMember
    obtain rfl := Option.some.inj twoMember
    obtain rfl := Int.ofNat.inj same
    exact apart (Option.some.inj (nameEq.symm.trans otherEq))
  have apart : (options.filterMap id).Pairwise fun left right => left.1 ≠ right.1 :=
    List.pairwise_filterMap.mpr differ
  have sortedApart := (Sorting.perm_sort (fun left right => decide (left.1 ≤ right.1))
    (options.filterMap id)).pairwise_iff (fun differ => differ.symm) |>.mpr apart
  exact (sorted.and sortedApart).imp fun both => lt_of_le_of_ne both.1 both.2

end Features

section Maps

variable {ι : Type} {read : κ → Except Error (Option α)} {convert : ι → κ}

theorem recordNames_map (records : List (Record ι)) :
    recordNames (records.map fun record => record.map (Prod.map id convert)) =
      recordNames records := by
  simp [recordNames, List.flatMap_map, Function.comp_def]

theorem recordFeatures_map (features : FeatureNames) (record : Record ι) :
    recordFeatures read features (record.map (Prod.map id convert)) =
      recordFeatures (read ∘ convert) features record := by
  rw [recordFeatures, recordFeatures, List.mapM_map]
  rfl

/-- Cells can be converted before they are read or when they are read. -/
theorem ofRecords_map [Scalar α] (records : List (Record ι)) (labels : Nested Label)
    (weights : Option (Nested α)) (table : Option LabelTable) :
    ofRecords read (records.map fun record => record.map (Prod.map id convert)) labels weights
        table =
      ofRecords (read ∘ convert) records labels weights table := by
  have example_map (features : FeatureNames) (item : Record ι × Nat × α) :
      exampleOfRecord read features (Prod.map (fun record => record.map (Prod.map id convert)) id
        item) = exampleOfRecord (read ∘ convert) features item := by
    simp only [exampleOfRecord, Prod.map_fst, Prod.map_snd, id_eq, recordFeatures_map]
  simp only [ofRecords, List.length_map, recordNames_map, List.zip_map_left, List.mapM_map,
    Function.comp_def, example_map]

end Maps

section Examples

variable [Scalar α] {read : κ → Except Error (Option α)} {records : List (Record κ)}
variable {labels : Nested Label} {weights : Option (Nested α)} {table : Option LabelTable}
variable {dataset : Dataset α}

/-- The labels of records are one line, unless there are no records at all. -/
theorem recordLabels_eq_ok {grid : Grid Label} {line : List Label} {count : Nat}
    (counted : grid.shape.head? = some count) :
    recordLabels grid = .ok line ↔ grid = .line line ∨ count = 0 ∧ line = [] := by
  cases grid with
  | point label => cases counted
  | line labels =>
      obtain rfl : labels.length = count := Option.some.inj counted
      have none : labels.length = 0 ∧ line = [] → labels = line := by
        rintro ⟨none, rfl⟩
        exact List.eq_nil_of_length_eq_zero none
      simpa [recordLabels] using none
  | table | block =>
      have zero : some count = some 0 ↔ count = 0 := Option.some_inj
      simp only [recordLabels, counted, zero, reduceCtorEq, false_or]
      split <;> simp [*, eq_comm]

/-- What it takes for records to be accepted, and what they give. -/
theorem ofRecords_eq_ok :
    ofRecords read records labels weights table = .ok dataset ↔
      ∃ (grid : Grid Label) (line : List Label) (shares : List α) (ids : List Nat),
        labels.grid = .ok grid ∧ grid.shape.head? = some records.length ∧
        (grid = .line line ∨ records.length = 0 ∧ line = []) ∧
        Dataset.weights weights records.length = .ok shares ∧
        dataset.features.names = recordNames records ∧
        table.elim (LabelTable.ofOccurrences line) .ok = .ok dataset.labels ∧
        dataset.labels.idsOf (Atom.uniform line) = .ok ids ∧
        (records.zip (ids.zip shares)).mapM (exampleOfRecord read dataset.features) =
          .ok dataset.examples := by
  constructor
  · intro accepted
    obtain ⟨grid, gridEq, accepted⟩ := Outcome.bind_eq_ok.mp accepted
    split at accepted
    next count counted =>
      split at accepted
      · cases accepted
      next sameCount =>
      obtain rfl := Decidable.not_not.mp sameCount
      obtain ⟨shares, sharesEq, accepted⟩ := Outcome.bind_eq_ok.mp accepted
      obtain ⟨features, featuresEq, accepted⟩ := Outcome.bind_eq_ok.mp accepted
      obtain ⟨line, lineEq, accepted⟩ := Outcome.bind_eq_ok.mp accepted
      obtain ⟨known, knownEq, accepted⟩ := Outcome.bind_eq_ok.mp accepted
      obtain ⟨ids, idsEq, accepted⟩ := Outcome.bind_eq_ok.mp accepted
      obtain ⟨examples, examplesEq, accepted⟩ := Outcome.bind_eq_ok.mp accepted
      obtain rfl := Except.ok.inj accepted
      exact ⟨grid, line, shares, ids, gridEq, counted, (recordLabels_eq_ok counted).mp lineEq,
        sharesEq, FeatureNames.names_ofNames.mp featuresEq, knownEq, idsEq, examplesEq⟩
    next => cases accepted
  · rintro ⟨grid, line, shares, ids, gridEq, counted, isLine, sharesEq, featuresEq, knownEq, idsEq,
      examplesEq⟩
    refine Outcome.bind_eq_ok.mpr ⟨grid, gridEq, ?_⟩
    simp only [counted, ne_eq, not_true_eq_false, if_false]
    exact Outcome.bind_eq_ok.mpr ⟨shares, sharesEq, Outcome.bind_eq_ok.mpr
      ⟨_, FeatureNames.names_ofNames.mpr featuresEq, Outcome.bind_eq_ok.mpr
        ⟨line, (recordLabels_eq_ok counted).mpr isLine, Outcome.bind_eq_ok.mpr
          ⟨_, knownEq, Outcome.bind_eq_ok.mpr ⟨ids, idsEq, Outcome.bind_eq_ok.mpr
            ⟨_, examplesEq, rfl⟩⟩⟩⟩⟩⟩

variable {features : FeatureNames} {record : Record κ} {id : Nat} {weight : α} {e : Example α}

/-- The number that a cell is taken for; zero if there is no cell or nothing is read off it. -/
def Record.valueOf (read : κ → Except Error (Option α)) (record : Record κ) (name : String) : α :=
  ((record.lookup name).bind fun cell => (read cell).toOption.join).getD 0

omit [Scalar α] in
theorem exampleOfRecord_eq_ok :
    exampleOfRecord read features (record, id, weight) = .ok e ↔
      ∃ pairs, recordFeatures read features record = .ok pairs ∧
        { ids := pairs.map Prod.fst, values := pairs.map Prod.snd, label := id, weight } = e := by
  rw [exampleOfRecord, Outcome.bind_eq_ok]
  exact exists_congr fun pairs => and_congr_right fun _ => ⟨Except.ok.inj, congrArg _⟩

section Single

variable (distinct : (record.map Prod.fst).Nodup)
variable (made : exampleOfRecord read features (record, id, weight) = .ok e)

include distinct made

omit [Scalar α] in
/-- The ids of the example of a record are those of features. -/
theorem fits_exampleOfRecord : e.Fits features.size := by
  obtain ⟨pairs, stored, rfl⟩ := exampleOfRecord_eq_ok.mp made
  refine ⟨List.pairwise_map.mpr (pairwise_recordFeatures stored distinct), ?_, by simp⟩
  intro id member
  obtain ⟨⟨own, value⟩, pairMember, rfl⟩ := List.mem_map.mp member
  obtain ⟨place, name, cell, rfl, nameEq, -⟩ := (mem_recordFeatures stored).mp pairMember
  have inside := (List.getElem?_eq_some_iff.mp nameEq).1
  simp only [FeatureNames.size]
  omega

/-- The example of a record stores what the cells of the record are taken for. -/
theorem valueAt_exampleOfRecord {place : Nat} {name : String}
    (named : features.names[place]? = some name) :
    e.valueAt place = record.valueOf read name := by
  obtain ⟨pairs, stored, rfl⟩ := exampleOfRecord_eq_ok.mp made
  have ascending := pairwise_recordFeatures stored distinct
  have keys : (pairs.map Prod.fst).Nodup :=
    (List.pairwise_map.mpr ascending).imp Int.ne_of_lt
  have zipped : (pairs.map Prod.fst).zip (pairs.map Prod.snd) = pairs := by
    rw [List.zip_map']
    exact List.map_id _
  have lookup_iff (value : α) : pairs.lookup (place : Int) = some value ↔
      ((record.lookup name).bind fun cell => (read cell).toOption.join) = some value := by
    have read_iff (cell : κ) :
        (read cell).toOption.join = some value ↔ read cell = .ok (some value) := by
      cases read cell <;> simp [Except.toOption]
    simp only [Example.lookup_eq_some_iff keys, mem_recordFeatures stored, Option.bind_eq_some_iff,
      Example.lookup_eq_some_iff distinct, read_iff]
    constructor
    · rintro ⟨other, own, cell, same, ownEq, member, readEq⟩
      obtain rfl := Int.ofNat.inj same
      obtain rfl := Option.some.inj (named.symm.trans ownEq)
      exact ⟨cell, member, readEq⟩
    · rintro ⟨cell, member, readEq⟩
      exact ⟨place, name, cell, rfl, named, member, readEq⟩
  rw [Example.valueAt, Record.valueOf, zipped, Option.ext lookup_iff]

end Single

/-- What the examples of accepted records come from. -/
theorem exists_record
    (accepted : ofRecords read records labels weights table = .ok dataset) :
    dataset.size = records.length ∧
      ∀ (place : Nat) (e : Example α), dataset.examples[place]? = some e →
        ∃ (record : Record κ) (id : Nat) (weight : α), records[place]? = some record ∧
          id < dataset.labels.size ∧
          exampleOfRecord read dataset.features (record, id, weight) = .ok e := by
  obtain ⟨grid, line, shares, ids, -, counted, isLine, sharesEq, -, -, idsEq, examplesEq⟩ :=
    ofRecords_eq_ok.mp accepted
  have lengths : line.length = records.length := by
    rcases isLine with rfl | ⟨none, rfl⟩
    · exact Option.some.inj counted
    · exact none.symm
  obtain ⟨idCount, idBounds⟩ := LabelTable.of_idsOf idsEq
  rw [Atom.length_uniform, lengths] at idCount
  have shareCount := (of_weights sharesEq).1
  have each := Outcome.mapM_eq_ok.mp examplesEq
  have size : dataset.size = records.length := by
    simp [Dataset.size, ← each.length_eq, idCount, shareCount]
  refine ⟨size, fun place e found => ?_⟩
  obtain ⟨inside, rfl⟩ := List.getElem?_eq_some_iff.mp found
  have isRecord : place < records.length := size ▸ inside
  have own := each.get (each.length_eq ▸ inside) inside
  simp only [List.get_eq_getElem, List.getElem_zip] at own
  exact ⟨_, _, _, List.getElem?_eq_getElem isRecord, idBounds _ (List.getElem_mem _), own⟩

end Examples

/-- A float is read as the number that it is. -/
theorem readSetting_float (value : Float) :
    readSetting (.atom (.float value)) = readNumber value := by
  rw [readSetting, Setting.isZero, Atom.equal_zero, readNumber]
  split <;> rfl

end Dataset

end DecisionTree
