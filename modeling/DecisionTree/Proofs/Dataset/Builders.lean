import DecisionTree.Proofs.Dataset.Records

/-!
# Records and the table they stand for

Records of numbers stand for a table: its columns are the names that occur, in ascending order, and
a record that leaves out a name has a zero there.  From the table and from the records the same
dataset is built (`ofTable_iff_ofRecords`), except that the table is refused if it holds a value
that is no number, or if the labels are not in one line, where the records may be accepted.
-/

namespace DecisionTree

namespace Dataset

/-- The number that a record has under a name; zero if it leaves the name out. -/
def Record.entry (record : Record Float) (name : String) : Float :=
  (record.lookup name).getD 0

/-- The rows that records stand for. -/
def denseRows (names : List String) (records : List (Record Float)) : List (List Float) :=
  records.map fun record => names.map record.entry

/-- Names as a setting. -/
def textSettings (names : List String) : Setting :=
  .list (names.map fun name => .atom (.text name))

theorem featureNames_textSettings (names : List String) :
    ofTable.featureNames names.length (some (textSettings names)) = .ok names := by
  simp [ofTable.featureNames, textSettings, Setting.items?, Function.comp_def, Setting.plain,
    Atom.plain]

section Records

variable {features : FeatureNames} {record : Record Float} {records : List (Record Float)}
variable {names : List String}

theorem readNumber_eq_ok {cell value : Float} :
    readNumber cell = .ok (some value) ↔ cell = value ∧ Scalar.eq value 0 = false := by
  rw [readNumber, Except.ok.injEq]
  split
  next zero =>
    simp only [reduceCtorEq, false_iff, not_and]
    rintro rfl
    simp [zero]
  next nonzero =>
    simp only [Option.some.injEq, iff_self_and]
    rintro rfl
    simpa using nonzero

/-- Numbers are stored for a record as they are for its row. -/
theorem recordFeatures_readNumber (known : ∀ name ∈ record.map Prod.fst, name ∈ features.names)
    (distinct : (record.map Prod.fst).Nodup) :
    recordFeatures readNumber features record = .ok (sparse (features.names.map record.entry)) := by
  obtain ⟨pairs, stored⟩ : ∃ pairs, recordFeatures readNumber features record = .ok pairs :=
    exists_recordFeatures known fun item _ => ⟨_, rfl⟩
  have irrefl : Std.Irrefl fun left right : Int × Float => left.1 < right.1 :=
    ⟨fun _ => Int.lt_irrefl _⟩
  have antisymm : Std.Antisymm fun left right : Int × Float => left.1 < right.1 :=
    ⟨fun _ _ less more => absurd (Int.lt_trans less more) (Int.lt_irrefl _)⟩
  have sorted : (sparse (features.names.map record.entry)).Pairwise
      fun left right => left.1 < right.1 := pairwise_sparseFrom 0 _
  rw [stored]
  refine congrArg _ ((pairwise_recordFeatures stored distinct).eq_of_mem_iff sorted ?_)
  rintro ⟨id, value⟩
  refine (mem_recordFeatures stored).trans (Iff.trans ?_ mem_sparse.symm)
  simp only [readNumber_eq_ok, List.getElem?_map]
  constructor
  · rintro ⟨place, name, cell, rfl, nameEq, member, rfl, nonzero⟩
    refine ⟨place, rfl, ?_, nonzero⟩
    simp [nameEq, Record.entry, (Example.lookup_eq_some_iff distinct).mpr member]
  · rintro ⟨place, rfl, found, nonzero⟩
    obtain ⟨name, nameEq, rfl⟩ := Option.map_eq_some_iff.mp found
    cases looked : record.lookup name with
    | some cell =>
        rw [Record.entry, looked] at nonzero ⊢
        exact ⟨place, name, cell, rfl, nameEq, (Example.lookup_eq_some_iff distinct).mp looked,
          rfl, nonzero⟩
    | none =>
        -- the zero of an omitted name is not stored
        have zero : Scalar.eq (0 : Float) 0 = true := by decide
        rw [Record.entry, looked, Option.getD_none, zero] at nonzero
        cases nonzero

/-- The rows of records hold the numbers of the records, and zeros. -/
theorem isNumber_denseRows (ordered : Names records names)
    (distinct : ∀ record ∈ records, (record.map Prod.fst).Nodup) :
    (∀ row ∈ denseRows names records, ∀ value ∈ row, Scalar.isNumber value = true) ↔
      ∀ record ∈ records, ∀ item ∈ record, Scalar.isNumber item.2 = true := by
  simp only [denseRows, List.forall_mem_map]
  refine forall₂_congr fun record isRecord => ?_
  have entry_eq {name : String} {value : Float} (member : (name, value) ∈ record) :
      record.entry name = value := by
    rw [Record.entry, (Example.lookup_eq_some_iff (distinct record isRecord)).mpr member]
    rfl
  constructor
  · rintro numbers ⟨name, value⟩ member
    have isName : name ∈ names :=
      (ordered.mem_iff name).mpr ⟨record, isRecord, List.mem_map_of_mem member⟩
    simpa only [entry_eq member] using numbers name isName
  · intro numbers name isName
    cases looked : record.lookup name with
    | none =>
        rw [Record.entry, looked]
        decide
    | some value =>
        have member := (Example.lookup_eq_some_iff (distinct record isRecord)).mp looked
        simpa only [entry_eq member] using numbers _ member

/-- The examples of records are those of their rows. -/
theorem examples_denseRows (distinct : ∀ record ∈ records, (record.map Prod.fst).Nodup)
    (known : ∀ record ∈ records, ∀ name ∈ record.map Prod.fst, name ∈ features.names)
    (ids : List Nat) (shares : List Float) :
    (records.zip (ids.zip shares)).mapM (exampleOfRecord readNumber features) =
      .ok (examplesOfRows (denseRows features.names records) ids shares) := by
  have each : ∀ item ∈ records.zip (ids.zip shares), exampleOfRecord readNumber features item =
      .ok (exampleOfRow (features.names.map item.1.entry) item.2.1 item.2.2) := by
    rintro ⟨record, id, share⟩ member
    have isRecord := (List.of_mem_zip member).1
    exact exampleOfRecord_eq_ok.mpr
      ⟨_, recordFeatures_readNumber (known record isRecord) (distinct record isRecord), rfl⟩
  rw [Outcome.mapM_eq_map each, examplesOfRows, denseRows, List.zip_map_left, List.map_map]
  rfl

/-- From the table that records stand for the same dataset is built as from the records, and it is
built if there is one for the records, the records hold numbers only and the labels are in line. -/
theorem ofTable_iff_ofRecords (ordered : Names records names)
    (distinct : ∀ record ∈ records, (record.map Prod.fst).Nodup) {labels : Nested Label}
    {weights : Option (Nested Float)} {table : Option LabelTable} {dataset : Dataset Float} :
    ofTable (Nested.ofRows names.length (denseRows names records)) labels weights
        (some (textSettings names)) table = .ok dataset ↔
      ofRecords readNumber records labels weights table = .ok dataset ∧
        (∀ record ∈ records, ∀ item ∈ record, Scalar.isNumber item.2 = true) ∧
        ∃ line, labels.grid = .ok (.line line) := by
  have gridEq : (Nested.ofRows names.length (denseRows names records)).grid =
      .ok (.table names.length (denseRows names records)) := by
    refine Nested.grid_ofRows fun row isRow => ?_
    obtain ⟨record, -, rfl⟩ := List.mem_map.mp isRow
    rw [List.length_map]
  have known : ∀ record ∈ records, ∀ name ∈ record.map Prod.fst, name ∈ names :=
    fun record isRecord name member => (ordered.mem_iff name).mpr ⟨record, isRecord, member⟩
  rw [ofTable_eq_ok, ofRecords_eq_ok, ← ordered.eq_recordNames,
    ← isNumber_denseRows ordered distinct]
  constructor
  · rintro ⟨width, rows, line, texts, shares, ids, ownGrid, labelsEq, lengths, numbers, textsEq,
      sharesEq, featuresEq, knownEq, idsEq, examplesEq⟩
    obtain ⟨rfl, rfl⟩ := (Grid.table.injEq ..).mp (Except.ok.inj (gridEq.symm.trans ownGrid))
    obtain rfl := Except.ok.inj ((featureNames_textSettings names).symm.trans textsEq)
    have namesEq := FeatureNames.names_ofNames.mp featuresEq
    rw [denseRows, List.length_map] at lengths sharesEq
    refine ⟨⟨.line line, line, shares, ids, labelsEq, by simp [Grid.shape, lengths], .inl rfl,
      sharesEq, namesEq, knownEq, idsEq, ?_⟩, numbers, line, labelsEq⟩
    rw [examplesEq, ← namesEq]
    exact examples_denseRows distinct (by rwa [namesEq]) ids shares
  · rintro ⟨⟨grid, line, shares, ids, labelsEq, counted, isLine, sharesEq, namesEq, knownEq, idsEq,
      examplesEq⟩, numbers, own, ownEq⟩
    obtain rfl := Except.ok.inj (labelsEq.symm.trans ownEq)
    have lengths : own.length = records.length := Option.some.inj counted
    obtain rfl : own = line := by
      rcases isLine with same | ⟨none, rfl⟩
      · exact (Grid.line.injEq ..).mp same
      · exact List.eq_nil_of_length_eq_zero (lengths.trans none)
    rw [examples_denseRows distinct (by rwa [namesEq])] at examplesEq
    rw [namesEq] at examplesEq
    refine ⟨_, _, own, names, shares, ids, gridEq, labelsEq, ?_, numbers,
      featureNames_textSettings names, ?_, FeatureNames.names_ofNames.mpr namesEq, knownEq, idsEq,
      (Except.ok.inj examplesEq).symm⟩
    · rw [denseRows, List.length_map, lengths]
    · rwa [denseRows, List.length_map]

end Records

/-- A record of numbers with its numbers as cells. -/
def Record.cells (record : Record Float) : Record Setting :=
  record.map (Prod.map id fun value => .atom (.float value))

/-- The two builders of datasets agree on records of numbers, with the names in ascending order as
columns: the table of the records gives a dataset exactly if the records give it, hold nothing but
numbers and have their labels in one line.  For records that are accepted although one of their
values is no number, or although there are none and the array of labels is empty, the table is
refused. -/
theorem builders_agree {records : List (Record Float)} {names : List String}
    (ordered : Names records names) (distinct : ∀ record ∈ records, (record.map Prod.fst).Nodup)
    (labels : Nested Label) (weights : Option (Nested Float)) (table : Option LabelTable)
    (dataset : Dataset Float) :
    ofTable (Nested.ofRows names.length (denseRows names records)) labels weights
        (some (textSettings names)) table = .ok dataset ↔
      ofRecords readSetting (records.map Record.cells) labels weights table = .ok dataset ∧
        (∀ record ∈ records, ∀ item ∈ record, Scalar.isNumber item.2 = true) ∧
        ∃ line, labels.grid = .ok (.line line) := by
  have reading : (readSetting ∘ fun value => .atom (.float value)) = readNumber :=
    funext readSetting_float
  have converted : ofRecords readSetting (records.map Record.cells) labels weights table =
      ofRecords readNumber records labels weights table := by
    rw [← reading]
    exact ofRecords_map records labels weights table
  rw [converted]
  exact ofTable_iff_ofRecords ordered distinct

/-- Two records, one of which leaves out a name and stores a zero: the table has both columns. -/
theorem builders_agree_sample :
    ∃ dataset,
      ofRecords readSetting
        ([[("b", 1.5), ("a", -0.0)], [("a", 2)]].map Record.cells)
        (.many [.one (.text "x"), .one (.text "y")]) none none = .ok dataset ∧
      ofTable (Nested.ofRows 2 [[-0.0, 1.5], [2, 0]])
        (.many [.one (.text "x"), .one (.text "y")]) none (some (textSettings ["a", "b"])) none =
          .ok dataset := by
  have passed : Outcome.passes (ofRecords readSetting
      ([[("b", 1.5), ("a", -0.0)], [("a", 2)]].map Record.cells)
      (.many [.one (.text "x"), .one (.text "y")]) none none) (fun _ => true) = true := by
    decide +kernel
  obtain ⟨dataset, accepted, -⟩ := Outcome.exists_of_passes passed
  have ordered : Names [[("b", (1.5 : Float)), ("a", -0.0)], [("a", 2)]] ["a", "b"] :=
    ⟨by decide, fun name => by simp [exists_or, or_comm]⟩
  exact ⟨dataset, accepted, (builders_agree ordered (by decide) _ _ _ _).mpr
    ⟨accepted, by decide +kernel, _, rfl⟩⟩

/-- A record with a value that is no number is accepted, and the table that it stands for is not. -/
theorem nan_only_in_records :
    (∃ dataset, ofRecords readSetting ([[("a", 0 / 0)]].map Record.cells)
      (.many [.one (.text "x")]) none none = .ok dataset) ∧
    Names [[("a", (0 / 0 : Float))]] ["a"] ∧
    denseRows ["a"] [[("a", 0 / 0)]] = [[0 / 0]] ∧
    ofTable (Nested.ofRows 1 [[(0 / 0 : Float)]]) (.many [.one (.text "x")]) none
      (some (textSettings ["a"])) none = .error .missingValue := by
  have passed : Outcome.passes (ofRecords readSetting ([[("a", 0 / 0)]].map Record.cells)
      (.many [.one (.text "x")]) none none) (fun _ => true) = true := by
    decide +kernel
  obtain ⟨dataset, accepted, -⟩ := Outcome.exists_of_passes passed
  exact ⟨⟨dataset, accepted⟩, ⟨by decide, fun name => by simp⟩, rfl, rfl⟩

end Dataset

end DecisionTree
