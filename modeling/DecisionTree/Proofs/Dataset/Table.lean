import DecisionTree.Proofs.Dataset.Inversion
import Mathlib.Data.List.GetD

/-!
# Datasets that come from a table

`Dataset.FromRows` says what is known of a dataset that was built from the rows of a table:
all rows have one value for each feature, all values are numbers, and every example has a
known label and a weight that is not negative.  Every accepted table gives such a dataset
(`fromRows_of_ofTable`), and its columns describe the rows (`FromRows.describes`).
-/

namespace DecisionTree

variable {β γ : Type}

namespace Grid

/-- The rows of a stacked table have its width. -/
theorem length_of_stack {parts : List (Grid β)} {width : Nat} {rows : List (List β)}
    (stacked : stack parts = .ok (.table width rows)) : ∀ row ∈ rows, row.length = width := by
  unfold stack at stacked
  split at stacked
  · cases stacked
  next first others =>
    split at stacked
    · cases stacked
    next sameShape =>
      simp only [Bool.not_eq_true, List.any_eq_false, decide_eq_true_eq, ne_eq,
        Decidable.not_not] at sameShape
      split at stacked
      · cases stacked
      next values =>
        obtain ⟨rfl, rfl⟩ := (Grid.table.injEq ..).mp (Except.ok.inj stacked)
        intro row member
        obtain ⟨part, partMember, isLine⟩ := List.mem_filterMap.mp member
        have shape := sameShape part partMember
        split at isLine
        next own =>
          obtain rfl := Option.some.inj isLine
          simpa [Grid.shape] using shape
        next => contradiction
      · cases stacked

theorem stack_points (values : List β) : stack (values.map point) = .ok (line values) := by
  cases values with
  | nil => rfl
  | cons first rest => simp [stack, shape, List.filterMap_map, Function.comp_def]

/-- Lines of one length stack to a table. -/
theorem stack_lines {width : Nat} {rows : List (List β)} (nonempty : rows ≠ [])
    (lengths : ∀ row ∈ rows, row.length = width) :
    stack (rows.map line) = .ok (table width rows) := by
  cases rows with
  | nil => contradiction
  | cons first rest =>
      have own := lengths first List.mem_cons_self
      have others : ∀ row ∈ rest, row.length = first.length := fun row member =>
        (lengths row (List.mem_cons_of_mem _ member)).trans own.symm
      simpa [stack, shape, List.filterMap_map, Function.comp_def, own] using others

end Grid

namespace Nested

/-- All rows of a table have the table's width. -/
theorem length_of_grid {values : Nested β} {width : Nat} {rows : List (List β)}
    (table : values.grid = .ok (.table width rows)) : ∀ row ∈ rows, row.length = width := by
  cases values with
  | one value =>
      rw [Nested.grid] at table
      cases table
  | noRows count =>
      rw [Nested.grid] at table
      obtain ⟨-, rfl⟩ := (Grid.table.injEq ..).mp (Except.ok.inj table)
      intro row member
      cases member
  | many items =>
      rw [Nested.grid] at table
      obtain ⟨parts, -, stacked⟩ := Outcome.bind_eq_ok.mp table
      exact Grid.length_of_stack stacked

/-- Rows of one length as nested lists. -/
def ofRows (width : Nat) (rows : List (List β)) : Nested β :=
  if rows.isEmpty then .noRows width else .many (rows.map fun row => .many (row.map .one))

theorem grids_map {values : List γ} {spell : γ → Nested β} {array : γ → Grid β}
    (each : ∀ value ∈ values, (spell value).grid = .ok (array value)) :
    grids (values.map spell) = .ok (values.map array) := by
  induction values with
  | nil => rfl
  | cons first rest ih =>
      rw [List.map_cons, grids, each first List.mem_cons_self,
        ih fun value member => each value (List.mem_cons_of_mem _ member)]
      rfl

theorem grid_ofRows {width : Nat} {rows : List (List β)}
    (lengths : ∀ row ∈ rows, row.length = width) :
    (ofRows width rows).grid = .ok (.table width rows) := by
  have line (row : List β) : (many (row.map one)).grid = .ok (.line row) := by
    rw [grid, grids_map fun value _ => rfl]
    exact Grid.stack_points row
  rw [ofRows]
  split
  next none => rw [List.isEmpty_iff.mp none, grid]
  next some =>
    rw [grid, grids_map fun row _ => line row]
    exact Grid.stack_lines (by simpa using some) lengths

end Nested

variable {α : Type} [Scalar α]

namespace Dataset

/-- Each row of a table is an example of a dataset, in order. -/
structure FromRows (dataset : Dataset α) (rows : List (List α)) : Prop where
  length_row : ∀ row ∈ rows, row.length = dataset.features.size
  isNumber : ∀ row ∈ rows, ∀ value ∈ row, Scalar.isNumber value = true
  examples_eq : ∃ (labels : List Nat) (weights : List α),
    labels.length = rows.length ∧ weights.length = rows.length ∧
      (∀ label ∈ labels, label < dataset.labels.size) ∧
      dataset.examples = examplesOfRows rows labels weights
  weight_eq_or : ∀ e ∈ dataset.examples, e.weight = Scalar.ofNat 1 ∨ Scalar.lt e.weight 0 = false

/-- Accepted weights are one each if none are given, and otherwise a line of as many as asked for,
of which none is negative. -/
theorem weights_cases {given : Option (Nested α)} {count : Nat} {weights : List α}
    (accepted : Dataset.weights given count = .ok weights) :
    (given = none ∧ weights = List.replicate count (Scalar.ofNat 1)) ∨
      ∃ nested, given = some nested ∧ nested.grid = .ok (.line weights) ∧
        weights.length = count ∧ ∀ weight ∈ weights, Scalar.lt weight 0 = false := by
  cases given with
  | none => exact .inl ⟨rfl, (Except.ok.inj accepted).symm⟩
  | some nested =>
      obtain ⟨grid, gridEq, accepted⟩ := Outcome.bind_eq_ok.mp accepted
      cases grid with
      | point | table | block => cases accepted
      | line values =>
          dsimp only at accepted
          split at accepted
          · cases accepted
          next sameCount =>
          split at accepted
          · cases accepted
          next noneNegative =>
          obtain rfl := Except.ok.inj accepted
          refine .inr ⟨nested, rfl, gridEq, Decidable.not_not.mp sameCount, fun weight member => ?_⟩
          exact Bool.eq_false_iff.mpr fun negative =>
            noneNegative (List.any_eq_true.mpr ⟨weight, member, negative⟩)

/-- Accepted weights are as many as asked for, and not negative. -/
theorem of_weights {given : Option (Nested α)} {count : Nat} {weights : List α}
    (accepted : Dataset.weights given count = .ok weights) :
    weights.length = count ∧
      ∀ weight ∈ weights, weight = Scalar.ofNat 1 ∨ Scalar.lt weight 0 = false := by
  rcases weights_cases accepted with ⟨-, rfl⟩ | ⟨nested, -, -, length, bounds⟩
  · exact ⟨List.length_replicate, fun weight member => .inl (List.eq_of_mem_replicate member)⟩
  · exact ⟨length, fun weight member => .inr (bounds weight member)⟩

theorem length_featureNames {width : Nat} {given : Option Setting} {names : List String}
    (accepted : ofTable.featureNames width given = .ok names) : names.length = width := by
  unfold ofTable.featureNames at accepted
  split at accepted
  · obtain rfl := Except.ok.inj accepted
    simp [FeatureNames.standard]
  · split at accepted
    · contradiction
    next items _ =>
      split at accepted
      · contradiction
      next same =>
        obtain rfl := Except.ok.inj accepted
        rw [List.length_map]
        exact Decidable.not_not.mp same

end Dataset

theorem Atom.length_uniform (labels : List Label) :
    (Atom.uniform labels).length = labels.length :=
  List.length_map _

/-- Names that are accepted are taken as they come. -/
theorem FeatureNames.names_ofNames {texts : List String} {features : FeatureNames} :
    FeatureNames.ofNames texts = .ok features ↔ features.names = texts := by
  obtain ⟨names, nodup⟩ := features
  unfold ofNames
  split
  next distinct => simp [eq_comm]
  next repeated =>
    simp only [reduceCtorEq, false_iff]
    rintro rfl
    exact repeated nodup

theorem LabelTable.of_idsOf {table : LabelTable} {labels : List Label} {ids : List Nat}
    (found : table.idsOf labels = .ok ids) :
    ids.length = labels.length ∧ ∀ id ∈ ids, id < table.size := by
  have each := Outcome.mapM_eq_ok.mp found
  refine ⟨each.length_eq.symm, fun id member => ?_⟩
  obtain ⟨place, inside, rfl⟩ := List.getElem_of_mem member
  have known := each.get (by rw [each.length_eq]; exact inside) inside
  split at known
  next found =>
    obtain rfl := Except.ok.inj known
    exact (List.findIdx?_eq_some_iff_getElem.mp found).1
  next => contradiction

/-- The id of a label is the place of an equal one in the table. -/
theorem LabelTable.equal_of_idsOf {table : LabelTable} {labels : List Label} {ids : List Nat}
    (found : table.idsOf labels = .ok ids) {place id : Nat} {label : Label}
    (isLabel : labels[place]? = some label) (isId : ids[place]? = some id) :
    ∃ known, table.labels[id]? = some known ∧ known.equal label = true := by
  have each := Outcome.mapM_eq_ok.mp found
  obtain ⟨inside, rfl⟩ := List.getElem?_eq_some_iff.mp isLabel
  obtain ⟨idInside, rfl⟩ := List.getElem?_eq_some_iff.mp isId
  have known := each.get inside idInside
  split at known
  next foundAt =>
    obtain rfl := Except.ok.inj known
    obtain ⟨isPlace, same, -⟩ := List.findIdx?_eq_some_iff_getElem.mp foundAt
    exact ⟨_, List.getElem?_eq_getElem isPlace, same⟩
  next => contradiction

namespace Dataset

/-- What it takes for a table to be accepted, and what it gives. -/
theorem ofTable_eq_ok {values : Nested α} {labels : Nested Label} {weights : Option (Nested α)}
    {names : Option Setting} {table : Option LabelTable} {dataset : Dataset α} :
    ofTable values labels weights names table = .ok dataset ↔
      ∃ (width : Nat) (rows : List (List α)) (line : List Label) (texts : List String)
        (shares : List α) (ids : List Nat),
        values.grid = .ok (.table width rows) ∧ labels.grid = .ok (.line line) ∧
        line.length = rows.length ∧ (∀ row ∈ rows, ∀ value ∈ row, Scalar.isNumber value = true) ∧
        ofTable.featureNames width names = .ok texts ∧
        Dataset.weights weights rows.length = .ok shares ∧
        FeatureNames.ofNames texts = .ok dataset.features ∧
        table.elim (LabelTable.ofOccurrences line) .ok = .ok dataset.labels ∧
        dataset.labels.idsOf (Atom.uniform line) = .ok ids ∧
        dataset.examples = examplesOfRows rows ids shares := by
  constructor
  · intro accepted
    obtain ⟨grid, gridEq, accepted⟩ := Outcome.bind_eq_ok.mp accepted
    obtain ⟨labelGrid, labelsEq, accepted⟩ := Outcome.bind_eq_ok.mp accepted
    cases grid with
    | point value => cases accepted
    | line values => cases accepted
    | block shape values => cases accepted
    | table width rows =>
        cases labelGrid with
        | point value => cases accepted
        | table width rows => cases accepted
        | block shape values => cases accepted
        | line line =>
            dsimp only at accepted
            split at accepted
            · cases accepted
            next lengths =>
            split at accepted
            · cases accepted
            next missing =>
            obtain ⟨texts, textsEq, accepted⟩ := Outcome.bind_eq_ok.mp accepted
            obtain ⟨shares, sharesEq, accepted⟩ := Outcome.bind_eq_ok.mp accepted
            obtain ⟨features, featuresEq, accepted⟩ := Outcome.bind_eq_ok.mp accepted
            obtain ⟨known, knownEq, accepted⟩ := Outcome.bind_eq_ok.mp accepted
            obtain ⟨ids, idsEq, accepted⟩ := Outcome.bind_eq_ok.mp accepted
            obtain rfl := Except.ok.inj accepted
            refine ⟨width, rows, line, texts, shares, ids, gridEq, labelsEq,
              Decidable.not_not.mp lengths, fun row member value valueMember => ?_, textsEq,
              sharesEq, featuresEq, knownEq, idsEq, rfl⟩
            simp only [Bool.not_eq_true, List.any_eq_false, Bool.not_eq_true'] at missing
            exact eq_true_of_ne_false (missing row member value valueMember)
  · rintro ⟨width, rows, line, texts, shares, ids, gridEq, labelsEq, lengths, numbers, textsEq,
      sharesEq, featuresEq, knownEq, idsEq, examplesEq⟩
    obtain ⟨features, known, examples⟩ := dataset
    obtain rfl : examples = examplesOfRows rows ids shares := examplesEq
    have complete : (rows.any fun row => row.any fun value => !Scalar.isNumber value) = false := by
      refine List.any_eq_false.mpr fun row member => ?_
      rw [List.any_eq_true]
      rintro ⟨value, valueMember, missing⟩
      rw [numbers row member value valueMember] at missing
      cases missing
    refine Outcome.bind_eq_ok.mpr ⟨_, gridEq, Outcome.bind_eq_ok.mpr ⟨_, labelsEq, ?_⟩⟩
    dsimp only
    rw [if_neg (not_not.mpr lengths), complete]
    exact Outcome.bind_eq_ok.mpr ⟨_, textsEq, Outcome.bind_eq_ok.mpr ⟨_, sharesEq,
      Outcome.bind_eq_ok.mpr ⟨_, featuresEq, Outcome.bind_eq_ok.mpr ⟨_, knownEq,
        Outcome.bind_eq_ok.mpr ⟨_, idsEq, rfl⟩⟩⟩⟩⟩

theorem size_ofNames {texts : List String} {features : FeatureNames}
    (made : FeatureNames.ofNames texts = .ok features) : features.size = texts.length := by
  rw [FeatureNames.size, FeatureNames.names_ofNames.mp made]

/-- A table has one feature for each of its columns. -/
theorem size_features_of_ofTable {values : Nested α} {labels : Nested Label}
    {weights : Option (Nested α)} {names : Option Setting} {table : Option LabelTable}
    {dataset : Dataset α} (accepted : ofTable values labels weights names table = .ok dataset)
    {width : Nat} {rows : List (List α)} (grid : values.grid = .ok (.table width rows)) :
    dataset.features.size = width := by
  obtain ⟨_, _, _, _, _, _, gridEq, -, -, -, textsEq, -, featuresEq, -⟩ :=
    ofTable_eq_ok.mp accepted
  obtain ⟨rfl, -⟩ := (Grid.table.injEq ..).mp (Except.ok.inj (grid.symm.trans gridEq))
  rw [size_ofNames featuresEq, length_featureNames textsEq]

/-- An accepted table gives a dataset whose examples are the rows of the table. -/
theorem fromRows_of_ofTable {values : Nested α} {labels : Nested Label}
    {weights : Option (Nested α)} {names : Option Setting} {table : Option LabelTable}
    {dataset : Dataset α} (accepted : ofTable values labels weights names table = .ok dataset) :
    ∃ (width : Nat) (rows : List (List α)),
      values.grid = .ok (.table width rows) ∧ dataset.FromRows rows := by
  obtain ⟨width, rows, line, texts, shares, ids, gridEq, -, lengths, numbers, -, sharesEq, -, -,
    idsEq, examplesEq⟩ := ofTable_eq_ok.mp accepted
  obtain ⟨idCount, idBounds⟩ := LabelTable.of_idsOf idsEq
  obtain ⟨shareCount, shareBounds⟩ := of_weights sharesEq
  refine ⟨width, rows, gridEq, fun row member => ?_, numbers,
    ⟨ids, shares, ?_, shareCount, idBounds, examplesEq⟩, ?_⟩
  · rw [Nested.length_of_grid gridEq row member, size_features_of_ofTable accepted gridEq]
  · rw [idCount, Atom.length_uniform, lengths]
  · intro e member
    rw [examplesEq] at member
    obtain ⟨⟨row, id, weight⟩, zipped, rfl⟩ := List.mem_map.mp member
    exact shareBounds weight (List.of_mem_zip (List.of_mem_zip zipped).2).2

theorem fromRows_of_grid {values : Nested α} {labels : Nested Label} {weights : Option (Nested α)}
    {names : Option Setting} {table : Option LabelTable} {dataset : Dataset α}
    (accepted : ofTable values labels weights names table = .ok dataset) {width : Nat}
    {rows : List (List α)} (grid : values.grid = .ok (.table width rows)) :
    dataset.FromRows rows := by
  obtain ⟨_, _, sameGrid, fromRows⟩ := fromRows_of_ofTable accepted
  obtain ⟨-, rfl⟩ := (Grid.table.injEq ..).mp (Except.ok.inj (grid.symm.trans sameGrid))
  exact fromRows

/-- A label table that is given is kept. -/
theorem labels_of_ofTable {values : Nested α} {labels : Nested Label} {weights : Option (Nested α)}
    {names : Option Setting} {table : LabelTable} {dataset : Dataset α}
    (accepted : ofTable values labels weights names (some table) = .ok dataset) :
    dataset.labels = table := by
  obtain ⟨_, _, _, _, _, _, -, -, -, -, -, -, -, knownEq, -⟩ := ofTable_eq_ok.mp accepted
  exact (Except.ok.inj knownEq).symm

/-- The label id of an example. -/
def labelAt (dataset : Dataset α) (index : Int) : Nat :=
  ((dataset.examples[index.toNat]?.map Example.label).getD 0).toNat

/-- The weight of an example. -/
def weightAt (dataset : Dataset α) (index : Int) : α :=
  (dataset.examples[index.toNat]?.map Example.weight).getD 0

theorem labelled_eq (dataset : Dataset α) (index : Int) :
    dataset.targets.labelled index = (dataset.labelAt index, dataset.weightAt index) := by
  simp [Targets.labelled, targets, labelAt, weightAt, Array.getD_eq_getD_getElem?]

theorem getElem?_examplesOfRows {rows : List (List α)} {ids : List Nat} {weights : List α}
    {place id : Nat} {row : List α} {weight : α} (isRow : rows[place]? = some row)
    (isId : ids[place]? = some id) (isWeight : weights[place]? = some weight) :
    (examplesOfRows rows ids weights)[place]? = some (exampleOfRow row id weight) := by
  have zipped : (rows.zip (ids.zip weights))[place]? = some (row, id, weight) := by
    rw [List.getElem?_zip_eq_some, List.getElem?_zip_eq_some]
    exact ⟨isRow, isId, isWeight⟩
  rw [examplesOfRows, List.getElem?_map, zipped]
  rfl

/-- The weight given for a row; one if no weights are given. -/
def IsWeight (given : Option (Nested α)) (row : Nat) (weight : α) : Prop :=
  (given = none ∧ weight = Scalar.ofNat 1) ∨
    ∃ nested values, given = some nested ∧ nested.grid = .ok (.line values) ∧
      values[row]? = some weight

/-- The examples of an accepted table have the weights that are given for the rows, and the ids of
the labels that are given for them, as these are in an array. -/
theorem labelled_of_ofTable {values : Nested α} {labels : Nested Label}
    {weights : Option (Nested α)} {names : Option Setting} {table : Option LabelTable}
    {dataset : Dataset α} (accepted : ofTable values labels weights names table = .ok dataset) :
    ∃ line, labels.grid = .ok (.line line) ∧ line.length = dataset.size ∧
      ∀ row < dataset.size, IsWeight weights row (dataset.weightAt row) ∧
        ∀ label, (Atom.uniform line)[row]? = some label →
          ∃ known, dataset.labels.labels[dataset.labelAt row]? = some known ∧
            known.equal label = true := by
  obtain ⟨width, rows, line, texts, shares, ids, -, isLine, lengths, -, -, sharesEq, -, -, idsEq,
    examplesEq⟩ := ofTable_eq_ok.mp accepted
  have idCount := (LabelTable.of_idsOf idsEq).1
  rw [Atom.length_uniform, lengths] at idCount
  have shareCount := (of_weights sharesEq).1
  have size : dataset.size = rows.length := by
    simp [Dataset.size, examplesEq, examplesOfRows, idCount, shareCount]
  refine ⟨line, isLine, lengths.trans size.symm, fun row inside => ?_⟩
  rw [size] at inside
  have isShare := List.getElem?_eq_getElem (shareCount.symm ▸ inside : row < shares.length)
  have isId := List.getElem?_eq_getElem (idCount.symm ▸ inside : row < ids.length)
  have isExample := getElem?_examplesOfRows (List.getElem?_eq_getElem inside) isId isShare
  rw [← examplesEq] at isExample
  have weightEq : dataset.weightAt row = shares[row] := by
    rw [weightAt, Int.toNat_natCast, isExample]
    rfl
  have labelEq : dataset.labelAt row = ids[row] := by
    rw [labelAt, Int.toNat_natCast, isExample]
    rfl
  rw [weightEq, labelEq]
  refine ⟨?_, fun label isLabel => LabelTable.equal_of_idsOf idsEq isLabel isId⟩
  rcases weights_cases sharesEq with ⟨none, rfl⟩ | ⟨nested, isGiven, isLine, -⟩
  · exact .inl ⟨none, List.getElem_replicate _⟩
  · exact .inr ⟨nested, shares, isGiven, isLine, isShare⟩

/-- What does not depend on its row is the same of an example for another row. -/
theorem map_examplesOfRows {β : Type} {read : Example α → β}
    (same : ∀ row other label weight,
      read (exampleOfRow other label weight) = read (exampleOfRow row label weight))
    {rows others : List (List α)} (length : others.length = rows.length) (ids : List Nat)
    (weights : List α) :
    (examplesOfRows others ids weights).map read = (examplesOfRows rows ids weights).map read := by
  apply List.ext_getElem
  · simp only [examplesOfRows, List.length_map, List.length_zip, length]
  · intro place inside otherInside
    simp only [examplesOfRows, List.getElem_map, List.getElem_zip]
    exact same _ _ _ _

/-- Whether a table is accepted does not depend on its numbers, nor do the labels and the weights
of its examples. -/
theorem exists_ofTable {values others : Nested α} {labels : Nested Label}
    {weights : Option (Nested α)} {names : Option Setting} {table : Option LabelTable}
    {dataset : Dataset α} {width : Nat} {rows otherRows : List (List α)}
    (accepted : ofTable values labels weights names table = .ok dataset)
    (grid : values.grid = .ok (.table width rows))
    (otherGrid : others.grid = .ok (.table width otherRows))
    (length : otherRows.length = rows.length)
    (numbers : ∀ row ∈ otherRows, ∀ value ∈ row, Scalar.isNumber value = true) :
    ∃ other, ofTable others labels weights names table = .ok other ∧ other.FromRows otherRows ∧
      other.features = dataset.features ∧ other.labels = dataset.labels ∧
      other.size = dataset.size ∧ ∀ index,
        other.labelAt index = dataset.labelAt index ∧
          other.weightAt index = dataset.weightAt index := by
  obtain ⟨_, _, line, texts, shares, ids, gridEq, labelsEq, lengths, -, textsEq, sharesEq,
    featuresEq, knownEq, idsEq, examplesEq⟩ := ofTable_eq_ok.mp accepted
  obtain ⟨rfl, rfl⟩ := (Grid.table.injEq ..).mp (Except.ok.inj (grid.symm.trans gridEq))
  have otherAccepted : ofTable others labels weights names table =
      .ok { dataset with examples := examplesOfRows otherRows ids shares } :=
    ofTable_eq_ok.mpr ⟨_, _, line, texts, shares, ids, otherGrid, labelsEq,
      lengths.trans length.symm, numbers, textsEq, by rw [length]; exact sharesEq, featuresEq,
      knownEq, idsEq, rfl⟩
  refine ⟨_, otherAccepted, fromRows_of_grid otherAccepted otherGrid, rfl, rfl, ?_,
    fun index => ⟨?_, ?_⟩⟩
  · simp only [size, examplesEq, examplesOfRows, List.length_map, List.length_zip, length]
  · simp only [labelAt, ← List.getElem?_map]
    rw [examplesEq, map_examplesOfRows (fun _ _ _ _ => rfl) length]
  · simp only [weightAt, ← List.getElem?_map]
    rw [examplesEq, map_examplesOfRows (fun _ _ _ _ => rfl) length]

/-- The value of a feature in a row of a table. -/
def cell (rows : List (List α)) (feature : Nat) (index : Int) : α :=
  (rows.getD index.toNat []).getD feature 0

namespace FromRows

variable {dataset : Dataset α} {rows : List (List α)}

theorem size_eq (fromRows : dataset.FromRows rows) : dataset.size = rows.length := by
  obtain ⟨labels, weights, labelsLength, weightsLength, -, examplesEq⟩ := fromRows.examples_eq
  simp [size, examplesEq, examplesOfRows, labelsLength, weightsLength]

/-- What an example comes from. -/
theorem exists_row (fromRows : dataset.FromRows rows) {e : Example α}
    (isExample : e ∈ dataset.examples) :
    ∃ row ∈ rows, ∃ (label : Nat) (weight : α), label < dataset.labels.size ∧
      e = exampleOfRow row label weight := by
  obtain ⟨labels, weights, -, -, bounded, examplesEq⟩ := fromRows.examples_eq
  rw [examplesEq] at isExample
  obtain ⟨⟨row, label, weight⟩, zipped, rfl⟩ := List.mem_map.mp isExample
  obtain ⟨isRow, pair⟩ := List.of_mem_zip zipped
  exact ⟨row, isRow, label, weight, bounded label (List.of_mem_zip pair).1, rfl⟩

theorem labelled (fromRows : dataset.FromRows rows) : dataset.Labelled := by
  intro e isExample
  obtain ⟨row, -, label, weight, bounded, rfl⟩ := fromRows.exists_row isExample
  simp only [exampleOfRow]
  omega

/-- Labels and weights of all examples are known. -/
theorem known (fromRows : dataset.FromRows rows) : dataset.targets.Known dataset.size :=
  fromRows.labelled.known

/-- The histogram of a dataset is the tally of all its examples. -/
theorem labelCounts_eq (fromRows : dataset.FromRows rows) :
    dataset.labelCounts = .ok (dataset.targets.tally dataset.indices) :=
  fromRows.labelled.labelCounts_eq

/-- Examples have labels. -/
theorem labels_ne_nil (fromRows : dataset.FromRows rows) (nonempty : dataset.examples ≠ []) :
    dataset.labels.labels ≠ [] := by
  obtain ⟨first, rest, whole⟩ := List.exists_cons_of_ne_nil nonempty
  have bounds := fromRows.known.label_lt first.label (by simp [targets, whole])
  simp only [targets, LabelTable.size] at bounds
  apply List.ne_nil_of_length_pos
  omega

/-- The examples store the cells of the table, with positive zeros. -/
theorem valueAt_eq (fromRows : dataset.FromRows rows) (feature : Nat) :
    dataset.valueAt feature = fun index => clearZero (cell rows feature index) := by
  funext index
  obtain ⟨labels, weights, labelsLength, weightsLength, -, examplesEq⟩ := fromRows.examples_eq
  rw [valueAt, cell, examplesEq]
  by_cases isRow : index.toNat < rows.length
  · rw [getElem?_examplesOfRows (List.getElem?_eq_getElem isRow)
      (List.getElem?_eq_getElem (labelsLength ▸ isRow))
      (List.getElem?_eq_getElem (weightsLength ▸ isRow)), List.getD_eq_getElem rows [] isRow]
    exact valueAt_exampleOfRow feature
  · have outside : (examplesOfRows rows labels weights)[index.toNat]? = none := by
      apply List.getElem?_eq_none
      rw [examplesOfRows, List.length_map, List.length_zip]
      omega
    rw [outside, List.getD_eq_default rows [] (Nat.le_of_not_lt isRow), List.getD_nil, clearZero,
      ite_self]
    rfl

variable [Scalar.Ordered α]

theorem isNumber_clearZero {value : α} (number : Scalar.isNumber value = true) :
    Scalar.isNumber (clearZero value) = true := by
  unfold clearZero
  split
  next zero => exact (Scalar.Ordered.eq_iff.mp zero).2.1
  next => exact number

omit [Scalar.Ordered α] in
/-- Zeros are equal, so nothing that compares values can tell them apart. -/
theorem eq_clearZero {value : α} (number : Scalar.isNumber value = true) :
    Scalar.eq value (clearZero value) = true := by
  unfold clearZero
  split
  · assumption
  · exact number

omit [Scalar.Ordered α] in
theorem isNumber_cell (fromRows : dataset.FromRows rows) {feature : Nat} {index : Int}
    (isFeature : feature < dataset.features.size) (member : index ∈ dataset.indices) :
    Scalar.isNumber (cell rows feature index) = true := by
  have bounds := mem_indices.mp member
  rw [fromRows.size_eq] at bounds
  have isRow : index.toNat < rows.length := by omega
  have rowMember := List.getElem_mem isRow
  have isCell : feature < rows[index.toNat].length := by
    rw [fromRows.length_row _ rowMember]
    exact isFeature
  have number := fromRows.isNumber _ rowMember _ (List.getElem_mem isCell)
  simpa [cell, isRow, isCell] using number

/-- A dataset that comes from a table is invertible. -/
theorem invertible (fromRows : dataset.FromRows rows) : dataset.Invertible where
  fits := by
    intro e isExample
    obtain ⟨row, isRow, label, weight, -, rfl⟩ := fromRows.exists_row isExample
    rw [← fromRows.length_row row isRow]
    exact fits_exampleOfRow
  labelled := fromRows.labelled
  isNumber := by
    intro feature isFeature index member
    rw [fromRows.valueAt_eq]
    exact isNumber_clearZero (fromRows.isNumber_cell isFeature member)

/-- The columns of a dataset describe the rows of its table. -/
theorem describes (fromRows : dataset.FromRows rows) {columns : List (Column α)}
    (turned : dataset.columns = .ok columns) :
    columns.length = dataset.features.size ∧
      ∀ (feature : Nat) (column : Column α), columns[feature]? = some column →
        column.feature = feature ∧
          column.Describes dataset.targets (fun index => clearZero (cell rows feature index))
            dataset.indices := by
  obtain ⟨length, describes⟩ := fromRows.invertible.describes turned
  refine ⟨length, fun feature column found => ?_⟩
  rw [← fromRows.valueAt_eq]
  exact describes feature column found

/-- A table that is not too wide can be turned on its side. -/
theorem exists_columns (fromRows : dataset.FromRows rows)
    (narrow : dataset.features.size ≤ 2 ^ 63) : ∃ columns, dataset.columns = .ok columns := by
  refine fromRows.invertible.exists_columns fun e isExample id member => ?_
  have := (fromRows.invertible.fits e isExample).inside id member
  omega

end FromRows

end Dataset

end DecisionTree
