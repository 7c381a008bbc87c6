import Mathlib.Data.List.Sort
import Mathlib.Order.Monotone.Basic
import DecisionTree.Proofs.Growth.Exact
import DecisionTree.Proofs.Growth.Tandem

/-!
# Examples of the same kinds

Two datasets are compared by the kinds of their examples.  The kind of an example tells its label
and its values, which a strictly increasing function of each feature moves to those of the other
dataset (`Dataset.Kinds`).  Some examples of the one dataset and some of the other one balance if
the same kinds occur among them with the same total weights (`Balanced`).  In exact arithmetic they
have then the same histogram, and their columns run in parallel (`Balanced.column_parallel`): the
same number of values with the same histograms, where the values at the same place correspond
(`Balanced.value_eq`).
-/

namespace DecisionTree

variable {K : Type} [Field K] [LinearOrder K]

/-- In exact arithmetic there is one zero only. -/
theorem Dataset.clearZero_eq (value : K) : Dataset.clearZero value = value := by
  unfold clearZero
  split
  next zero => exact (Exact.eq_iff.mp zero).symm
  next => rfl

/-- Two values that follow each other among the values of some examples. -/
structure Consecutive (value : Int → K) (ids : List Int) (lower upper : K) : Prop where
  less : lower < upper
  lower_mem : ∃ index ∈ ids, value index = lower
  upper_mem : ∃ index ∈ ids, value index = upper
  beside : ∀ index ∈ ids, value index ≤ lower ∨ upper ≤ value index

namespace Consecutive

variable {value : Int → K} {ids : List Int} {lower upper threshold : K}

/-- Up to a threshold that separates two consecutive values there are the values up to the lower
one. -/
theorem le_iff (consecutive : Consecutive value ids lower upper)
    (separates : Scalar.Separates lower threshold upper) {index : Int} (isId : index ∈ ids) :
    value index ≤ threshold ↔ value index ≤ lower := by
  obtain ⟨above, below⟩ := separates
  have above := Exact.lt_iff.mp above
  have below := Exact.lt_iff.mp below
  rcases consecutive.beside index isId with atMost | atLeast
  · exact iff_of_true (atMost.trans above.le) atMost
  · have greater := below.trans_le atLeast
    exact iff_of_false (not_le.mpr greater) (not_le.mpr (above.trans greater))

/-- The examples that go to the left at a threshold that separates two consecutive values are those
with at most the lower one. -/
theorem goesLeft_eq (consecutive : Consecutive value ids lower upper)
    (separates : Scalar.Separates lower threshold upper) {index : Int} (isId : index ∈ ids) :
    Growth.goesLeft threshold value index = decide (value index ≤ lower) := by
  have differs : threshold ≠ value index := by
    rintro rfl
    rcases consecutive.beside index isId with atMost | atLeast
    · exact lt_irrefl _ ((Exact.lt_iff.mp separates.1).trans_le atMost)
    · exact lt_irrefl _ ((Exact.lt_iff.mp separates.2).trans_le atLeast)
  have sides := consecutive.le_iff separates isId
  rw [Growth.goesLeft, Bool.eq_iff_iff, Bool.not_eq_true', Bool.eq_false_iff, ne_eq, Exact.le_iff,
    decide_eq_true_eq, ← sides, not_le]
  exact ⟨le_of_lt, fun atMost => lt_of_le_of_ne atMost differs.symm⟩

end Consecutive

namespace Column.Describes

variable {targets : Targets K} {value : Int → K} {ids : List Int} {column : Column K}

/-- The values of a column ascend. -/
theorem pairwise_values (describes : column.Describes targets value ids) :
    (column.entries.map Entry.value).Pairwise (· < ·) := by
  rw [List.pairwise_map]
  exact describes.ascending.imp Exact.lt_iff.mp

theorem value_eq (describes : column.Describes targets value ids) {entry : Entry K}
    (member : entry ∈ column.entries) {index : Int} (held : index ∈ entry.indices) :
    value index = entry.value :=
  Exact.eq_iff.mp (describes.valued entry member index held)

/-- The values of a column are those of its examples. -/
theorem mem_values (describes : column.Describes targets value ids) {number : K} :
    number ∈ column.entries.map Entry.value ↔ ∃ index ∈ ids, value index = number := by
  rw [List.mem_map]
  constructor
  · rintro ⟨entry, member, rfl⟩
    obtain ⟨index, held⟩ :=
      List.exists_mem_of_ne_nil _ (describes.settled entry member).nonempty
    exact ⟨index, describes.mem_iff.mp ⟨entry, member, held⟩, describes.value_eq member held⟩
  · rintro ⟨index, isId, rfl⟩
    obtain ⟨entry, member, held⟩ := describes.mem_iff.mpr isId
    exact ⟨entry, member, (describes.value_eq member held).symm⟩

/-- An entry holds the examples that have its value. -/
theorem indices_perm (describes : column.Describes targets value ids) (distinct : ids.Nodup)
    {entry : Entry K} (member : entry ∈ column.entries) :
    entry.indices.Perm (ids.filter fun index => decide (value index = entry.value)) := by
  have sorted := (describes.settled entry member).sorted
  refine (List.perm_ext_iff_of_nodup (sorted.imp Int.ne_of_lt) (distinct.filter _)).mpr
    fun index => ?_
  rw [List.mem_filter, decide_eq_true_eq]
  constructor
  · intro held
    exact ⟨describes.mem_iff.mp ⟨entry, member, held⟩, describes.value_eq member held⟩
  · rintro ⟨isId, valueEq⟩
    obtain ⟨other, otherMember, held⟩ := describes.mem_iff.mpr isId
    have same : other.value = entry.value :=
      (describes.value_eq otherMember held).symm.trans valueEq
    have injective := List.inj_on_of_nodup_map (describes.pairwise_values.imp ne_of_lt)
    rwa [← injective otherMember member same]

/-- The values beside a boundary are consecutive. -/
theorem consecutive (describes : column.Describes targets value ids) {place : Nat}
    {lower upper : Entry K} (lowerEq : column.entries[place]? = some lower)
    (upperEq : column.entries[place + 1]? = some upper) :
    Consecutive value ids lower.value upper.value where
  less := Exact.lt_iff.mp (describes.lt_of_place_lt lowerEq upperEq (Nat.lt_succ_self place))
  lower_mem := describes.mem_values.mp (List.mem_map_of_mem (List.mem_of_getElem? lowerEq))
  upper_mem := describes.mem_values.mp (List.mem_map_of_mem (List.mem_of_getElem? upperEq))
  beside := by
    intro index isId
    rcases List.mem_append.mp ((describes.perm_sides place).mem_iff.mpr isId) with before | after
    · refine .inl (not_lt.mp fun greater => ?_)
      exact lt_irrefl _ (Exact.lt_iff.mp
        (describes.lt_of_mem_idsUpTo lowerEq (Exact.lt_iff.mpr greater) before))
    · refine .inr (not_lt.mp fun less => ?_)
      exact lt_irrefl _ (Exact.lt_iff.mp
        (describes.lt_of_mem_idsAfter upperEq (Exact.lt_iff.mpr less) after))

end Column.Describes

/-- The kinds of the examples of two datasets.  A kind tells the label and the values of its
examples; in the other dataset the values are moved by an increasing function of each feature. -/
structure Dataset.Kinds (κ : Type) (dataset other : Dataset K) (rows others : List (List K)) where
  kind : Int → κ
  twin : Int → κ
  value : Nat → κ → K
  label : κ → Nat
  move : Nat → K → K
  increasing : ∀ feature < dataset.features.size, StrictMono (move feature)
  features_eq : other.features = dataset.features
  labels_eq : other.labels = dataset.labels
  value_eq : ∀ feature index, cell rows feature index = value feature (kind index)
  twinValue_eq : ∀ feature < dataset.features.size, ∀ index ∈ other.indices,
    cell others feature index = move feature (value feature (twin index))
  label_eq : ∀ index, dataset.labelAt index = label (kind index)
  twinLabel_eq : ∀ index, other.labelAt index = label (twin index)

variable {κ : Type} {dataset other : Dataset K} {rows others : List (List K)}
variable {kinds : dataset.Kinds κ other rows others} {ids otherIds : List Int}

namespace Dataset.Kinds

theorem clearZero_cell (kinds : dataset.Kinds κ other rows others) (feature : Nat) (index : Int) :
    clearZero (cell rows feature index) = kinds.value feature (kinds.kind index) := by
  rw [clearZero_eq, kinds.value_eq]

theorem clearZero_twinCell (kinds : dataset.Kinds κ other rows others) {feature : Nat}
    (isFeature : feature < dataset.features.size) {index : Int} (isId : index ∈ other.indices) :
    clearZero (cell others feature index) =
      kinds.move feature (kinds.value feature (kinds.twin index)) := by
  rw [clearZero_eq, kinds.twinValue_eq feature isFeature index isId]

/-- The same kinds occur among some examples of the two datasets, with the same total weights. -/
structure Balanced (kinds : dataset.Kinds κ other rows others) (ids otherIds : List Int) :
    Prop where
  occurs : ∀ test : κ → Bool, (∃ index ∈ ids, test (kinds.kind index) = true) ↔
    ∃ index ∈ otherIds, test (kinds.twin index) = true
  weighs : ∀ test : κ → Bool,
    ((ids.filter fun index => test (kinds.kind index)).map dataset.weightAt).sum =
      ((otherIds.filter fun index => test (kinds.twin index)).map other.weightAt).sum

namespace Balanced

/-- What is chosen by kind stays balanced. -/
theorem filter (balanced : kinds.Balanced ids otherIds) (chosen : κ → Bool) :
    kinds.Balanced (ids.filter fun index => chosen (kinds.kind index))
      (otherIds.filter fun index => chosen (kinds.twin index)) where
  occurs test := by
    have both := balanced.occurs fun k => chosen k && test k
    simpa only [List.mem_filter, Bool.and_eq_true, and_assoc] using both
  weighs test := by
    rw [List.filter_filter, List.filter_filter]
    exact balanced.weighs fun k => test k && chosen k

/-- If the one dataset has examples then so has the other one. -/
theorem nonempty (balanced : kinds.Balanced dataset.indices other.indices)
    (nonempty : dataset.examples ≠ []) : other.examples ≠ [] := by
  have isFirst : (0 : Int) ∈ dataset.indices :=
    mem_indices.mpr
      ⟨le_refl _, Int.natCast_pos.mpr (List.length_pos_of_ne_nil nonempty)⟩
  obtain ⟨index, isId, -⟩ := (balanced.occurs fun _ => true).mp ⟨0, isFirst, rfl⟩
  have bounds := mem_indices.mp isId
  rintro empty
  rw [size, empty] at bounds
  exact absurd bounds.2 (not_lt.mpr bounds.1)

theorem congr (balanced : kinds.Balanced ids otherIds) {same otherSame : List Int}
    (perm : same.Perm ids) (otherPerm : otherSame.Perm otherIds) :
    kinds.Balanced same otherSame where
  occurs test := by
    simpa only [perm.mem_iff, otherPerm.mem_iff] using balanced.occurs test
  weighs test := by
    rw [((perm.filter _).map _).sum_eq, ((otherPerm.filter _).map _).sum_eq]
    exact balanced.weighs test

/-- Balanced examples have the same histogram. -/
theorem tally_eq (balanced : kinds.Balanced ids otherIds) :
    other.targets.tally otherIds = dataset.targets.tally ids := by
  have sizes : other.targets.labelCount = dataset.targets.labelCount :=
    congrArg LabelTable.size kinds.labels_eq
  rw [Targets.tally, Targets.tally, Histogram.tally_eq_map, Histogram.tally_eq_map, sizes]
  apply List.map_congr_left
  intro label _
  rw [dataset.weightOf_labelled, other.weightOf_labelled]
  simp only [kinds.label_eq, kinds.twinLabel_eq]
  exact (balanced.weighs fun k => kinds.label k == label).symm

section Columns

variable {column twin : Column K} {feature : Nat} (balanced : kinds.Balanced ids otherIds)
variable (isFeature : feature < dataset.features.size)
variable (describes : column.Describes dataset.targets
  (fun index => clearZero (cell rows feature index)) ids)
variable (twinDescribes : twin.Describes other.targets
  (fun index => clearZero (cell others feature index)) otherIds)
variable (twinKnown : ∀ index ∈ otherIds, index ∈ other.indices)

include balanced isFeature describes twinDescribes twinKnown

/-- The values of balanced examples are moved. -/
theorem values_eq :
    twin.entries.map Entry.value = (column.entries.map Entry.value).map (kinds.move feature) := by
  have increasing := kinds.increasing feature isFeature
  have moved : ((column.entries.map Entry.value).map (kinds.move feature)).Pairwise (· < ·) :=
    List.pairwise_map.mpr (describes.pairwise_values.imp fun less => increasing less)
  refine twinDescribes.pairwise_values.eq_of_mem_iff moved fun number => ?_
  have occurs := balanced.occurs
    fun k => decide (kinds.move feature (kinds.value feature k) = number)
  simp only [decide_eq_true_eq] at occurs
  rw [twinDescribes.mem_values, List.mem_map]
  constructor
  · rintro ⟨index, isId, rfl⟩
    have twinValue := kinds.clearZero_twinCell isFeature (twinKnown index isId)
    obtain ⟨first, firstId, same⟩ := occurs.mpr ⟨index, isId, twinValue.symm⟩
    exact ⟨_, describes.mem_values.mpr ⟨first, firstId, kinds.clearZero_cell feature first⟩, same⟩
  · rintro ⟨_, member, rfl⟩
    obtain ⟨index, isId, rfl⟩ := describes.mem_values.mp member
    obtain ⟨second, secondId, same⟩ :=
      occurs.mp ⟨index, isId, by rw [kinds.clearZero_cell feature index]⟩
    have twinValue := kinds.clearZero_twinCell isFeature (twinKnown second secondId)
    exact ⟨second, secondId, twinValue.trans same⟩

/-- The values at the same place correspond. -/
theorem value_eq {place : Nat} {entry twinEntry : Entry K}
    (found : column.entries[place]? = some entry)
    (twinFound : twin.entries[place]? = some twinEntry) :
    twinEntry.value = kinds.move feature entry.value := by
  have values := balanced.values_eq isFeature describes twinDescribes twinKnown
  have same := congrArg (fun list => list[place]?) values
  simp only [List.getElem?_map, found, twinFound, Option.map_some] at same
  exact Option.some.inj same

/-- The columns of balanced examples have the same histograms. -/
theorem column_parallel (distinct : ids.Nodup) (twinDistinct : otherIds.Nodup) :
    column.Parallel twin := by
  have lengths := congrArg List.length
    (balanced.values_eq isFeature describes twinDescribes twinKnown)
  simp only [List.length_map] at lengths
  apply List.ext_getElem
  · rw [List.length_map, List.length_map, lengths]
  intro place twinInside inside
  rw [List.length_map] at twinInside inside
  rw [List.getElem_map, List.getElem_map]
  have entryMember := List.getElem_mem inside
  have twinMember := List.getElem_mem twinInside
  have value := balanced.value_eq isFeature describes twinDescribes twinKnown
    (List.getElem?_eq_getElem inside) (List.getElem?_eq_getElem twinInside)
  generalize column.entries[place] = entry at entryMember value
  generalize twin.entries[place] = twinEntry at twinMember value
  rw [(describes.settled entry entryMember).counted,
    (twinDescribes.settled twinEntry twinMember).counted]
  have own := balanced.filter fun k => decide (kinds.value feature k = entry.value)
  refine (own.congr ?_ ?_).tally_eq
  · refine (describes.indices_perm distinct entryMember).trans (.of_eq ?_)
    simp only [kinds.clearZero_cell]
  · refine (twinDescribes.indices_perm twinDistinct twinMember).trans (.of_eq ?_)
    apply List.filter_congr
    intro index isId
    rw [kinds.clearZero_twinCell isFeature (twinKnown index isId), value]
    simp only [(kinds.increasing feature isFeature).injective.eq_iff]

end Columns

end Balanced

end Dataset.Kinds

end DecisionTree
