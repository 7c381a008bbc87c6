import Mathlib.Algebra.BigOperators.Group.Finset.Basic
import DecisionTree.Proofs.Growth.Moved

/-!
# Regrouping examples

What is grown in exact arithmetic depends on the examples only through the total weight of every
pair of a row and a label.  The order of the examples does not matter, and one example may stand for
several with the same row and label: the tree is the same (`regrouped_examples_same_tree`), although
columns, workspaces and the partitions of ids differ between the two runs.
-/

namespace DecisionTree

/-- Weights that are added up by kind. -/
theorem sum_filter_kind {κ M : Type} [DecidableEq κ] [AddCommMonoid M] {ids : List Int}
    (distinct : ids.Nodup) (kind : Int → κ) (weight : Int → M) {among : Finset κ}
    (known : ∀ index ∈ ids, kind index ∈ among) (test : κ → Bool) :
    ((ids.filter fun index => test (kind index)).map weight).sum =
      ∑ k ∈ among with test k = true,
        ((ids.filter fun index => decide (kind index = k)).map weight).sum := by
  have total : ∀ chosen : Int → Bool, ((ids.filter chosen).map weight).sum =
      ∑ index ∈ ids.toFinset with chosen index = true, weight index := by
    intro chosen
    rw [← List.sum_toFinset _ (distinct.filter _), List.toFinset_filter]
  have maps : ∀ index ∈ ids.toFinset.filter fun index => test (kind index) = true,
      kind index ∈ among.filter fun k => test k = true := by
    intro index member
    obtain ⟨isId, passes⟩ := Finset.mem_filter.mp member
    exact Finset.mem_filter.mpr ⟨known index (List.mem_toFinset.mp isId), passes⟩
  rw [total, ← Finset.sum_fiberwise_of_maps_to maps]
  refine Finset.sum_congr rfl fun k member => ?_
  rw [total, Finset.filter_filter]
  refine Finset.sum_congr (Finset.filter_congr fun index _ => ?_) fun _ _ => rfl
  rw [decide_eq_true_eq]
  refine and_iff_right_of_imp ?_
  rintro rfl
  exact (Finset.mem_filter.mp member).2

variable {K : Type} [Field K] [LinearOrder K]

namespace Dataset

/-- The row of an example and the id of its label. -/
def pairAt (dataset : Dataset K) (rows : List (List K)) (index : Int) : List K × Nat :=
  (rows.getD index.toNat [], dataset.labelAt index)

theorem cell_eq_pairAt (dataset : Dataset K) (rows : List (List K)) (feature : Nat) (index : Int) :
    cell rows feature index = (dataset.pairAt rows index).1.getD feature 0 :=
  rfl

omit [Field K] [LinearOrder K] in
theorem labelAt_eq_pairAt (dataset : Dataset K) (rows : List (List K)) (index : Int) :
    dataset.labelAt index = (dataset.pairAt rows index).2 :=
  rfl

/-- The total weight of the examples with a row and a label. -/
def weightOfPair (dataset : Dataset K) (rows : List (List K)) (pair : List K × Nat) : K :=
  ((dataset.indices.filter fun index => decide (dataset.pairAt rows index = pair)).map
    dataset.weightAt).sum

/-- The same pairs of a row and a label occur in two datasets, each with the same total weight. -/
structure SamePairs (dataset other : Dataset K) (rows others : List (List K)) : Prop where
  occurs : ∀ pair, pair ∈ dataset.indices.map (dataset.pairAt rows) ↔
    pair ∈ other.indices.map (other.pairAt others)
  weighs : ∀ pair ∈ dataset.indices.map (dataset.pairAt rows),
    dataset.weightOfPair rows pair = other.weightOfPair others pair

instance {dataset other : Dataset K} {rows others : List (List K)} :
    Decidable (dataset.SamePairs other rows others) :=
  let pairs := dataset.indices.map (dataset.pairAt rows)
  let otherPairs := other.indices.map (other.pairAt others)
  decidable_of_iff ((∀ pair ∈ pairs, pair ∈ otherPairs) ∧ (∀ pair ∈ otherPairs, pair ∈ pairs) ∧
      ∀ pair ∈ pairs, dataset.weightOfPair rows pair = other.weightOfPair others pair)
    ⟨fun ⟨forth, back, weighs⟩ => ⟨fun pair => ⟨forth pair, back pair⟩, weighs⟩,
      fun same => ⟨fun pair => (same.occurs pair).mp, fun pair => (same.occurs pair).mpr,
        same.weighs⟩⟩

/-- The pairs of rows and labels are kinds whose values are not moved. -/
def pairKinds {dataset other : Dataset K} (rows others : List (List K))
    (features : other.features = dataset.features) (labels : other.labels = dataset.labels) :
    dataset.Kinds (List K × Nat) other rows others where
  kind := dataset.pairAt rows
  twin := other.pairAt others
  value feature pair := pair.1.getD feature 0
  label pair := pair.2
  move _ number := number
  increasing _ _ := strictMono_id
  features_eq := features
  labels_eq := labels
  value_eq := dataset.cell_eq_pairAt rows
  twinValue_eq feature _ index _ := other.cell_eq_pairAt others feature index
  label_eq := dataset.labelAt_eq_pairAt rows
  twinLabel_eq := other.labelAt_eq_pairAt others

end Dataset

/-- Where every kind occurs or not in both datasets, and with the same weight, the examples
balance. -/
theorem Dataset.Kinds.Balanced.of_each {κ : Type} [DecidableEq κ] {dataset other : Dataset K}
    {rows others : List (List K)} {kinds : dataset.Kinds κ other rows others}
    {ids otherIds : List Int} (distinct : ids.Nodup) (otherDistinct : otherIds.Nodup)
    (occurs : ∀ k, k ∈ ids.map kinds.kind ↔ k ∈ otherIds.map kinds.twin)
    (weighs : ∀ k ∈ ids.map kinds.kind,
      ((ids.filter fun index => decide (kinds.kind index = k)).map dataset.weightAt).sum =
        ((otherIds.filter fun index => decide (kinds.twin index = k)).map other.weightAt).sum) :
    kinds.Balanced ids otherIds where
  occurs test := by
    constructor
    · rintro ⟨index, isId, passes⟩
      obtain ⟨twin, twinId, same⟩ :=
        List.mem_map.mp ((occurs _).mp (List.mem_map_of_mem isId))
      exact ⟨twin, twinId, by rw [same, passes]⟩
    · rintro ⟨twin, twinId, passes⟩
      obtain ⟨index, isId, same⟩ :=
        List.mem_map.mp ((occurs _).mpr (List.mem_map_of_mem twinId))
      exact ⟨index, isId, by rw [same, passes]⟩
  weighs test := by
    have known : ∀ index ∈ ids, kinds.kind index ∈ (ids.map kinds.kind).toFinset :=
      fun index isId => List.mem_toFinset.mpr (List.mem_map_of_mem isId)
    have otherKnown : ∀ index ∈ otherIds, kinds.twin index ∈ (ids.map kinds.kind).toFinset :=
      fun index isId => List.mem_toFinset.mpr ((occurs _).mpr (List.mem_map_of_mem isId))
    refine (sum_filter_kind distinct _ _ known test).trans (.trans ?_
      (sum_filter_kind otherDistinct _ _ otherKnown test).symm)
    refine Finset.sum_congr rfl fun k member => weighs k ?_
    exact List.mem_toFinset.mp (Finset.mem_filter.mp member).1

namespace Growth

/-- Two tables with the same feature names and the same label table give the same tree, whatever the
measure, the splitter and the other rules, if the same pairs of a row and a label occur in both,
each with the same total weight. -/
theorem regrouped_examples_same_tree [IsStrictOrderedRing K] {σ : Type}
    {values otherValues : Nested K} {labels otherLabels : Nested Label}
    {weights otherWeights : Option (Nested K)} {names otherNames : Option Setting}
    {table : LabelTable} {dataset other : Dataset K}
    (accepted : Dataset.ofTable values labels weights names (some table) = .ok dataset)
    (otherAccepted :
      Dataset.ofTable otherValues otherLabels otherWeights otherNames (some table) = .ok other)
    {width otherWidth : Nat} {rows others : List (List K)}
    (grid : values.grid = .ok (.table width rows))
    (otherGrid : otherValues.grid = .ok (.table otherWidth others))
    (features : other.features = dataset.features) (same : dataset.SamePairs other rows others)
    (nonempty : dataset.examples ≠ []) {policy : Policy K} (workers : 0 < policy.workers)
    {draws : Draws σ} (bounded : draws.Bounded) (source : σ) :
    (dataset.features.size ≤ 2 ^ 63 → ∃ state twin : State K σ,
      start policy.measure dataset source = .ok state ∧
      start policy.measure other source = .ok twin) ∧
    ∀ state twin : State K σ, start policy.measure dataset source = .ok state →
      start policy.measure other source = .ok twin →
        ∃ final last tree, finish policy draws dataset state = .ok final ∧
          finish policy draws other twin = .ok last ∧
          final.forest.toTree dataset.labels.labels 0 = .ok tree ∧
          last.forest.toTree other.labels.labels 0 = .ok tree := by
  have labelsEq : other.labels = dataset.labels :=
    (Dataset.labels_of_ofTable otherAccepted).trans (Dataset.labels_of_ofTable accepted).symm
  have fromRows := Dataset.fromRows_of_grid accepted grid
  have otherFromRows := Dataset.fromRows_of_grid otherAccepted otherGrid
  have root : (Dataset.pairKinds rows others features labelsEq).Balanced dataset.indices
      other.indices :=
    .of_each (Dataset.nodup_indices dataset) (Dataset.nodup_indices other)
      same.occurs same.weighs
  refine ⟨fun narrow => exists_starts fromRows otherFromRows features narrow policy.measure source,
    fun state twin started twinStarted => ?_⟩
  obtain ⟨final, last, tree, moved, finished, twinFinished, converted, twinConverted, related⟩ :=
    exists_moved fromRows otherFromRows bounded root nonempty workers started twinStarted
  obtain rfl := related.eq_of_fixed fun _ _ => rfl
  exact ⟨final, last, _, finished, twinFinished, converted, twinConverted⟩

namespace Sample

/-- The rows of the sample with both labels. -/
def mergedRows : List (List ℚ) :=
  [[1], [1], [0], [0]]

def mergedValues : Nested ℚ :=
  .many (mergedRows.map fun row => .many (row.map .one))

def mergedLabels : Nested Label :=
  .many ([1, 0, 1, 0].map fun label => .one (.int label))

/-- How many rows of the sample each merged row stands for. -/
def mergedWeights : Nested ℚ :=
  .many ([3, 1, 1, 3].map .one)

end Sample

/-- Four weighted rows stand for the eight rows of the sample. -/
theorem regrouped_examples_same_tree_sample :
    ∃ (table : LabelTable) (dataset other : Dataset ℚ) (state twin final last : State ℚ Nat)
      (tree : Tree ℚ),
      Dataset.ofTable (Sample.values 0 1) Sample.labels none none (some table) = .ok dataset ∧
      Dataset.ofTable Sample.mergedValues Sample.mergedLabels (some Sample.mergedWeights) none
        (some table) = .ok other ∧
      dataset.size = 8 ∧ other.size = 4 ∧ other.features = dataset.features ∧
      dataset.SamePairs other (Sample.rows 0 1) Sample.mergedRows ∧
      start Sample.policy.measure dataset 0 = .ok state ∧
      start Sample.policy.measure other 0 = .ok twin ∧
      finish Sample.policy (.repeating []) dataset state = .ok final ∧
      finish Sample.policy (.repeating []) other twin = .ok last ∧
      final.forest.toTree dataset.labels.labels 0 = .ok tree ∧
      last.forest.toTree other.labels.labels 0 = .ok tree ∧ tree.leafCount = 2 := by
  have passed : Outcome.passes (do
      let table ← LabelTable.ofLabels [.int 0, .int 1]
      let dataset ← Dataset.ofTable (Sample.values (0 : ℚ) 1) Sample.labels none none (some table)
      let other ← Dataset.ofTable Sample.mergedValues Sample.mergedLabels
        (some Sample.mergedWeights) none (some table)
      let state ← start Sample.policy.measure dataset 0
      let twin ← start Sample.policy.measure other 0
      let final ← finish Sample.policy (.repeating []) dataset state
      let tree ← final.forest.toTree dataset.labels.labels 0
      pure (dataset, other, tree)) (fun (dataset, other, tree) =>
        dataset.size == 8 && other.size == 4 &&
          decide (other.features.names = dataset.features.names) &&
          decide (dataset.SamePairs other (Sample.rows 0 1) Sample.mergedRows) &&
          tree.leafCount == 2) = true := by
    decide +kernel
  obtain ⟨⟨dataset, other, tree⟩, computed, test⟩ := Outcome.exists_of_passes passed
  obtain ⟨table, -, computed⟩ := Outcome.bind_eq_ok.mp computed
  obtain ⟨first, accepted, computed⟩ := Outcome.bind_eq_ok.mp computed
  obtain ⟨second, otherAccepted, computed⟩ := Outcome.bind_eq_ok.mp computed
  obtain ⟨state, started, computed⟩ := Outcome.bind_eq_ok.mp computed
  obtain ⟨twin, twinStarted, computed⟩ := Outcome.bind_eq_ok.mp computed
  obtain ⟨final, finished, computed⟩ := Outcome.bind_eq_ok.mp computed
  obtain ⟨found, converted, triple⟩ := Outcome.bind_eq_ok.mp computed
  obtain ⟨rfl, pair⟩ := Prod.mk.inj (Except.ok.inj triple)
  obtain ⟨rfl, rfl⟩ := Prod.mk.inj pair
  simp only [Bool.and_eq_true, beq_iff_eq, decide_eq_true_eq] at test
  obtain ⟨⟨⟨⟨size, otherSize⟩, names⟩, same⟩, leaves⟩ := test
  have features : second.features = first.features := (FeatureNames.mk.injEq ..).mpr names
  have nonempty : first.examples ≠ [] := by
    intro empty
    rw [Dataset.size, empty] at size
    cases size
  have workers : 0 < (Sample.policy : Policy ℚ).workers := Nat.zero_lt_one
  obtain ⟨-, alike⟩ := regrouped_examples_same_tree accepted otherAccepted rfl rfl features same
    nonempty workers Draws.bounded_zeros 0
  obtain ⟨ended, last, grown, endedEq, lastEq, grownEq, sameEq⟩ :=
    alike state twin started twinStarted
  obtain rfl := Except.ok.inj (finished.symm.trans endedEq)
  obtain rfl := Except.ok.inj (converted.symm.trans grownEq)
  exact ⟨table, first, second, state, twin, final, last, found, accepted, otherAccepted, size,
    otherSize, features, same, started, twinStarted, finished, lastEq, converted, sameEq, leaves⟩

end Growth

end DecisionTree
