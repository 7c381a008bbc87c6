import DecisionTree.Column.Partition
import DecisionTree.Proofs.Buffer.Marks

/-!
# What a histogram holds

The place of a label in a histogram holds the weights of that label, added one by one in
the order in which they come (`Histogram.tally_eq_map`).  `Targets.tally` is the histogram of
some examples; looking up labels and weights cannot fail for ids of known examples, so a
column's histograms are tallies.
-/

namespace DecisionTree

variable {α : Type} [Scalar α]

namespace Histogram

/-- The weights of one label, added in order to a first summand. -/
def weightOf (label : Nat) (start : α) (items : List (Nat × α)) : α :=
  (items.filter fun item => item.1 == label).foldl (fun total item => total + item.2) start

theorem foldl_add_getElem? (counts : List α) (items : List (Nat × α)) (label : Nat) :
    (items.foldl add counts)[label]? = counts[label]?.map (weightOf label · items) := by
  induction items generalizing counts with
  | nil =>
      simp only [List.foldl_nil, weightOf, List.filter_nil]
      cases counts[label]? <;> rfl
  | cons item rest ih =>
      rw [List.foldl_cons, ih, add, List.getElem?_modify]
      by_cases same : item.1 = label
      · subst same
        cases counts[item.1]? <;> simp [weightOf]
      · cases counts[label]? <;> simp [weightOf, same]

/-- A histogram lists, label by label, the weights of the label added in order from zero. -/
theorem tally_eq_map (size : Nat) (items : List (Nat × α)) :
    tally size items = (List.range size).map fun label => weightOf label 0 items := by
  apply List.ext_getElem?
  intro label
  rw [tally, foldl_add_getElem?]
  by_cases known : label < size
  · simp [zero, known]
  · simp [zero, known]

/-- Labels below the minimum do not widen a histogram. -/
theorem ofItems_of_lt {minimum : Nat} {items : List (Int × α)}
    (known : ∀ item ∈ items, 0 ≤ item.1 ∧ item.1 < minimum) :
    ofItems minimum items = .ok (tally minimum (items.map fun item => (item.1.toNat, item.2))) := by
  have noneNegative : (items.any fun item => decide (item.1 < 0)) = false := by
    rw [List.any_eq_false]
    intro item member
    have := (known item member).1
    simp only [decide_eq_true_eq]
    omega
  have width : ∀ (pairs : List (Nat × α)), (∀ pair ∈ pairs, pair.1 < minimum) →
      pairs.foldl (fun size pair => max size (pair.1 + 1)) minimum = minimum := by
    intro pairs bounded
    induction pairs with
    | nil => rfl
    | cons pair rest ih =>
        have least := bounded pair List.mem_cons_self
        rw [List.foldl_cons, Nat.max_eq_left (by omega)]
        exact ih fun other member => bounded other (List.mem_cons_of_mem _ member)
  rw [ofItems, noneNegative, if_neg Bool.false_ne_true]
  simp only
  rw [width]
  intro pair member
  obtain ⟨item, itemMember, rfl⟩ := List.mem_map.mp member
  have := known item itemMember
  simp only
  omega

end Histogram

namespace Targets

variable {targets : Targets α} {indices : List Int} {count : Nat}

/-- Labels and weights are known for a number of examples. -/
structure Known (targets : Targets α) (count : Nat) : Prop where
  labels_size : targets.labels.size = count
  weights_size : targets.weights.size = count
  label_lt : ∀ label ∈ targets.labels, 0 ≤ label ∧ label < targets.labelCount

/-- The label id and the weight of an example that is known. -/
def labelled (targets : Targets α) (index : Int) : Nat × α :=
  ((targets.labels.getD index.toNat 0).toNat, targets.weights.getD index.toNat 0)

/-- The label histogram of some examples, added up in their order. -/
def tally (targets : Targets α) (indices : List Int) : List α :=
  Histogram.tally targets.labelCount (indices.map targets.labelled)

@[simp] theorem length_tally (targets : Targets α) (indices : List Int) :
    (targets.tally indices).length = targets.labelCount :=
  Histogram.length_tally _ _

/-- The ids of known examples. -/
def InRange (count : Nat) (indices : List Int) : Prop :=
  ∀ index ∈ indices, 0 ≤ index ∧ index < count

theorem InRange.of_subset {smaller larger : List Int} (inRange : InRange count larger)
    (subset : ∀ index ∈ smaller, index ∈ larger) : InRange count smaller :=
  fun index member => inRange index (subset index member)

/-- The label and the weight of a known example are found. -/
theorem Known.item?_eq (known : targets.Known count) {index : Int} (nonneg : 0 ≤ index)
    (bounded : index < count) :
    ∃ label : Int, 0 ≤ label ∧ label < targets.labelCount ∧
      (targets.labelled index).1 = label.toNat ∧
      targets.item? index = some (label, (targets.labelled index).2) := by
  have inLabels : index.toNat < targets.labels.size := by
    rw [known.labels_size]; omega
  have inWeights : index.toNat < targets.weights.size := by
    rw [known.weights_size]; omega
  have labelBounds := known.label_lt targets.labels[index.toNat] (Array.getElem_mem inLabels)
  refine ⟨targets.labels[index.toNat], labelBounds.1, labelBounds.2, ?_, ?_⟩
  · simp [labelled, inLabels]
  · have labelPlace : Position.resolve targets.labels.size index = some index.toNat :=
      Buffer.resolve_of_spans nonneg (by rw [known.labels_size]; exact bounded)
    have weightPlace : Position.resolve targets.weights.size index = some index.toNat :=
      Buffer.resolve_of_spans nonneg (by rw [known.weights_size]; exact bounded)
    simp [item?, labelPlace, weightPlace, inLabels, inWeights, labelled]

/-- An example has a label that histograms count, and a weight. -/
def Knows (targets : Targets α) (index : Int) : Prop :=
  0 ≤ index ∧ ∃ label weight, targets.item? index = some (label, weight) ∧
    0 ≤ label ∧ label < targets.labelCount

theorem Known.knows (known : targets.Known count) (inRange : InRange count indices) :
    ∀ index ∈ indices, targets.Knows index := by
  intro index member
  obtain ⟨nonneg, bounded⟩ := inRange index member
  obtain ⟨label, labelNonneg, labelBounded, -, found⟩ := known.item?_eq nonneg bounded
  exact ⟨nonneg, label, _, found, labelNonneg, labelBounded⟩

/-- What is looked up of an example that is known is what it is labelled with. -/
theorem Knows.item?_eq {index : Int} (knows : targets.Knows index) :
    (targets.labelled index).1 < targets.labelCount ∧ targets.item? index =
      some (((targets.labelled index).1 : Int), (targets.labelled index).2) := by
  obtain ⟨nonneg, label, weight, found, labelNonneg, labelBounded⟩ := knows
  have place_eq : ∀ {size place : Nat}, Position.resolve size index = some place →
      place = index.toNat := by
    intro size place named
    rw [Position.resolve, if_pos nonneg] at named
    split at named
    · exact (Option.some.inj named).symm
    · cases named
  obtain ⟨labelPlace, labelNamed, parts⟩ := Option.bind_eq_some_iff.mp found
  obtain ⟨ownLabel, labelFound, parts⟩ := Option.bind_eq_some_iff.mp parts
  obtain ⟨weightPlace, weightNamed, parts⟩ := Option.bind_eq_some_iff.mp parts
  obtain ⟨ownWeight, weightFound, same⟩ := Option.bind_eq_some_iff.mp parts
  obtain ⟨rfl, rfl⟩ := Prod.mk.inj (Option.some.inj same)
  obtain rfl := place_eq labelNamed
  obtain rfl := place_eq weightNamed
  have labelled : targets.labelled index = (ownLabel.toNat, ownWeight) := by
    rw [labelled, Array.getD_eq_getD_getElem?, Array.getD_eq_getD_getElem?, labelFound,
      weightFound]
    rfl
  rw [labelled, found, Int.toNat_of_nonneg labelNonneg]
  exact ⟨by simp only; omega, rfl⟩

theorem mapM_item? (knows : ∀ index ∈ indices, targets.Knows index) :
    indices.mapM targets.item? = some (indices.map fun index =>
      (((targets.labelled index).1 : Int), (targets.labelled index).2)) :=
  Outcome.mapM_eq_some_map fun index member => (knows index member).item?_eq.2

/-- The histogram of known examples is their tally. -/
theorem counts_eq_tally (knows : ∀ index ∈ indices, targets.Knows index) :
    targets.counts indices = .ok (targets.tally indices) := by
  rw [counts, mapM_item? knows]
  simp only
  rw [Histogram.ofItems_of_lt, List.map_map]
  · rfl
  · intro item member
    obtain ⟨index, isId, rfl⟩ := List.mem_map.mp member
    have bounded := (knows index isId).item?_eq.1
    simp only
    omega

end Targets

end DecisionTree
