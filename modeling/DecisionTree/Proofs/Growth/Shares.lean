import DecisionTree.Proofs.Binary64.Magnitude
import DecisionTree.Proofs.Growth.Addresses

/-!
# Shares that overflow

A leaf gives the shares of its labels in the weight of its examples.  With finite weights the shares
are numbers from zero to one, one of them positive, exactly if the weight of the examples does not
overflow when it is added up (`Course.isDistribution_iff_isFinite`).  Weights that are so small that
all of them together are below the largest float never do.  Two large weights may
(`Course.no_positive_share`).
-/

namespace DecisionTree

/-- Shares are numbers from zero to one, and one of them is positive. -/
structure IsDistribution (shares : List Float) : Prop where
  bounded : ∀ share ∈ shares, Scalar.le 0 share = true ∧ Scalar.le share (Scalar.ofNat 1) = true
  exists_pos : ∃ share ∈ shares, Scalar.lt 0 share = true

namespace Growth

open Binary64

namespace Node

variable {counts : List Float}

/-- A share that is not negative and at most one. -/
theorem bounded_of_magnitude {share : Float} (nonNegative : NonNegative share)
    (atMost : magnitude share ≤ oneRank) :
    Scalar.le 0 share = true ∧ Scalar.le share (Scalar.ofNat 1) = true :=
  ⟨nonNegative_iff.mp nonNegative,
    le_iff.mpr ⟨_, _, nonNegative, rank_one, Int.ofNat_le.mpr atMost⟩⟩

/-- Equal shares are a distribution. -/
theorem isDistribution_replicate {size : Nat} (positive : 0 < size) (few : size < 2 ^ 53) :
    IsDistribution (List.replicate size (Scalar.ofNat 1 / Scalar.ofNat size)) := by
  have one := rank_one
  have total := rank_ofNat few
  have partEq := magnitude_of_rank one
  have totalEq := magnitude_of_rank total
  have least := Nat.mul_le_mul_right oneRank positive
  have large := two_pow_le_oneRank
  have finite : (Scalar.ofNat size : Float).isFinite = true :=
    (NonNegative.of_rank total).isFinite_iff.mpr (totalEq ▸ mul_oneRank_lt few)
  obtain ⟨nonNegative, atMost, reaches⟩ := (NonNegative.of_rank one).div (.of_rank total)
    (by omega) (by omega) finite
  have above := reaches 1 ⟨1, 0, by decide, rfl⟩ (by
    rw [partEq, totalEq, Nat.one_mul]
    exact Nat.mul_le_mul_right _ (by omega))
  refine ⟨fun share member => ?_, _, List.mem_replicate.mpr ⟨Nat.ne_of_gt positive, rfl⟩,
    nonNegative.lt_zero_iff.mpr above⟩
  rw [List.eq_of_mem_replicate member]
  exact bounded_of_magnitude nonNegative atMost

/-- The distribution of a histogram without negative weights is one exactly if the total is
finite. -/
theorem isDistribution_iff (each : ∀ count ∈ counts, NonNegative count) (nonempty : counts ≠ [])
    (few : counts.length < 2 ^ 53) :
    IsDistribution (distribution counts) ↔ (Scalar.sum counts).isFinite = true := by
  have sums := Sums.of_list counts
  have total := sums.nonNegative each
  have length := List.length_pos_iff.mpr nonempty
  rw [distribution]
  split
  next weighty =>
    have positive := total.lt_zero_iff.mp weighty
    constructor
    · rintro ⟨-, share, member, above⟩
      obtain ⟨count, -, rfl⟩ := List.mem_map.mp member
      by_contra infinite
      rw [total.div_infinity (Bool.eq_false_iff.mpr infinite)] at above
      cases above
    · intro finite
      have shares := fun count isCount => (each count isCount).div total
        (sums.le_total each count isCount) positive finite
      refine ⟨fun share member => ?_, ?_⟩
      · obtain ⟨count, isCount, rfl⟩ := List.mem_map.mp member
        obtain ⟨nonNegative, atMost, -⟩ := shares count isCount
        exact bounded_of_magnitude nonNegative atMost
      · have nonzero : (counts : Multiset Float) ≠ 0 := fun none =>
          nonempty ((Multiset.coe_eq_zero _).mp none)
        obtain ⟨count, isCount, large⟩ := sums.exists_large each nonzero (Nat.le_of_lt few)
        obtain ⟨nonNegative, -, reaches⟩ := shares count isCount
        refine ⟨_, List.mem_map_of_mem isCount, nonNegative.lt_zero_iff.mpr ?_⟩
        apply reaches 1 ⟨1, 0, by decide, rfl⟩
        rw [Nat.one_mul, Nat.mul_comm]
        exact large.trans (Nat.mul_le_mul_right _ two_pow_le_oneRank)
  next weightless =>
    have none : magnitude (Scalar.sum counts) = 0 := by
      rw [total.lt_zero_iff] at weightless
      omega
    have top := infinityRank_pos
    rw [Nat.max_eq_left length, total.isFinite_iff, none]
    exact iff_of_true (isDistribution_replicate length few) top

end Node

variable {σ : Type} {values : Nested Float} {labels : Nested Label}
variable {weights : Option (Nested Float)} {names : Option Setting} {table : Option LabelTable}
variable {dataset : Dataset Float} {rows : List (List Float)} {policy : Policy Float}
variable {draws : Draws σ} {source : σ} {state : State Float σ} {origins : List (Origin Float)}

theorem exists_weight {index : Int} (isId : index ∈ dataset.indices) :
    ∃ e ∈ dataset.examples, dataset.weightAt index = e.weight := by
  obtain ⟨nonneg, less⟩ := Dataset.mem_indices.mp isId
  have inside : index.toNat < dataset.examples.length := by
    rw [Dataset.size] at less
    omega
  refine ⟨dataset.examples[index.toNat], List.getElem_mem inside, ?_⟩
  rw [Dataset.weightAt, List.getElem?_eq_getElem inside]
  rfl

/-- The histogram of a node adds up the weights of different examples. -/
theorem Slot.Sound.exists_addsUp {id : Nat} {slot : Slot Float} {origin : Origin Float}
    (fromRows : dataset.FromRows rows)
    (sound : slot.Sound (groundOf policy dataset rows) origins id origin) :
    ∃ terms : Multiset Float, terms.card ≤ dataset.size ∧
      (∀ term ∈ terms, ∃ e ∈ dataset.examples, term = e.weight) ∧
        Histogram.AddsUp terms slot.node.counts := by
  obtain ⟨ids, nodup, inRange, addsUp⟩ : ∃ ids : List Int, ids.Nodup ∧
      Targets.InRange dataset.size ids ∧
        Histogram.AddsUp (dataset.targets.weightsOf ids) slot.node.counts := by
    rw [sound.counts_eq, Origin.counts]
    split
    · exact ⟨dataset.indices, Dataset.nodup_indices dataset, Dataset.inRange_indices dataset,
        fromRows.known.addsUp (Dataset.inRange_indices dataset)⟩
    next notRoot =>
      obtain ⟨column, rest, whole⟩ := List.exists_cons_of_ne_nil (sound.columns_ne_nil notRoot)
      have describes := sound.origin_sound.columnsOf.describes 0 column (by rw [whole]; rfl)
      have inRange := sound.origin_sound.inRange
      rw [whole]
      exact ⟨origin.ids, sound.origin_sound.nodup, inRange, describes.addsUp fromRows.known inRange⟩
  have subset : ids ⊆ dataset.indices := fun index isId =>
    Dataset.mem_indices.mpr (inRange index isId)
  refine ⟨_, ?_, ?_, addsUp⟩
  · have length := (List.subperm_of_subset nodup subset).length_le
    simpa [Targets.weightsOf, Dataset.indices] using length
  · intro term member
    obtain ⟨index, isId, rfl⟩ := List.mem_map.mp (Multiset.mem_coe.mp member)
    obtain ⟨e, isExample, same⟩ := exists_weight (subset isId)
    exact ⟨e, isExample, (congrArg Prod.snd (dataset.labelled_eq index)).trans same⟩

/-- An accepted finite weight is not negative. -/
theorem nonNegative_weight (fromRows : dataset.FromRows rows) {e : Example Float}
    (isExample : e ∈ dataset.examples) (finite : e.weight.isFinite = true) :
    NonNegative e.weight := by
  obtain ⟨rank, found, -⟩ := Binary64.isFinite_iff.mp finite
  rw [nonNegative_iff, le_iff]
  refine ⟨0, rank, rank_zero, found, ?_⟩
  rcases fromRows.weight_eq_or e isExample with one | notNegative
  · rw [one, rank_one] at found
    exact (Option.some.inj found) ▸ Int.natCast_nonneg _
  · rw [Bool.eq_false_iff, ne_eq, lt_iff] at notNegative
    by_contra negative
    exact notNegative ⟨rank, 0, found, rank_zero, by omega⟩

/-- With finite weights, every node adds up weights of different examples that are not negative. -/
theorem Course.exists_addsUp (fromRows : dataset.FromRows rows)
    (finite : ∀ e ∈ dataset.examples, e.weight.isFinite = true) (bounded : draws.Bounded)
    (course : Course policy draws dataset source state origins) {id : Nat} {slot : Slot Float}
    (found : state.forest.slots[id]? = some slot) :
    slot.node.counts.length = dataset.labels.size ∧
      ∃ terms : Multiset Float, terms.card ≤ dataset.size ∧
        (∀ term ∈ terms, ∃ e ∈ dataset.examples, term = e.weight) ∧
          (∀ term ∈ terms, NonNegative term) ∧ Histogram.AddsUp terms slot.node.counts := by
  have sound := (course.sound fromRows bounded).forest_sound
  obtain ⟨origin, originFound⟩ := sound.exists_origin found
  have slotSound := sound.slots id slot origin found originFound
  obtain ⟨terms, card, weights, addsUp⟩ := slotSound.exists_addsUp fromRows
  refine ⟨slotSound.length_counts, terms, card, weights, fun term member => ?_, addsUp⟩
  obtain ⟨e, isExample, rfl⟩ := weights term member
  exact nonNegative_weight fromRows isExample (finite e isExample)

/-- Growth over an accepted table with finite weights and no more labels than floats can count.
Every node can be made into a leaf, whose shares are a distribution exactly if the total of the node
is finite, and every leaf of the tree is made from the node at the end of its path.  All totals are
finite if no weight exceeds a power of two that stays finite when it is taken as often as there are
examples. -/
theorem Course.isDistribution_iff_isFinite
    (accepted : Dataset.ofTable values labels weights names table = .ok dataset)
    (nonempty : dataset.examples ≠ [])
    (finite : ∀ e ∈ dataset.examples, e.weight.isFinite = true)
    (few : dataset.labels.size < 2 ^ 53) (bounded : draws.Bounded)
    (course : Course policy draws dataset source state origins) :
    (∀ {id : Nat} {slot : Slot Float}, state.forest.slots[id]? = some slot →
      ∃ leaf, slot.node.toLeaf dataset.labels.labels = .ok leaf ∧
        (IsDistribution leaf.distribution ↔ (Scalar.sum slot.node.counts).isFinite = true)) ∧
    (∃ tree, state.forest.toTree dataset.labels.labels 0 = .ok tree ∧
      ∀ path leaf, tree.leafAt? path = some leaf →
        ∃ last node, state.forest.descend 0 path = some last ∧
          state.forest.slots[last]? = some { node, children := none } ∧
          node.toLeaf dataset.labels.labels = .ok leaf) ∧
    ∀ shift, dataset.size ≤ 2 ^ 53 → ((dataset.size * 2 ^ shift : Nat) : Int) < infinityRank →
      (∀ e ∈ dataset.examples, magnitude e.weight ≤ 2 ^ shift) →
        ∀ {id : Nat} {slot : Slot Float}, state.forest.slots[id]? = some slot →
          (Scalar.sum slot.node.counts).isFinite = true := by
  obtain ⟨width, rows, -, fromRows⟩ := Dataset.fromRows_of_ofTable accepted
  have labelled := fromRows.labels_ne_nil nonempty
  refine ⟨fun {id slot} found => ?_, ?_, fun shift small less light {id slot} found => ?_⟩
  · obtain ⟨length, terms, -, -, each, addsUp⟩ :=
      course.exists_addsUp fromRows finite bounded found
    obtain ⟨leaf, made⟩ := Node.exists_toLeaf labelled length
    refine ⟨leaf, made, ?_⟩
    rw [(Node.of_toLeaf made).2.1]
    refine Node.isDistribution_iff (fun count isCount => ?_) ?_ (length ▸ few)
    · obtain ⟨part, included, own⟩ := addsUp.exists_sums count isCount
      exact own.nonNegative fun term member => each term (Multiset.mem_of_le included member)
    · apply List.ne_nil_of_length_pos
      rw [length]
      exact List.length_pos_iff.mpr labelled
  · obtain ⟨tree, converted⟩ := course.exists_tree fromRows bounded nonempty
    exact ⟨tree, converted, fun path leaf leafFound =>
      (course.sound fromRows bounded).forest_sound.leaf_made converted leafFound⟩
  · obtain ⟨-, terms, card, weights, each, addsUp⟩ :=
      course.exists_addsUp fromRows finite bounded found
    have most := addsUp.sum.total_le (fun count few => short_mul_pow (by omega) shift)
      fun term member => by
        obtain ⟨e, isExample, rfl⟩ := weights term member
        exact ⟨each _ member, light e isExample⟩
    have := Nat.mul_le_mul_right (2 ^ shift) card
    rw [(addsUp.sum.nonNegative each).isFinite_iff]
    omega

/-- The weights of the sample are one each, so the total of its left leaf is finite, and its shares
are a distribution. -/
theorem Course.isDistribution_iff_isFinite_sample :
    ∃ (dataset : Dataset Float) (state : State Float Nat) (origins : List (Origin Float))
      (slot : Slot Float) (leaf : Leaf Float),
      Dataset.ofTable (Sample.values 0 1) Sample.labels none none none = .ok dataset ∧
      dataset.examples ≠ [] ∧ (∀ e ∈ dataset.examples, e.weight.isFinite = true) ∧
      dataset.labels.size < 2 ^ 53 ∧ dataset.size ≤ 2 ^ 53 ∧
      ((dataset.size * 2 ^ 1074 : Nat) : Int) < infinityRank ∧
      (∀ e ∈ dataset.examples, magnitude e.weight ≤ 2 ^ 1074) ∧
      Course Sample.policy (.repeating []) dataset 0 state origins ∧
      state.forest.slots[1]? = some slot ∧
      slot.node.toLeaf dataset.labels.labels = .ok leaf ∧
      (Scalar.sum slot.node.counts).isFinite = true ∧ IsDistribution leaf.distribution := by
  have passed : Outcome.passes (Sample.course (0 : Float) 1 1) (fun (dataset, state, _) =>
      !dataset.examples.isEmpty && (dataset.examples.all fun e =>
        e.weight.isFinite && decide (magnitude e.weight ≤ 2 ^ 1074)) &&
      dataset.labels.size == 2 && dataset.size == 8 &&
      state.forest.slots[1]?.isSome) = true := by
    decide +kernel
  obtain ⟨dataset, state, origins, accepted, course, test⟩ := Sample.exists_course passed
  simp only [Bool.and_eq_true, beq_iff_eq, List.all_eq_true, Bool.not_eq_true',
    List.isEmpty_eq_false_iff, decide_eq_true_eq, Option.isSome_iff_exists] at test
  obtain ⟨⟨⟨⟨nonempty, weights⟩, labels⟩, size⟩, slot, found⟩ := test
  have less : ((dataset.size * 2 ^ 1074 : Nat) : Int) < infinityRank := by
    rw [size]
    decide +kernel
  obtain ⟨shares, -, light⟩ := Course.isDistribution_iff_isFinite accepted nonempty
    (fun e isExample => (weights e isExample).1) (by omega) Draws.bounded_zeros course
  have finite := light 1074 (by omega) less (fun e isExample => (weights e isExample).2) found
  obtain ⟨leaf, made, iff⟩ := shares found
  exact ⟨dataset, state, origins, slot, leaf, accepted, nonempty,
    fun e isExample => (weights e isExample).1, by omega, by omega, less,
    fun e isExample => (weights e isExample).2, course, found, made, finite, iff.mpr finite⟩

/-- Two examples with a finite weight each and a label each.  Together they weigh more than the
largest float, so the only leaf gives neither label a positive share. -/
theorem Course.no_positive_share :
    ∃ (dataset : Dataset Float) (final : State Float Nat) (tree : Tree Float) (leaf : Leaf Float),
      Dataset.ofTable (.many [.many [.one 0], .many [.one 1]])
        (.many [.one (.int 0), .one (.int 1)]) (some (.many [.one 1e308, .one 1e308])) none none =
          .ok dataset ∧
      dataset.examples ≠ [] ∧
      (∀ e ∈ dataset.examples, e.weight.isFinite = true ∧ Scalar.lt 0 e.weight = true) ∧
      run Sample.policy (.repeating []) dataset 0 = .ok final ∧
      final.forest.toTree dataset.labels.labels 0 = .ok tree ∧ tree.leafAt? [] = some leaf ∧
      ¬ IsDistribution leaf.distribution := by
  have passed : Outcome.passes (do
      let dataset ← Dataset.ofTable (.many [.many [.one (0 : Float)], .many [.one 1]])
        (.many [.one (.int 0), .one (.int 1)]) (some (.many [.one 1e308, .one 1e308])) none none
      let final ← run Sample.policy (.repeating []) dataset 0
      let tree ← final.forest.toTree dataset.labels.labels 0
      pure (dataset, tree)) (fun (dataset, tree) =>
        !dataset.examples.isEmpty &&
        (dataset.examples.all fun e => e.weight.isFinite && Scalar.lt 0 e.weight) &&
        (tree.leafAt? []).any fun leaf =>
          leaf.distribution.all fun share => !Scalar.lt 0 share) = true := by
    decide +kernel
  obtain ⟨⟨dataset, tree⟩, computed, test⟩ := Outcome.exists_of_passes passed
  obtain ⟨other, accepted, computed⟩ := Outcome.bind_eq_ok.mp computed
  obtain ⟨final, finished, computed⟩ := Outcome.bind_eq_ok.mp computed
  obtain ⟨found, converted, same⟩ := Outcome.bind_eq_ok.mp computed
  obtain ⟨rfl, rfl⟩ := Prod.mk.inj (Except.ok.inj same)
  simp only [Bool.and_eq_true, Bool.not_eq_true', List.isEmpty_eq_false_iff, List.all_eq_true,
    Option.any_eq_true] at test
  obtain ⟨⟨nonempty, weights⟩, leaf, leafFound, shares⟩ := test
  refine ⟨other, final, found, leaf, accepted, nonempty, weights, finished, converted, leafFound,
    ?_⟩
  rintro ⟨-, share, member, positive⟩
  rw [shares share member] at positive
  cases positive

end Growth

end DecisionTree
