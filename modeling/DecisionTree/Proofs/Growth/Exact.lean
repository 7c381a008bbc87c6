import Mathlib.Algebra.Order.BigOperators.Group.List
import DecisionTree.Proofs.Exact
import DecisionTree.Proofs.Growth.Conversion
import DecisionTree.Proofs.Growth.Termination

/-!
# Growth in exact arithmetic

Where nothing is rounded every threshold separates the values beside it, so growth ends and the
forest can be converted.  The histogram of every node is that of its examples, and so are the two
histograms that a search scores: they are those of the children.  Both are mixed enough to have
weight, and what they weigh is less than what the node weighs by at least the decrease that is asked
for (`Branching.gain`).
-/

namespace DecisionTree

variable {K : Type} [Field K] [LinearOrder K] [IsStrictOrderedRing K]

omit [IsStrictOrderedRing K] in
/-- The weight of a dataset is that of all its examples. -/
theorem Dataset.weightSum_eq (dataset : Dataset K) :
    dataset.weightSum = (dataset.indices.map dataset.weightAt).sum := by
  rw [weightSum, Exact.sum_eq]
  congr 1
  apply List.ext_getElem
  · simp [indices, size]
  · intro place inside _
    have isExample : place < dataset.examples.length := by simpa using inside
    simp [indices, weightAt, isExample]

omit [IsStrictOrderedRing K] in
/-- The weights of a label among some examples. -/
theorem Dataset.weightOf_labelled (dataset : Dataset K) (ids : List Int) (label : Nat) :
    Histogram.weightOf label 0 (ids.map dataset.targets.labelled) =
      ((ids.filter fun index => dataset.labelAt index == label).map dataset.weightAt).sum := by
  rw [Histogram.weightOf_eq, List.filter_map, List.map_map]
  simp only [Function.comp_def, Dataset.labelled_eq]

/-- No example has a negative weight. -/
theorem Dataset.FromRows.weight_nonneg {dataset : Dataset K} {rows : List (List K)}
    (fromRows : dataset.FromRows rows) {e : Example K} (isExample : e ∈ dataset.examples) :
    0 ≤ e.weight := by
  rcases fromRows.weight_eq_or e isExample with one | notNegative
  · rw [one]
    exact Nat.cast_nonneg 1
  · rw [Bool.eq_false_iff, ne_eq, Exact.lt_iff, not_lt] at notNegative
    exact notNegative

theorem Dataset.FromRows.weightAt_nonneg {dataset : Dataset K} {rows : List (List K)}
    (fromRows : dataset.FromRows rows) (index : Int) : 0 ≤ dataset.weightAt index := by
  unfold weightAt
  cases found : dataset.examples[index.toNat]? with
  | none => exact le_refl _
  | some e =>
      rw [Option.map_some, Option.getD_some]
      exact fromRows.weight_nonneg (List.mem_of_getElem? found)

/-- Nor has the dataset. -/
theorem Dataset.FromRows.weightSum_nonneg {dataset : Dataset K} {rows : List (List K)}
    (fromRows : dataset.FromRows rows) : 0 ≤ dataset.weightSum := by
  rw [weightSum, Exact.sum_eq]
  apply List.sum_nonneg
  intro weight member
  obtain ⟨e, isExample, rfl⟩ := List.mem_map.mp member
  exact fromRows.weight_nonneg isExample

/-- Where no example has a negative weight, no label has. -/
theorem Targets.tally_nonneg {targets : Targets K}
    (nonneg : ∀ index, 0 ≤ (targets.labelled index).2) (ids : List Int) :
    ∀ count ∈ targets.tally ids, 0 ≤ count := by
  intro count member
  rw [Targets.tally, Histogram.tally_eq_map] at member
  obtain ⟨label, -, rfl⟩ := List.mem_map.mp member
  rw [Histogram.weightOf_eq]
  apply List.sum_nonneg
  intro weight weightMember
  obtain ⟨item, itemMember, rfl⟩ := List.mem_map.mp weightMember
  obtain ⟨index, -, rfl⟩ := List.mem_map.mp (List.mem_of_mem_filter itemMember)
  exact nonneg index

/-- Nor has any label. -/
theorem Dataset.FromRows.tally_nonneg {dataset : Dataset K} {rows : List (List K)}
    (fromRows : dataset.FromRows rows) (ids : List Int) :
    ∀ count ∈ dataset.targets.tally ids, 0 ≤ count := by
  refine Targets.tally_nonneg (fun index => ?_) ids
  rw [Dataset.labelled_eq]
  exact fromRows.weightAt_nonneg index

omit [IsStrictOrderedRing K] in
/-- The entries of the histogram of some examples add up to their weight. -/
theorem Targets.Known.sum_tally {dataset : Dataset K} {count : Nat}
    (known : dataset.targets.Known count) {ids : List Int} (inRange : Targets.InRange count ids) :
    (dataset.targets.tally ids).sum = (ids.map dataset.weightAt).sum := by
  rw [Targets.tally, Histogram.sum_tally, List.map_map]
  · congr 1
    apply List.map_congr_left
    intro index _
    simp only [Function.comp_apply, Dataset.labelled_eq]
  · intro item member
    obtain ⟨index, isId, rfl⟩ := List.mem_map.mp member
    obtain ⟨nonneg, bounded⟩ := inRange index isId
    obtain ⟨label, labelNonneg, labelBounded, labelEq, -⟩ := known.item?_eq nonneg bounded
    omega

namespace Growth

theorem pureBound_pos : (0 : K) < pureBound := by
  have decimal : (pureBound : K) = (1 : Nat) / 10 ^ 10 := rfl
  rw [decimal]
  positivity

variable {σ : Type} {policy : Policy K} {draws : Draws σ} {dataset : Dataset K} {source : σ}
variable {rows : List (List K)} {state : State K σ} {origins : List (Origin K)}

/-- In exact arithmetic every threshold separates the values beside it. -/
theorem Ground.separated (ground : Ground K) : ground.Separated := by
  intro origins id left right place node origin cut column lower upper originSound branching
  rw [branching.division.between.threshold_eq]
  exact Exact.separates_midpoint (branching.values_lt originSound)

omit [IsStrictOrderedRing K] in
/-- The histogram of every node is that of its examples. -/
theorem Slot.Sound.counts_tally {id : Nat} {slot : Slot K} {origin : Origin K}
    (sound : slot.Sound (groundOf policy dataset rows) origins id origin)
    (root : id = 0 → origin.ids = dataset.indices) :
    slot.node.counts = dataset.targets.tally origin.ids := by
  rw [sound.counts_eq, Origin.counts]
  split
  next isRoot =>
    rw [root isRoot]
    rfl
  next notRoot =>
    obtain ⟨column, rest, whole⟩ := List.exists_cons_of_ne_nil (sound.columns_ne_nil notRoot)
    have describes := sound.origin_sound.columnsOf.describes 0 column (by rw [whole]; rfl)
    rw [whole]
    exact describes.counts_eq

/-- A histogram that is not pure has positive weight. -/
theorem weight_pos {measure : Measure K} {counts : List K} (nonneg : ∀ count ∈ counts, 0 ≤ count)
    (mixed : pureBound < measure.weighted counts) : 0 < Scalar.sum counts := by
  have atLeast : 0 ≤ Scalar.sum counts := by
    rw [Exact.sum_eq]
    exact List.sum_nonneg nonneg
  refine lt_of_le_of_ne atLeast fun weightless => ?_
  have positive := lt_trans pureBound_pos mixed
  rw [Measure.weighted, ← weightless, mul_zero] at positive
  exact lt_irrefl _ positive

/-- What the children of a node weigh together is less than what the node weighs by at least the
decrease that is asked for, and neither child is pure. -/
theorem Branching.gain {id left right place : Nat} {node : Node K} {origin : Origin K} {cut : Cut K}
    {column : Column K} {lower upper : Entry K} (fromRows : dataset.FromRows rows)
    (originSound : origin.Sound (groundOf policy dataset rows))
    (branching : Branching (groundOf policy dataset rows) origins id node origin left right cut
      column place lower upper)
    (counts : node.counts = dataset.targets.tally origin.ids)
    (impurity : node.impurity = policy.measure.impurity node.counts) :
    ∃ less greater, origins[left]? = some less ∧ origins[right]? = some greater ∧
      (less.ids ++ greater.ids).Perm origin.ids ∧
      pureBound < policy.measure.weighted (dataset.targets.tally less.ids) ∧
      pureBound < policy.measure.weighted (dataset.targets.tally greater.ids) ∧
      leastDecrease policy dataset + policy.measure.weighted (dataset.targets.tally less.ids) +
          policy.measure.weighted (dataset.targets.tally greater.ids) ≤
        policy.measure.weighted (dataset.targets.tally origin.ids) := by
  obtain ⟨less, greater, lessFound, greaterFound, whole, coincide⟩ :=
    branching.coincide_iff fromRows originSound
  obtain ⟨lessPerm, greaterPerm, -⟩ :=
    coincide.mpr (Ground.separated _ originSound branching)
  have describes := branching.describes_cells fromRows originSound
  obtain ⟨score, ⟨above, isAbove, scored⟩, enough⟩ := branching.rewarded
  rw [counts] at isAbove scored
  rw [describes.lessAt_eq (Targets.length_tally _ _), describes.greaterAt_eq isAbove,
    ← Targets.tally_perm lessPerm, ← Targets.tally_perm greaterPerm] at scored
  obtain ⟨lessMixed, greaterMixed, scoreEq⟩ := score?_eq_some.mp scored
  rw [Exact.lt_iff] at lessMixed greaterMixed
  refine ⟨less, greater, lessFound, greaterFound, whole, lessMixed, greaterMixed, ?_⟩
  have lessRange := originSound.inRange.of_subset fun index member =>
    whole.mem_iff.mp (List.mem_append_left _ member)
  have greaterRange := originSound.inRange.of_subset fun index member =>
    whole.mem_iff.mp (List.mem_append_right _ member)
  have known := fromRows.known
  have weightSum : node.weightSum = Scalar.sum (dataset.targets.tally less.ids) +
      Scalar.sum (dataset.targets.tally greater.ids) := by
    rw [Node.weightSum, counts, Exact.sum_eq, Exact.sum_eq, Exact.sum_eq,
      known.sum_tally originSound.inRange, known.sum_tally lessRange, known.sum_tally greaterRange,
      ← List.sum_append, ← List.map_append]
    exact (whole.map _).sum_eq.symm
  have positive : 0 < node.weightSum := by
    rw [weightSum]
    exact add_pos (weight_pos (fromRows.tally_nonneg _) lessMixed)
      (weight_pos (fromRows.tally_nonneg _) greaterMixed)
  have worth : node.weightSum * score = policy.measure.weighted (dataset.targets.tally less.ids) +
      policy.measure.weighted (dataset.targets.tally greater.ids) := by
    rw [scoreEq]
    exact mul_div_cancel₀ _ (ne_of_gt positive)
  have weighs : node.weightSum * node.impurity =
      policy.measure.weighted (dataset.targets.tally origin.ids) := by
    rw [impurity, Node.weightSum, counts, mul_comm]
    rfl
  rw [Exact.le_iff, Node.decrease, mul_sub, worth, weighs] at enough
  rw [add_assoc]
  exact le_sub_iff_add_le.mp enough

namespace Course

variable (fromRows : dataset.FromRows rows) (bounded : draws.Bounded)
variable (course : Course policy draws dataset source state origins)

include fromRows bounded course

omit [IsStrictOrderedRing K] in
/-- The histogram of every node on the course is that of its examples. -/
theorem counts_tally {id : Nat} {slot : Slot K} {origin : Origin K}
    (found : state.forest.slots[id]? = some slot) (originFound : origins[id]? = some origin) :
    slot.node.counts = dataset.targets.tally origin.ids := by
  have slotSound :=
    (course.sound fromRows bounded).forest_sound.slots id slot origin found originFound
  apply slotSound.counts_tally
  rintro rfl
  obtain ⟨root, rootFound, rootIds⟩ := course.root_origin
  rw [rootFound] at originFound
  obtain rfl := Option.some.inj originFound
  exact rootIds

omit [IsStrictOrderedRing K] in
/-- So is its impurity. -/
theorem impurity_eq {id : Nat} {slot : Slot K} {origin : Origin K}
    (found : state.forest.slots[id]? = some slot) (originFound : origins[id]? = some origin) :
    slot.node.impurity = policy.measure.impurity (dataset.targets.tally origin.ids) := by
  have slotSound :=
    (course.sound fromRows bounded).forest_sound.slots id slot origin found originFound
  rw [slotSound.impurity_eq, course.counts_tally fromRows bounded found originFound]
  rfl

/-- Every leaf is made from a node whose examples are the rows that reach the leaf. -/
theorem exists_leaf_node {labels : List Label} {tree : Tree K} {path : List Bool} {leaf : Leaf K}
    (converted : state.forest.toTree labels 0 = .ok tree)
    (leafFound : tree.leafAt? path = some leaf) :
    ∃ (last : Nat) (node : Node K) (origin : Origin K),
      state.forest.slots[last]? = some { node, children := none } ∧
      origins[last]? = some origin ∧ node.toLeaf labels = .ok leaf ∧
      origin.ids.Perm (tree.reaching rows dataset.indices path) := by
  have sound := (course.sound fromRows bounded).forest_sound
  obtain ⟨root, rootFound, rootIds⟩ := course.root_origin
  obtain ⟨last, node, origin, -, ending, originFound, madeEq, examples⟩ :=
    sound.leaf_examples fromRows (Ground.separated _) converted rootFound leafFound
  have distinct := (sound.slots last _ origin ending originFound).origin_sound.nodup
  refine ⟨last, node, origin, ending, originFound, madeEq,
    (List.perm_ext_iff_of_nodup distinct
      ((Dataset.nodup_indices dataset).filter _)).mpr fun index => ?_⟩
  rw [examples index, rootIds, List.mem_filter, beq_iff_eq]

/-- Growth in exact arithmetic ends. -/
theorem exists_finish :
    ∃ final ledger, finish policy draws dataset state = .ok final ∧
      Course policy draws dataset source final ledger := by
  obtain ⟨final, ended⟩ := course.grow_of_separated fromRows bounded (Ground.separated _)
  have enough := grow_add ended (policy.maxDepth.getD (1 <<< 20))
  have bound : dataset.size + 1 + policy.maxDepth.getD (1 <<< 20) = levelBound policy dataset := by
    rw [levelBound]
    omega
  rw [bound] at enough
  obtain ⟨ledger, finished, -⟩ := course.grow enough
  exact ⟨final, ledger, enough, finished⟩

end Course

end Growth

end DecisionTree
