import Mathlib.Algebra.BigOperators.Ring.List
import DecisionTree.Proofs.Growth.Leaves

/-!
# What the splits of a tree take away

Every split lowers what the examples weigh, impurity times weight, by at least the decrease that is
asked for.  Along a tree these steps add up: what the leaves weigh and one decrease for each split
is at most what the root weighs (`Course.sum_leafWeights_le`).  With the Gini impurity this bounds
the number of splits, however many examples there are (`leaf_impurities_add_up`).
-/

namespace DecisionTree

namespace Tree

variable {α : Type}

def splitCount : Tree α → Nat
  | .leaf _ => 0
  | .split _ _ _ left right => left.splitCount + right.splitCount + 1

/-- The impurity of the root. -/
def impurity : Tree α → α
  | .leaf reached => reached.impurity
  | .split _ _ impurity _ _ => impurity

end Tree

namespace Growth

section Exact

variable {K : Type} [Field K] [LinearOrder K] [IsStrictOrderedRing K]
variable {σ : Type} {policy : Policy K} {draws : Draws σ} {dataset : Dataset K} {source : σ}
variable {rows : List (List K)} {state : State K σ} {origins : List (Origin K)}

/-- What the leaves of a tree weigh, each with the rows that reach it. -/
def leafWeights (measure : Measure K) (dataset : Dataset K) (rows : List (List K)) (tree : Tree K)
    (ids : List Int) : List K :=
  tree.leaves.map fun (path, _) =>
    measure.weighted (dataset.targets.tally (tree.reaching rows ids path))

omit [IsStrictOrderedRing K] in
/-- The leaves of a split are those of its sides. -/
theorem leafWeights_split {measure : Measure K} {feature : Int} {threshold impurity : K}
    {below above : Tree K} {ids : List Int} {less greater : Origin K} (distinct : ids.Nodup)
    (lessDistinct : less.ids.Nodup) (greaterDistinct : greater.ids.Nodup)
    (route : ∀ (index : Int) (goesLeft : Bool) (path : List Bool),
      index ∈ (if goesLeft then less else greater).ids ∧
          (if goesLeft then below else above).route? (rows.getD index.toNat []) = some path ↔
        index ∈ ids ∧ (Tree.split feature threshold impurity below above).route?
          (rows.getD index.toNat []) = some (goesLeft :: path)) :
    leafWeights measure dataset rows (.split feature threshold impurity below above) ids =
      leafWeights measure dataset rows below less.ids ++
        leafWeights measure dataset rows above greater.ids := by
  have sides : ∀ (goesLeft : Bool) (path : List Bool),
      dataset.targets.tally ((Tree.split feature threshold impurity below above).reaching rows ids
          (goesLeft :: path)) =
        dataset.targets.tally ((if goesLeft then below else above).reaching rows
          (if goesLeft then less else greater).ids path) := by
    intro goesLeft path
    have sideDistinct : (if goesLeft then less else greater).ids.Nodup := by
      cases goesLeft <;> assumption
    refine Targets.tally_perm ((List.perm_ext_iff_of_nodup (distinct.filter _)
      (sideDistinct.filter _)).mpr fun index => ?_)
    rw [List.mem_filter, List.mem_filter, beq_iff_eq, beq_iff_eq]
    exact (route index goesLeft path).symm
  simp only [leafWeights, Tree.leaves, List.map_append, List.map_map]
  congr 1
  · apply List.map_congr_left
    rintro ⟨path, reached⟩ -
    exact congrArg measure.weighted (sides true path)
  · apply List.map_congr_left
    rintro ⟨path, reached⟩ -
    exact congrArg measure.weighted (sides false path)

/-- What the leaves of a tree weigh, and one decrease for each split, is at most what the root
weighs. -/
theorem Course.sum_leafWeights_le (fromRows : dataset.FromRows rows) (bounded : draws.Bounded)
    (course : Course policy draws dataset source state origins) {labels : List Label}
    {id steps : Nat} {tree : Tree K} {origin : Origin K}
    (converted : state.forest.treeWithin labels steps id = .ok tree)
    (originFound : origins[id]? = some origin) :
    (leafWeights policy.measure dataset rows tree origin.ids).sum +
        tree.splitCount * leastDecrease policy dataset ≤
      policy.measure.weighted (dataset.targets.tally origin.ids) := by
  have sound := (course.sound fromRows bounded).forest_sound
  apply sound.tree_induction fromRows (Ground.separated _) ?leaf ?split converted originFound
  case leaf =>
    intro id node origin made _ _ _
    have all : (Tree.leaf made).reaching rows origin.ids [] = origin.ids :=
      List.filter_eq_self.mpr fun index _ => rfl
    simp [leafWeights, Tree.leaves, Tree.splitCount, all]
  case split =>
    intro id left right place node origin less greater cut column lower upper below above found
      originFound originSound branching lessFound greaterFound whole route leftIh rightIh
    have slotSound := sound.slots id _ origin found originFound
    obtain ⟨first, second, firstFound, secondFound, -, -, -, gain⟩ := branching.gain fromRows
      originSound (course.counts_tally fromRows bounded found originFound) slotSound.impurity_eq
    obtain rfl := Option.some.inj (lessFound.symm.trans firstFound)
    obtain rfl := Option.some.inj (greaterFound.symm.trans secondFound)
    obtain ⟨lessDistinct, greaterDistinct, -⟩ :=
      List.nodup_append.mp (whole.nodup_iff.mpr originSound.nodup)
    rw [leafWeights_split originSound.nodup lessDistinct greaterDistinct route, List.sum_append,
      Tree.splitCount]
    push_cast
    linarith

/-- The impurity of the root is that of all examples, and the impurity of a leaf that of the rows
which reach it. -/
theorem Course.impurities (fromRows : dataset.FromRows rows) (bounded : draws.Bounded)
    (course : Course policy draws dataset source state origins) {labels : List Label}
    {tree : Tree K} (converted : state.forest.toTree labels 0 = .ok tree) :
    tree.impurity = policy.measure.impurity (dataset.targets.tally dataset.indices) ∧
      ∀ path leaf, tree.leafAt? path = some leaf →
        leaf.impurity = policy.measure.impurity
          (dataset.targets.tally (tree.reaching rows dataset.indices path)) := by
  have sound := (course.sound fromRows bounded).forest_sound
  constructor
  · obtain ⟨root, rootFound, rootIds⟩ := course.root_origin
    rw [← rootIds]
    refine sound.tree_induction fromRows (Ground.separated _)
      (motive := fun _ origin tree =>
        tree.impurity = policy.measure.impurity (dataset.targets.tally origin.ids))
      ?leaf ?split converted rootFound
    case leaf =>
      intro id node origin made found originFound madeEq
      rw [Tree.impurity, (Node.of_toLeaf madeEq).1]
      exact course.impurity_eq fromRows bounded found originFound
    case split =>
      intro id left right place node origin less greater cut column lower upper below above found
        originFound _ _ _ _ _ _ _ _
      exact course.impurity_eq fromRows bounded found originFound
  · intro path leaf leafFound
    obtain ⟨last, node, origin, ending, originFound, madeEq, perm⟩ :=
      course.exists_leaf_node fromRows bounded converted leafFound
    rw [(Node.of_toLeaf madeEq).1, course.impurity_eq fromRows bounded ending originFound,
      Targets.tally_perm perm]

end Exact

end Growth

/-- The Gini impurity of the labels of some examples; zero if they have no weight. -/
def Dataset.giniOf (dataset : Dataset ℚ) (ids : List Int) : ℚ :=
  if 0 < dataset.weightOf ids then 1 - ((dataset.shares ids).map fun share => share * share).sum
  else 0

/-- Shares that add up to one have squares that add up to at most one. -/
theorem sum_squares_mem_Icc {shares : List ℚ} (nonneg : ∀ share ∈ shares, 0 ≤ share)
    (whole : shares.sum = 1) : (shares.map fun share => share * share).sum ∈ Set.Icc 0 1 := by
  constructor
  · apply List.sum_nonneg
    intro square member
    obtain ⟨share, -, rfl⟩ := List.mem_map.mp member
    exact mul_self_nonneg share
  · calc (shares.map fun share => share * share).sum ≤ (shares.map id).sum := by
          apply List.sum_le_sum
          intro share member
          have atMost : share ≤ 1 := whole ▸ List.single_le_sum nonneg share member
          exact mul_le_of_le_one_left (nonneg share member) atMost
      _ = 1 := by rw [List.map_id, whole]

namespace Dataset.FromRows

variable {dataset : Dataset ℚ} {rows : List (List ℚ)} {ids : List Int}

theorem weightOf_nonneg (fromRows : dataset.FromRows rows) (ids : List Int) :
    0 ≤ dataset.weightOf ids := by
  apply List.sum_nonneg
  intro weight member
  obtain ⟨index, -, rfl⟩ := List.mem_map.mp member
  exact fromRows.weightAt_nonneg index

/-- Over examples with weight the shares are what the histogram is divided into. -/
theorem shares_eq (fromRows : dataset.FromRows rows) (inRange : Targets.InRange dataset.size ids)
    (heavy : 0 < dataset.weightOf ids) :
    dataset.shares ids = (dataset.targets.tally ids).map (· / dataset.weightOf ids) := by
  have total := dataset.sum_tally fromRows.known inRange
  rw [← Growth.Node.distribution_tally fromRows.known inRange, Growth.Node.distribution]
  simp only [total, Exact.lt_iff.mpr heavy, if_true]

theorem gini_tally (fromRows : dataset.FromRows rows)
    (inRange : Targets.InRange dataset.size ids) :
    Measure.gini.impurity (dataset.targets.tally ids) = dataset.giniOf ids := by
  have total := dataset.sum_tally fromRows.known inRange
  simp only [Measure.gini, Measure.giniImpurity, Measure.ofProportions, total, giniOf,
    Exact.le_iff]
  by_cases heavy : 0 < dataset.weightOf ids
  · rw [if_neg (not_le_of_gt heavy), if_pos heavy, Exact.sum_eq,
      fromRows.shares_eq inRange heavy]
    rfl
  · rw [if_pos (not_lt.mp heavy), if_neg heavy]

theorem weighted_gini_tally (fromRows : dataset.FromRows rows)
    (inRange : Targets.InRange dataset.size ids) :
    Measure.gini.weighted (dataset.targets.tally ids) =
      dataset.weightOf ids * dataset.giniOf ids := by
  rw [Measure.weighted, fromRows.gini_tally inRange, dataset.sum_tally fromRows.known inRange,
    mul_comm]

/-- The Gini impurity lies between zero and one. -/
theorem giniOf_mem_Icc (fromRows : dataset.FromRows rows)
    (inRange : Targets.InRange dataset.size ids) : dataset.giniOf ids ∈ Set.Icc 0 1 := by
  unfold giniOf
  split
  next heavy =>
    rw [fromRows.shares_eq inRange heavy]
    have nonneg : ∀ share ∈ (dataset.targets.tally ids).map (· / dataset.weightOf ids),
        0 ≤ share := by
      intro share member
      obtain ⟨count, countMember, rfl⟩ := List.mem_map.mp member
      exact div_nonneg (fromRows.tally_nonneg ids count countMember) (le_of_lt heavy)
    have whole : ((dataset.targets.tally ids).map (· / dataset.weightOf ids)).sum = 1 := by
      have total : (dataset.targets.tally ids).sum = dataset.weightOf ids := by
        rw [← Exact.sum_eq, dataset.sum_tally fromRows.known inRange]
      simp only [div_eq_mul_inv]
      rw [List.sum_map_mul_right, List.map_id', total]
      exact mul_inv_cancel₀ (ne_of_gt heavy)
    obtain ⟨atLeast, atMost⟩ := sum_squares_mem_Icc nonneg whole
    constructor <;> linarith
  next => exact ⟨le_refl 0, zero_le_one⟩

end Dataset.FromRows

namespace Growth

variable {σ : Type}

/-- With the Gini impurity no leaf weighs less than nothing. -/
theorem leafWeights_gini_nonneg {dataset : Dataset ℚ} {rows : List (List ℚ)}
    (fromRows : dataset.FromRows rows) {ids : List Int}
    (inRange : Targets.InRange dataset.size ids) (tree : Tree ℚ) :
    ∀ weight ∈ leafWeights .gini dataset rows tree ids, 0 ≤ weight := by
  intro weight member
  obtain ⟨⟨path, leaf⟩, -, rfl⟩ := List.mem_map.mp member
  have reaching : Targets.InRange dataset.size (tree.reaching rows ids path) :=
    inRange.of_subset fun _ => List.mem_of_mem_filter
  dsimp only
  rw [fromRows.weighted_gini_tally reaching]
  exact mul_nonneg (fromRows.weightOf_nonneg _) (fromRows.giniOf_mem_Icc reaching).1

/-- Growth with the Gini impurity over an accepted table of rational numbers that has weight,
whatever the other rules and whatever is drawn: the impurities of the leaves, each times the weight
of the rows that reach it, and the least decrease for each split, both as shares of the whole
weight, add up to at most the impurity of the root.  So a positive least decrease bounds the number
of splits, whatever the table. -/
theorem leaf_impurities_add_up {values : Nested ℚ} {labels : Nested Label}
    {weights : Option (Nested ℚ)} {names : Option Setting} {table : Option LabelTable}
    {dataset : Dataset ℚ}
    (accepted : Dataset.ofTable values labels weights names table = .ok dataset)
    (heavy : 0 < dataset.weightSum) (policy : Policy ℚ) (gini : policy.measure = .gini)
    {draws : Draws σ} (bounded : draws.Bounded) (source : σ) :
    ∃ width rows, values.grid = .ok (.table width rows) ∧
      (dataset.features.size ≤ 2 ^ 63 →
        ∃ state : State ℚ σ, start policy.measure dataset source = .ok state) ∧
      ∀ state, start policy.measure dataset source = .ok state →
        ∃ final tree, finish policy draws dataset state = .ok final ∧
          final.forest.toTree dataset.labels.labels 0 = .ok tree ∧
          (tree.leaves.map fun (path, leaf) =>
              dataset.weightOf (tree.reaching rows dataset.indices path) * leaf.impurity).sum +
            tree.splitCount * policy.minDecrease * dataset.weightSum ≤
              dataset.weightSum * tree.impurity ∧
          tree.impurity = dataset.giniOf dataset.indices ∧
          (∀ path leaf, tree.leafAt? path = some leaf →
            leaf.impurity = dataset.giniOf (tree.reaching rows dataset.indices path)) ∧
          tree.splitCount * policy.minDecrease ≤ tree.impurity ∧
          (0 < policy.minDecrease → tree.splitCount ≤ 1 / policy.minDecrease) := by
  obtain ⟨width, rows, grid, fromRows⟩ := Dataset.fromRows_of_ofTable accepted
  refine ⟨width, rows, grid, fun narrow => exists_start fromRows narrow _ _, ?_⟩
  intro state started
  have nonempty : dataset.examples ≠ [] := by
    intro empty
    rw [Dataset.weightSum, empty, Exact.sum_eq] at heavy
    exact lt_irrefl _ heavy
  obtain ⟨final, origins, finished, course⟩ :=
    (Course.start started).exists_finish fromRows bounded
  obtain ⟨tree, converted⟩ := course.exists_tree fromRows bounded nonempty
  obtain ⟨root, rootFound, rootIds⟩ := course.root_origin
  have inRange := Dataset.inRange_indices dataset
  have reachingInRange : ∀ path, Targets.InRange dataset.size
      (tree.reaching rows dataset.indices path) := fun path =>
    inRange.of_subset fun _ => List.mem_of_mem_filter
  obtain ⟨rootImpurity, leafImpurity⟩ := course.impurities fromRows bounded converted
  rw [gini, fromRows.gini_tally inRange] at rootImpurity
  have leafGini : ∀ path leaf, tree.leafAt? path = some leaf →
      leaf.impurity = dataset.giniOf (tree.reaching rows dataset.indices path) := by
    intro path leaf leafFound
    rw [leafImpurity path leaf leafFound, gini, fromRows.gini_tally (reachingInRange path)]
  -- what the leaves weigh, in terms of the rows that reach them
  have leafWeights_eq : leafWeights .gini dataset rows tree dataset.indices =
      tree.leaves.map fun (path, leaf) =>
        dataset.weightOf (tree.reaching rows dataset.indices path) * leaf.impurity := by
    apply List.map_congr_left
    rintro ⟨path, leaf⟩ member
    dsimp only
    rw [leafGini path leaf (Tree.mem_leaves.mp member),
      fromRows.weighted_gini_tally (reachingInRange path)]
  have nonneg : 0 ≤ (leafWeights .gini dataset rows tree dataset.indices).sum :=
    List.sum_nonneg (leafWeights_gini_nonneg fromRows inRange tree)
  have telescoped := course.sum_leafWeights_le fromRows bounded converted rootFound
  have whole : dataset.weightOf dataset.indices = dataset.weightSum := dataset.weightSum_eq.symm
  rw [rootIds, gini, fromRows.weighted_gini_tally inRange, whole, ← rootImpurity, leastDecrease,
    ← mul_assoc] at telescoped
  rw [leafWeights_eq] at nonneg telescoped
  have splits : tree.splitCount * policy.minDecrease ≤ tree.impurity := by
    refine le_of_mul_le_mul_right ?_ heavy
    linarith
  refine ⟨final, tree, finished, converted, telescoped, rootImpurity, leafGini, splits, ?_⟩
  intro positive
  rw [le_div_iff₀ positive]
  exact splits.trans (rootImpurity ▸ (fromRows.giniOf_mem_Icc inRange).2)

/-- Splits have to lower the impurity by an eighth. -/
def Sample.demanding : Policy ℚ :=
  { Sample.policy with minDecrease := 1 / 8 }

/-- The sample is divided once, if the least decrease is the eighth by which that lowers the
impurity: what the leaves keep and what the split takes away is all that the root has. -/
theorem leaf_impurities_add_up_sample :
    ∃ (dataset : Dataset ℚ) (final : State ℚ Nat) (tree : Tree ℚ),
      Dataset.ofTable (Sample.values 0 1) Sample.labels none none none = .ok dataset ∧
      0 < dataset.weightSum ∧
      run Sample.demanding (.repeating []) dataset 0 = .ok final ∧
      final.forest.toTree dataset.labels.labels 0 = .ok tree ∧
      tree.splitCount = 1 ∧ tree.impurity = 1 / 2 ∧
      (tree.leaves.map fun (path, leaf) => dataset.weightOf
            (tree.reaching (Sample.rows 0 1) dataset.indices path) * leaf.impurity).sum +
          tree.splitCount * (1 / 8) * dataset.weightSum ≤ dataset.weightSum * tree.impurity ∧
      tree.splitCount ≤ 1 / (1 / 8 : ℚ) := by
  have passed : Outcome.passes (do
      let dataset ← Dataset.ofTable (Sample.values (0 : ℚ) 1) Sample.labels none none none
      let state ← start Sample.demanding.measure dataset 0
      let final ← finish Sample.demanding (.repeating []) dataset state
      let tree ← final.forest.toTree dataset.labels.labels 0
      pure (dataset, tree)) (fun (dataset, tree) =>
        decide (0 < dataset.weightSum) && tree.splitCount == 1 && tree.impurity == 1 / 2) =
        true := by
    decide +kernel
  obtain ⟨⟨dataset, tree⟩, computed, test⟩ := Outcome.exists_of_passes passed
  obtain ⟨other, accepted, computed⟩ := Outcome.bind_eq_ok.mp computed
  obtain ⟨state, started, computed⟩ := Outcome.bind_eq_ok.mp computed
  obtain ⟨final, finished, computed⟩ := Outcome.bind_eq_ok.mp computed
  obtain ⟨found, converted, same⟩ := Outcome.bind_eq_ok.mp computed
  obtain ⟨rfl, rfl⟩ := Prod.mk.inj (Except.ok.inj same)
  simp only [Bool.and_eq_true, decide_eq_true_eq, beq_iff_eq] at test
  obtain ⟨⟨heavy, splits⟩, impurity⟩ := test
  obtain ⟨width, rows, grid, -, grown⟩ := leaf_impurities_add_up accepted heavy
    Sample.demanding rfl Draws.bounded_zeros 0
  obtain rfl := Sample.rows_eq grid
  obtain ⟨last, grownTree, lastEq, treeEq, telescoped, -, -, -, few⟩ := grown state started
  obtain rfl := Except.ok.inj (finished.symm.trans lastEq)
  obtain rfl := Except.ok.inj (converted.symm.trans treeEq)
  exact ⟨other, final, found, accepted, heavy, Outcome.bind_eq_ok.mpr ⟨state, started, finished⟩,
    converted, splits, impurity, telescoped, few (by norm_num [Sample.demanding])⟩

end Growth

end DecisionTree
