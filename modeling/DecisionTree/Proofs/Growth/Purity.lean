import DecisionTree.Proofs.Growth.Exact
import DecisionTree.Proofs.Measure

/-!
# No pure part

A search passes over boundaries that have a pure side.  If the impurity measure vanishes on pure
histograms then every child of a split holds examples of two labels with positive weight
(`Course.two_le_support`).  So every node of a tree but its root does, unless the tree is a single
leaf; and since the leaves share the examples among them, there are at most half as many leaves as
examples (`no_pure_part`).
-/

namespace DecisionTree

variable {K : Type} [Field K] [LinearOrder K]

/-- Of numbers that pass a test twice, two different ones pass it. -/
theorem exists_ne_of_two_le_countP {count : Nat} {test : Nat → Bool}
    (twice : 2 ≤ (List.range count).countP test) :
    ∃ first second, first ≠ second ∧ test first = true ∧ test second = true := by
  have distinct : ((List.range count).filter test).Nodup := List.nodup_range.filter test
  have passes : ∀ number ∈ (List.range count).filter test, test number = true :=
    fun number member => (List.mem_filter.mp member).2
  rw [List.countP_eq_length_filter] at twice
  generalize (List.range count).filter test = passing at distinct passes twice
  match passing with
  | [] => cases twice
  | [_] => exact absurd twice (by simp)
  | first :: second :: _ =>
      have differ := (List.pairwise_cons.mp distinct).1 second List.mem_cons_self
      exact ⟨first, second, differ, passes first List.mem_cons_self,
        passes second (List.mem_cons_of_mem _ List.mem_cons_self)⟩

/-- Two of some examples have different labels and positive weight. -/
def Dataset.Mixed (dataset : Dataset K) (ids : List Int) : Prop :=
  ∃ first ∈ ids, ∃ second ∈ ids, dataset.labelAt first ≠ dataset.labelAt second ∧
    0 < dataset.weightAt first ∧ 0 < dataset.weightAt second

namespace Dataset

variable {dataset : Dataset K} {ids others : List Int}

theorem Mixed.mono (mixed : dataset.Mixed ids) (subset : ∀ index ∈ ids, index ∈ others) :
    dataset.Mixed others := by
  obtain ⟨first, firstMember, second, secondMember, properties⟩ := mixed
  exact ⟨first, subset first firstMember, second, subset second secondMember, properties⟩

theorem Mixed.two_le_length (mixed : dataset.Mixed ids) : 2 ≤ ids.length := by
  obtain ⟨first, firstMember, second, secondMember, differ, -⟩ := mixed
  have distinct : [first, second].Nodup := by
    rw [List.nodup_cons, List.mem_singleton]
    exact ⟨fun same => differ (congrArg dataset.labelAt same), List.nodup_singleton second⟩
  have subset : [first, second] ⊆ ids := by
    intro index member
    rcases List.mem_pair.mp member with rfl | rfl <;> assumption
  exact (distinct.subperm subset).length_le

variable [IsStrictOrderedRing K]

/-- A label that has weight in the histogram of some examples has an example with weight. -/
theorem exists_of_weightOf_pos {label : Nat}
    (positive : 0 < Histogram.weightOf label 0 (ids.map dataset.targets.labelled)) :
    ∃ index ∈ ids, dataset.labelAt index = label ∧ 0 < dataset.weightAt index := by
  rw [Histogram.weightOf_eq] at positive
  have zero : ∀ items : List (Nat × K), (items.map fun _ => (0 : K)).sum = 0 := by simp
  rw [← zero] at positive
  obtain ⟨item, member, heavy⟩ := List.exists_lt_of_sum_lt _ _ positive
  obtain ⟨itemMember, isLabel⟩ := List.mem_filter.mp member
  obtain ⟨index, isId, rfl⟩ := List.mem_map.mp itemMember
  rw [labelled_eq] at isLabel heavy
  exact ⟨index, isId, beq_iff_eq.mp isLabel, heavy⟩

/-- Examples are mixed if their histogram has weight at two labels. -/
theorem mixed_of_support (support : 2 ≤ Histogram.support (dataset.targets.tally ids)) :
    dataset.Mixed ids := by
  rw [Histogram.support, Targets.tally, Histogram.tally_eq_map, List.countP_map] at support
  obtain ⟨first, second, differ, firstHeavy, secondHeavy⟩ := exists_ne_of_two_le_countP support
  simp only [Function.comp_apply, decide_eq_true_eq] at firstHeavy secondHeavy
  obtain ⟨index, member, rfl, heavy⟩ := exists_of_weightOf_pos firstHeavy
  obtain ⟨other, otherMember, rfl, otherHeavy⟩ := exists_of_weightOf_pos secondHeavy
  exact ⟨index, member, other, otherMember, differ, heavy, otherHeavy⟩

end Dataset

namespace Tree

variable {α : Type}

/-- Those of some rows that take a path, and may go on from its end. -/
def passing [Scalar α] (tree : Tree α) (rows : List (List α)) (ids : List Int)
    (path : List Bool) : List Int :=
  ids.filter fun index =>
    (tree.route? (rows.getD index.toNat [])).any fun taken => decide (path <+: taken)

theorem mem_passing [Scalar α] {tree : Tree α} {rows : List (List α)} {ids : List Int}
    {path : List Bool} {index : Int} :
    index ∈ tree.passing rows ids path ↔
      index ∈ ids ∧ ∃ rest, tree.route? (rows.getD index.toNat []) = some (path ++ rest) := by
  simp only [passing, List.mem_filter, Option.any_eq_true, decide_eq_true_eq]
  constructor
  · rintro ⟨member, taken, routed, rest, rfl⟩
    exact ⟨member, rest, routed⟩
  · rintro ⟨member, rest, routed⟩
    exact ⟨member, _, routed, List.prefix_append path rest⟩

end Tree

/-- Some rows take paths through a tree, and those that pass through a part of it are mixed. -/
structure Dataset.MixedParts (dataset : Dataset K) (rows : List (List K)) (tree : Tree K)
    (ids : List Int) : Prop where
  routed : ∀ index ∈ ids, ∃ path, tree.route? (rows.getD index.toNat []) = some path
  parts : ∀ path inner, path ≠ [] → tree.subtreeAt? path = some inner →
    dataset.Mixed (tree.passing rows ids path)

namespace Dataset.MixedParts

variable {dataset : Dataset K} {rows : List (List K)} {ids : List Int}

theorem leaf (dataset : Dataset K) (rows : List (List K)) (reached : Leaf K) (ids : List Int) :
    dataset.MixedParts rows (.leaf reached) ids where
  routed := fun _ _ => ⟨[], rfl⟩
  parts := by
    intro path inner notEmpty found
    cases path with
    | nil => exact absurd rfl notEmpty
    | cons goesLeft path => simp [Tree.subtreeAt?] at found

/-- The parts of a split are its sides and their parts. -/
theorem split {feature : Int} {threshold impurity : K} {below above : Tree K}
    {less greater : Growth.Origin K} (whole : (less.ids ++ greater.ids).Perm ids)
    (route : ∀ (index : Int) (goesLeft : Bool) (path : List Bool),
      index ∈ (if goesLeft then less else greater).ids ∧
          (if goesLeft then below else above).route? (rows.getD index.toNat []) = some path ↔
        index ∈ ids ∧ (Tree.split feature threshold impurity below above).route?
          (rows.getD index.toNat []) = some (goesLeft :: path))
    (mixed : ∀ goesLeft : Bool, dataset.Mixed (if goesLeft then less else greater).ids)
    (sides : ∀ goesLeft : Bool, dataset.MixedParts rows (if goesLeft then below else above)
      (if goesLeft then less else greater).ids) :
    dataset.MixedParts rows (.split feature threshold impurity below above) ids where
  routed := by
    intro index member
    have side : ∃ goesLeft : Bool, index ∈ (if goesLeft then less else greater).ids := by
      rcases List.mem_append.mp (whole.mem_iff.mpr member) with isLess | isGreater
      · exact ⟨true, isLess⟩
      · exact ⟨false, isGreater⟩
    obtain ⟨goesLeft, sideMember⟩ := side
    obtain ⟨path, taken⟩ := (sides goesLeft).routed index sideMember
    exact ⟨goesLeft :: path, ((route index goesLeft path).mp ⟨sideMember, taken⟩).2⟩
  parts := by
    intro path inner notEmpty found
    cases path with
    | nil => exact absurd rfl notEmpty
    | cons goesLeft path =>
        have found : (if goesLeft then below else above).subtreeAt? path = some inner := by
          cases goesLeft <;> simpa [Tree.subtreeAt?] using found
        have sideMixed : dataset.Mixed ((if goesLeft then below else above).passing rows
            (if goesLeft then less else greater).ids path) := by
          cases path with
          | nil =>
              refine (mixed goesLeft).mono fun index member => Tree.mem_passing.mpr ⟨member, ?_⟩
              exact (sides goesLeft).routed index member
          | cons next path => exact (sides goesLeft).parts _ inner (List.cons_ne_nil _ _) found
        refine sideMixed.mono fun index member => ?_
        obtain ⟨sideMember, rest, taken⟩ := Tree.mem_passing.mp member
        obtain ⟨isId, routed⟩ := (route index goesLeft (path ++ rest)).mp ⟨sideMember, taken⟩
        exact Tree.mem_passing.mpr ⟨isId, rest, routed⟩

end Dataset.MixedParts

namespace Growth

variable [IsStrictOrderedRing K]

/-- Weights that are not as good as pure have at least two labels. -/
theorem two_le_support_of_weighted {measure : Measure K} (vanishes : measure.VanishesOnPure)
    {counts : List K} (nonneg : ∀ count ∈ counts, 0 ≤ count)
    (mixed : pureBound < measure.weighted counts) :
    2 ≤ Histogram.support counts := by
  by_contra pure
  have weightless : measure.weighted counts = 0 := by
    rw [Measure.weighted, vanishes counts nonneg (by omega)]
    exact zero_mul _
  rw [weightless] at mixed
  exact lt_asymm mixed pureBound_pos

variable {σ : Type} {policy : Policy K} {draws : Draws σ} {dataset : Dataset K} {source : σ}
variable {rows : List (List K)} {state : State K σ} {origins : List (Origin K)}

namespace Course

variable (fromRows : dataset.FromRows rows) (bounded : draws.Bounded)
variable (vanishes : policy.measure.VanishesOnPure)
variable (course : Course policy draws dataset source state origins)

include fromRows bounded vanishes course

/-- Every node but the root has at least two labels. -/
theorem two_le_support {id : Nat} {origin : Origin K} (notRoot : id ≠ 0)
    (originFound : origins[id]? = some origin) :
    2 ≤ Histogram.support (dataset.targets.tally origin.ids) := by
  have sound := (course.sound fromRows bounded).forest_sound
  obtain ⟨parent, node, left, right, own, found, ownFound, isChild⟩ :=
    sound.exists_parent originFound notRoot
  obtain ⟨ownSound, cut, column, place, lower, upper, branching⟩ :=
    sound.exists_branching found ownFound
  obtain ⟨less, greater, lessFound, greaterFound, -, lessMixed, greaterMixed, -⟩ :=
    branching.gain fromRows ownSound (course.counts_tally fromRows bounded found ownFound)
      (sound.slots parent _ own found ownFound).impurity_eq
  rcases isChild with rfl | rfl
  · obtain rfl := Option.some.inj (originFound.symm.trans lessFound)
    exact two_le_support_of_weighted vanishes (fromRows.tally_nonneg _) lessMixed
  · obtain rfl := Option.some.inj (originFound.symm.trans greaterFound)
    exact two_le_support_of_weighted vanishes (fromRows.tally_nonneg _) greaterMixed

/-- The sides of a split hold mixed examples. -/
theorem mixed_side {id left right place : Nat} {node : Node K} {origin less greater : Origin K}
    {cut : Cut K} {column : Column K} {lower upper : Entry K}
    (branching : Branching (groundOf policy dataset rows) origins id node origin left right cut
      column place lower upper)
    (lessFound : origins[left]? = some less) (greaterFound : origins[right]? = some greater)
    (goesLeft : Bool) : dataset.Mixed (if goesLeft then less else greater).ids := by
  have left_gt := branching.left_gt
  have right_eq := branching.right_eq
  apply Dataset.mixed_of_support
  cases goesLeft with
  | true => exact course.two_le_support fromRows bounded vanishes (by omega) lessFound
  | false => exact course.two_le_support fromRows bounded vanishes (by omega) greaterFound

/-- The rows that pass through a part of the tree are mixed. -/
theorem mixedParts {labels : List Label} {id steps : Nat} {tree : Tree K} {origin : Origin K}
    (converted : state.forest.treeWithin labels steps id = .ok tree)
    (originFound : origins[id]? = some origin) :
    dataset.MixedParts rows tree origin.ids := by
  have sound := (course.sound fromRows bounded).forest_sound
  apply sound.tree_induction fromRows (Ground.separated _) ?leaf ?split converted originFound
  case leaf =>
    intro id node origin made _ _ _
    exact .leaf dataset rows made origin.ids
  case split =>
    intro id left right place node origin less greater cut column lower upper below above _ _ _
      branching lessFound greaterFound whole route leftIh rightIh
    refine .split whole route
      (course.mixed_side fromRows bounded vanishes branching lessFound greaterFound) ?_
    intro goesLeft
    cases goesLeft with
    | true => exact leftIh
    | false => exact rightIh

/-- A tree that is not a single leaf has at most half as many leaves as examples. -/
theorem two_mul_leafCount_le {labels : List Label} {id steps : Nat} {tree : Tree K}
    {origin : Origin K} (converted : state.forest.treeWithin labels steps id = .ok tree)
    (originFound : origins[id]? = some origin) :
    (∃ leaf, tree = .leaf leaf) ∨ 2 * tree.leafCount ≤ origin.ids.length := by
  have sound := (course.sound fromRows bounded).forest_sound
  apply sound.tree_induction fromRows (Ground.separated _) ?leaf ?split converted originFound
  case leaf =>
    intro id node origin made _ _ _
    exact .inl ⟨made, rfl⟩
  case split =>
    intro id left right place node origin less greater cut column lower upper below above _ _ _
      branching lessFound greaterFound whole _ leftIh rightIh
    have mixed := course.mixed_side fromRows bounded vanishes branching lessFound greaterFound
    have bound : ∀ {side : Tree K} {part : Origin K}, dataset.Mixed part.ids →
        (∃ leaf, side = .leaf leaf) ∨ 2 * side.leafCount ≤ part.ids.length →
          2 * side.leafCount ≤ part.ids.length := by
      rintro _ part partMixed (⟨leaf, rfl⟩ | bounded)
      · exact partMixed.two_le_length
      · exact bounded
    have lessBound : 2 * below.leafCount ≤ less.ids.length := bound (mixed true) leftIh
    have greaterBound : 2 * above.leafCount ≤ greater.ids.length := bound (mixed false) rightIh
    have lengths := whole.length_eq
    rw [List.length_append] at lengths
    rw [Tree.leafCount]
    exact .inr (by omega)

end Course

/-- The entries of the leaves in the ledger of a forest. -/
def Forest.leafOrigins {α : Type} (forest : Forest α) (origins : List (Origin α)) :
    List (Origin α) :=
  ((forest.slots.zip origins).filter fun pair => pair.1.children.isNone).map Prod.snd

namespace Forest.Sound

variable {α : Type} [Scalar α] {ground : Ground α} {forest : Forest α} {origins : List (Origin α)}

omit [Scalar α] in
theorem isLeaf_of_zip {place : Nat} {pair : Slot α × Origin α}
    (found : (forest.slots.zip origins)[place]? = some pair)
    (childless : pair.1.children.isNone = true) : IsLeaf forest origins place pair.2 := by
  obtain ⟨⟨node, children⟩, origin⟩ := pair
  obtain ⟨slotFound, originFound⟩ := List.getElem?_zip_eq_some.mp found
  obtain rfl := Option.isNone_iff_eq_none.mp childless
  exact ⟨node, slotFound, originFound⟩

omit [Scalar α] in
theorem isLeaf_of_mem {origin : Origin α} (member : origin ∈ forest.leafOrigins origins) :
    ∃ id, IsLeaf forest origins id origin := by
  obtain ⟨pair, pairMember, rfl⟩ := List.mem_map.mp member
  obtain ⟨zipped, childless⟩ := List.mem_filter.mp pairMember
  obtain ⟨place, found⟩ := List.getElem?_of_mem zipped
  exact ⟨place, isLeaf_of_zip found childless⟩

variable (sound : forest.Sound ground origins)

include sound

theorem length_leafOrigins :
    (forest.leafOrigins origins).length + forest.splitCount = forest.size := by
  have slots : (forest.slots.zip origins).map Prod.fst = forest.slots :=
    List.map_fst_zip (Nat.le_of_eq sound.length_eq.symm)
  have childless : (forest.leafOrigins origins).length =
      forest.slots.countP fun slot => slot.children.isNone := by
    rw [Forest.leafOrigins, List.length_map, ← List.countP_eq_length_filter]
    conv_rhs => rw [← slots, List.countP_map]
    rfl
  rw [childless, Forest.splitCount, Forest.size, Nat.add_comm,
    List.length_eq_countP_add_countP fun slot : Slot α => slot.children.isSome]
  simp [-Option.isNone_iff_eq_none]

/-- No example is held twice by the leaves. -/
theorem nodup_leafOrigins : ((forest.leafOrigins origins).flatMap Origin.ids).Nodup := by
  refine List.nodup_flatMap.mpr ⟨fun origin member => ?_, ?_⟩
  · obtain ⟨id, node, found, originFound⟩ := isLeaf_of_mem member
    exact (sound.slots id _ origin found originFound).origin_sound.nodup
  · refine List.pairwise_map.mpr (List.pairwise_filter.mpr (List.pairwise_iff_getElem.mpr ?_))
    intro first second firstInside secondInside before firstLeaf secondLeaf
    exact sound.disjoint first second _ _
      (isLeaf_of_zip (List.getElem?_eq_getElem firstInside) firstLeaf)
      (isLeaf_of_zip (List.getElem?_eq_getElem secondInside) secondLeaf) (Nat.ne_of_lt before)

/-- If every leaf of a forest has two examples, there are more examples than nodes. -/
theorem size_lt (two : ∀ id origin, IsLeaf forest origins id origin → 2 ≤ origin.ids.length) :
    forest.size < ground.count := by
  have subset : (forest.leafOrigins origins).flatMap Origin.ids ⊆ ground.ids := by
    intro index member
    obtain ⟨origin, originMember, held⟩ := List.mem_flatMap.mp member
    obtain ⟨id, leaf⟩ := isLeaf_of_mem originMember
    exact (sound.cover index).mpr ⟨id, origin, leaf, held⟩
  have few := (sound.nodup_leafOrigins.subperm subset).length_le
  have many : (forest.leafOrigins origins).length * 2 ≤
      ((forest.leafOrigins origins).flatMap Origin.ids).length := by
    rw [List.length_flatMap, ← List.length_map, ← smul_eq_mul]
    apply List.card_nsmul_le_sum
    intro length member
    obtain ⟨origin, originMember, rfl⟩ := List.mem_map.mp member
    obtain ⟨id, leaf⟩ := isLeaf_of_mem originMember
    exact two id origin leaf
  rw [Ground.ids, List.length_map, List.length_range] at few
  have leaves := sound.length_leafOrigins
  have size := sound.size_eq
  omega

end Forest.Sound

omit [IsStrictOrderedRing K] in
/-- The root of a tree that splits is no leaf of the forest. -/
theorem ne_zero_of_isLeaf {labels : List Label} {tree : Tree K}
    (converted : state.forest.toTree labels 0 = .ok tree) (splits : ∀ leaf, tree ≠ .leaf leaf)
    {id : Nat} {origin : Origin K} (isLeaf : IsLeaf state.forest origins id origin) : id ≠ 0 := by
  rintro rfl
  obtain ⟨node, found, -⟩ := isLeaf
  obtain ⟨steps, size⟩ := Nat.exists_eq_add_one_of_ne_zero (Nat.ne_of_gt (Forest.lt_size found))
  rw [Forest.toTree, size] at converted
  obtain ⟨leaf, -, rfl⟩ := (Forest.treeWithin_of_leaf found).mp converted
  exact splits leaf rfl

/-- The distribution over some labels with weight has the same labels. -/
theorem Node.support_distribution {counts : List K} (nonneg : ∀ count ∈ counts, 0 ≤ count)
    (some_weight : 0 < Histogram.support counts) :
    Histogram.support (distribution counts) = Histogram.support counts := by
  obtain ⟨count, member, heavy⟩ := List.countP_pos_iff.mp some_weight
  have total : 0 < counts.sum :=
    lt_of_lt_of_le (of_decide_eq_true heavy) (List.single_le_sum nonneg count member)
  simp only [distribution, Exact.sum_eq, Exact.lt_iff, if_pos total, Histogram.support,
    List.countP_map]
  apply List.countP_congr
  intro share _
  simp only [Function.comp_apply, decide_eq_true_eq, div_pos_iff_of_pos_right total]

/-- Growth in exact arithmetic over an accepted table, whatever the rules and whatever is drawn,
with a measure that vanishes on pure histograms: it ends with a single leaf, or every other node
than the root stands for examples of two labels with positive weight, such rows pass through every
part of the tree, every leaf gives a positive share to two labels, and there are at most half as
many leaves and at most one node less than examples. -/
theorem no_pure_part {values : Nested K} {labels : Nested Label} {weights : Option (Nested K)}
    {names : Option Setting} {table : Option LabelTable} {dataset : Dataset K}
    (accepted : Dataset.ofTable values labels weights names table = .ok dataset)
    (nonempty : dataset.examples ≠ []) (policy : Policy K)
    (vanishes : policy.measure.VanishesOnPure) {draws : Draws σ} (bounded : draws.Bounded)
    (source : σ) :
    ∃ width rows, values.grid = .ok (.table width rows) ∧
      (dataset.features.size ≤ 2 ^ 63 →
        ∃ state : State K σ, start policy.measure dataset source = .ok state) ∧
      ∀ state, start policy.measure dataset source = .ok state →
        ∃ final origins tree, finish policy draws dataset state = .ok final ∧
          Course policy draws dataset source final origins ∧
          final.forest.toTree dataset.labels.labels 0 = .ok tree ∧
          ((∃ leaf, tree = .leaf leaf) ∨
            (∀ id origin, id ≠ 0 → origins[id]? = some origin → dataset.Mixed origin.ids) ∧
            (∀ path part, path ≠ [] → tree.subtreeAt? path = some part →
              dataset.Mixed (tree.passing rows dataset.indices path)) ∧
            (∀ path leaf, tree.leafAt? path = some leaf →
              2 ≤ leaf.distribution.countP fun share => 0 < share) ∧
            2 * tree.leafCount ≤ dataset.size ∧ final.forest.size + 1 ≤ dataset.size) := by
  obtain ⟨width, rows, grid, fromRows⟩ := Dataset.fromRows_of_ofTable accepted
  refine ⟨width, rows, grid, fun narrow => exists_start fromRows narrow _ _, ?_⟩
  intro state started
  obtain ⟨final, origins, finished, course⟩ :=
    (Course.start started).exists_finish fromRows bounded
  obtain ⟨tree, converted⟩ := course.exists_tree fromRows bounded nonempty
  refine ⟨final, origins, tree, finished, course, converted, ?_⟩
  by_cases single : ∃ leaf, tree = .leaf leaf
  · exact .inl single
  obtain ⟨root, rootFound, rootIds⟩ := course.root_origin
  have sound := (course.sound fromRows bounded).forest_sound
  have notRoot : ∀ id origin, IsLeaf final.forest origins id origin → id ≠ 0 := fun id origin =>
    ne_zero_of_isLeaf converted fun leaf same => single ⟨leaf, same⟩
  have mixed : ∀ id origin, id ≠ 0 → origins[id]? = some origin → dataset.Mixed origin.ids :=
    fun id origin notRoot found =>
      Dataset.mixed_of_support (course.two_le_support fromRows bounded vanishes notRoot found)
  refine .inr ⟨mixed, ?_, ?_, ?_, ?_⟩
  · rw [← rootIds]
    exact (course.mixedParts fromRows bounded vanishes converted rootFound).parts
  · intro path leaf leafFound
    obtain ⟨last, node, origin, ending, originFound, made, -⟩ :=
      course.exists_leaf_node fromRows bounded converted leafFound
    have support := course.two_le_support fromRows bounded vanishes
      (notRoot last origin ⟨node, ending, originFound⟩) originFound
    have counts := course.counts_tally fromRows bounded ending originFound
    have same := Node.support_distribution (fromRows.tally_nonneg origin.ids) (by omega)
    rw [(Node.of_toLeaf made).2.1, counts]
    exact le_of_le_of_eq support same.symm
  · have bound := course.two_mul_leafCount_le fromRows bounded vanishes converted rootFound
    rw [rootIds, Dataset.indices, List.length_map, List.length_range] at bound
    exact bound.resolve_left single
  · refine sound.size_lt fun id origin isLeaf => ?_
    have distinct := notRoot id origin isLeaf
    obtain ⟨node, -, originFound⟩ := isLeaf
    exact (mixed id origin distinct originFound).two_le_length

/-- Both leaves of the sample are mixed: three nodes over eight examples. -/
theorem no_pure_part_sample :
    ∃ (dataset : Dataset ℚ) (final : State ℚ Nat) (origins : List (Origin ℚ)) (tree : Tree ℚ),
      Dataset.ofTable (Sample.values 0 1) Sample.labels none none none = .ok dataset ∧
      dataset.examples ≠ [] ∧ (Measure.gini : Measure ℚ).VanishesOnPure ∧
      run Sample.policy (.repeating []) dataset 0 = .ok final ∧
      Course Sample.policy (.repeating []) dataset 0 final origins ∧
      final.forest.toTree dataset.labels.labels 0 = .ok tree ∧
      tree.leafCount = 2 ∧ final.forest.size = 3 ∧
      (∀ id origin, id ≠ 0 → origins[id]? = some origin → dataset.Mixed origin.ids) ∧
      (∀ path part, path ≠ [] → tree.subtreeAt? path = some part →
        dataset.Mixed (tree.passing (Sample.rows 0 1) dataset.indices path)) ∧
      (∀ path leaf, tree.leafAt? path = some leaf →
        2 ≤ leaf.distribution.countP fun share => 0 < share) ∧
      2 * tree.leafCount ≤ dataset.size ∧ final.forest.size + 1 ≤ dataset.size := by
  have passed : Outcome.passes (do
      let dataset ← Dataset.ofTable (Sample.values (0 : ℚ) 1) Sample.labels none none none
      let state ← start Sample.policy.measure dataset 0
      let final ← finish Sample.policy (.repeating []) dataset state
      let tree ← final.forest.toTree dataset.labels.labels 0
      pure (dataset, final, tree)) (fun (dataset, final, tree) =>
        !dataset.examples.isEmpty && tree.leafCount == 2 && final.forest.size == 3) = true := by
    decide +kernel
  obtain ⟨⟨dataset, final, tree⟩, computed, test⟩ := Outcome.exists_of_passes passed
  obtain ⟨other, accepted, computed⟩ := Outcome.bind_eq_ok.mp computed
  obtain ⟨state, started, computed⟩ := Outcome.bind_eq_ok.mp computed
  obtain ⟨last, finished, computed⟩ := Outcome.bind_eq_ok.mp computed
  obtain ⟨found, converted, triple⟩ := Outcome.bind_eq_ok.mp computed
  obtain ⟨rfl, pair⟩ := Prod.mk.inj (Except.ok.inj triple)
  obtain ⟨rfl, rfl⟩ := Prod.mk.inj pair
  simp only [Bool.and_eq_true, beq_iff_eq, Bool.not_eq_true', List.isEmpty_eq_false_iff] at test
  obtain ⟨⟨nonempty, leaves⟩, nodes⟩ := test
  obtain ⟨width, rows, grid, -, grown⟩ := no_pure_part accepted nonempty Sample.policy
    Measure.gini_vanishesOnPure Draws.bounded_zeros 0
  obtain rfl := Sample.rows_eq grid
  obtain ⟨lastGrown, origins, grownTree, lastEq, course, treeEq, mixed⟩ := grown state started
  obtain rfl := Except.ok.inj (finished.symm.trans lastEq)
  obtain rfl := Except.ok.inj (converted.symm.trans treeEq)
  refine ⟨other, last, origins, found, accepted, nonempty, Measure.gini_vanishesOnPure,
    Outcome.bind_eq_ok.mpr ⟨state, started, finished⟩, course, converted, leaves, nodes, ?_⟩
  rcases mixed with ⟨leaf, rfl⟩ | mixed
  · cases leaves
  · exact mixed

end Growth

end DecisionTree
