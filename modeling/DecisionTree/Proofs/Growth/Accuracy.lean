import Mathlib.Algebra.BigOperators.Ring.List
import DecisionTree.Proofs.Growth.Depth
import DecisionTree.Proofs.Growth.Exact

/-!
# Training accuracy

The hits of a tree are the rows of the training data whose label it predicts.  A leaf predicts a
label that none of the labels of its examples outnumbers (`Course.frequency_le_hits`), and a split
passes every row on to the child that it is an example of, so its hits are those of its sides
(`Branching.hits_split`).  A tree that is cut off therefore has no more hits than the whole tree
(`hits_le_of_upTo?`): with a larger depth limit accuracy does not fall
(`deeper_trees_hit_more`).
-/

namespace DecisionTree

namespace Dataset

section Labels

variable {α : Type} {dataset : Dataset α} {ids less greater : List Int}

/-- The number of examples with a label among some. -/
def frequency (dataset : Dataset α) (ids : List Int) (label : Nat) : Nat :=
  ids.countP fun index => dataset.labelAt index == label

/-- Of examples in two groups, those with a label are in one or the other. -/
theorem frequency_of_perm (perm : (less ++ greater).Perm ids) (label : Nat) :
    dataset.frequency ids label =
      dataset.frequency less label + dataset.frequency greater label := by
  rw [frequency, ← perm.countP_eq, List.countP_append]
  rfl

end Labels

variable {K : Type} [Field K] [LinearOrder K] {dataset : Dataset K} {rows : List (List K)}
variable {ids : List Int} {index : Int} {label : Nat}

/-- The number of those of some rows whose label a tree predicts. -/
def hits (dataset : Dataset K) (rows : List (List K)) (tree : Tree K) (ids : List Int) : Nat :=
  ids.countP fun index =>
    (tree.leafFor? (rows.getD index.toNat [])).any fun leaf =>
      leaf.labelId == (dataset.labelAt index : Int)

/-- Every example weighs one. -/
def UnitWeights (dataset : Dataset K) : Prop :=
  ∀ e ∈ dataset.examples, e.weight = 1

/-- The hits of a leaf are the examples with its label. -/
theorem hits_leaf {reached : Leaf K} (predicts : reached.labelId = label) :
    dataset.hits rows (.leaf reached) ids = dataset.frequency ids label := by
  rw [hits, frequency]
  apply List.countP_congr
  intro index _
  simp only [Tree.leafFor?, Option.any_some, predicts, beq_iff_eq, Int.natCast_inj]
  exact eq_comm

namespace UnitWeights

variable (unit : dataset.UnitWeights)

include unit

theorem weightAt_eq (inRange : 0 ≤ index ∧ index < dataset.size) : dataset.weightAt index = 1 := by
  have isExample : index.toNat < dataset.examples.length := by
    rw [size] at inRange
    omega
  rw [weightAt, List.getElem?_eq_getElem isExample]
  exact unit _ (List.getElem_mem isExample)

theorem sum_weightAt (inRange : Targets.InRange dataset.size ids) :
    (ids.map dataset.weightAt).sum = (ids.length : K) := by
  have weights : ∀ index ∈ ids, dataset.weightAt index = 1 := fun index member =>
    unit.weightAt_eq (inRange index member)
  rw [List.map_congr_left weights, List.map_const', List.sum_replicate, nsmul_one]

/-- The histogram of examples gives the number of examples with each label. -/
theorem tally_getElem? (inRange : Targets.InRange dataset.size ids)
    (known : label < dataset.labels.size) :
    (dataset.targets.tally ids)[label]? = some (dataset.frequency ids label : K) := by
  have width : dataset.targets.labelCount = dataset.labels.size := rfl
  have place : (List.range dataset.labels.size)[label]? = some label :=
    List.getElem?_eq_some_iff.mpr ⟨by rwa [List.length_range], List.getElem_range _⟩
  rw [Targets.tally, Histogram.tally_eq_map, List.getElem?_map, width, place, Option.map_some,
    weightOf_labelled, unit.sum_weightAt (inRange.of_subset fun _ => List.mem_of_mem_filter),
    frequency, List.countP_eq_length_filter]

end UnitWeights

end Dataset

variable {K : Type} [Field K] [LinearOrder K]

namespace Growth

namespace Node

/-- No value is greater than that at the first maximum. -/
theorem le_firstMaximum {values : List K} {place : Nat} {value : K}
    (found : values[place]? = some value) :
    ∃ largest, values[firstMaximum values]? = some largest ∧ value ≤ largest := by
  have member := List.mem_of_getElem? found
  obtain ⟨largest, largestFound, most, -⟩ :=
    isFirstLargest_firstMaximum (List.ne_nil_of_mem member)
  have notLess := most value member
  rw [Bool.eq_false_iff, ne_eq, Exact.lt_iff, not_lt] at notLess
  exact ⟨largest, largestFound, notLess⟩

variable [IsStrictOrderedRing K] {dataset : Dataset K} {rows : List (List K)} {ids : List Int}
variable {node : Node K} {labels : List Label} {made : Leaf K}

/-- No label of the examples of a leaf is more frequent than the one that the leaf predicts. -/
theorem frequency_le_hits (unit : dataset.UnitWeights)
    (known : dataset.targets.Known dataset.size) (inRange : Targets.InRange dataset.size ids)
    (counts : node.counts = dataset.targets.tally ids) (madeEq : node.toLeaf labels = .ok made)
    (label : Nat) : dataset.frequency ids label ≤ dataset.hits rows (.leaf made) ids := by
  obtain ⟨-, -, predicts⟩ := of_toLeaf madeEq
  rw [Dataset.hits_leaf predicts]
  by_cases isLabel : label < dataset.labels.size
  case neg =>
    have absent : dataset.frequency ids label = 0 := by
      apply List.countP_eq_zero.mpr
      intro index member
      obtain ⟨nonneg, bounded⟩ := inRange index member
      obtain ⟨own, ownNonneg, ownBounded, ownEq, -⟩ := known.item?_eq nonneg bounded
      rw [Dataset.labelled_eq] at ownEq
      have width : dataset.targets.labelCount = dataset.labels.size := rfl
      simp only [beq_iff_eq]
      omega
    rw [absent]
    exact Nat.zero_le _
  case pos =>
  have total : Scalar.sum node.counts = (ids.length : K) := by
    rw [counts, Exact.sum_eq, known.sum_tally inRange, unit.sum_weightAt inRange]
  rcases Nat.eq_zero_or_pos ids.length with none | some
  · rw [List.length_eq_zero_iff.mp none]
    exact Nat.zero_le _
  · have positive : (0 : K) < ids.length := Nat.cast_pos.mpr some
    have shares : distribution node.counts =
        (dataset.targets.tally ids).map (· / (ids.length : K)) := by
      rw [distribution, total, Exact.lt_iff.mpr positive, if_pos rfl, counts]
    have share : ∀ place, place < dataset.labels.size →
        (distribution node.counts)[place]? =
          Option.some (dataset.frequency ids place / (ids.length : K)) := by
      intro place inside
      rw [shares, List.getElem?_map, unit.tally_getElem? inRange inside, Option.map_some]
    obtain ⟨largest, largestFound, atMost⟩ := le_firstMaximum (share label isLabel)
    have length : (distribution node.counts).length = dataset.labels.size := by
      rw [length_distribution, counts]
      exact Targets.length_tally _ _
    have isPlace : firstMaximum (distribution node.counts) < dataset.labels.size :=
      length ▸ (List.getElem?_eq_some_iff.mp largestFound).1
    obtain rfl := Option.some.inj ((share _ isPlace).symm.trans largestFound)
    exact Nat.cast_le.mp ((div_le_div_iff_of_pos_right positive).mp atMost)

end Node

variable {σ : Type} {policy : Policy K} {draws : Draws σ} {dataset : Dataset K} {source : σ}
variable {rows : List (List K)} {state : State K σ} {origins : List (Origin K)}
variable {labels : List Label} {id left right limit steps : Nat} {node : Node K} {cut : Cut K}

section Steps

variable [IsStrictOrderedRing K]

/-- The hits of a split are those of its sides among the examples of the children. -/
theorem Branching.hits_split {place : Nat} {origin : Origin K} {column : Column K}
    {lower upper : Entry K} (fromRows : dataset.FromRows rows)
    (originSound : origin.Sound (groundOf policy dataset rows))
    (branching : Branching (groundOf policy dataset rows) origins id node origin left right cut
      column place lower upper) :
    ∃ less greater, origins[left]? = some less ∧ origins[right]? = some greater ∧
      (less.ids ++ greater.ids).Perm origin.ids ∧
      ∀ below above, dataset.hits rows
          (.split cut.feature cut.threshold node.impurity below above) origin.ids =
        dataset.hits rows below less.ids + dataset.hits rows above greater.ids := by
  obtain ⟨less, greater, lessFound, greaterFound, whole, side⟩ :=
    branching.side_iff fromRows originSound (Ground.separated _ originSound branching)
  refine ⟨less, greater, lessFound, greaterFound, whole, fun below above => ?_⟩
  have routed : ∀ goesLeft : Bool, ∀ index ∈ (if goesLeft then less else greater).ids,
      (Tree.split cut.feature cut.threshold node.impurity below above).leafFor?
          (rows.getD index.toNat []) =
        (if goesLeft then below else above).leafFor? (rows.getD index.toNat []) := by
    intro goesLeft index member
    obtain ⟨isOwn, goes⟩ := (side index goesLeft).mp member
    simp only [Tree.leafFor?, branching.get?_row fromRows originSound isOwn, bind,
      Option.bind_some, goes]
    cases goesLeft <;> rfl
  rw [Dataset.hits, ← whole.countP_eq, List.countP_append]
  congr 1
  · apply List.countP_congr
    intro index member
    rw [routed true index member]
    rfl
  · apply List.countP_congr
    intro index member
    rw [routed false index member]
    rfl

variable (fromRows : dataset.FromRows rows) (bounded : draws.Bounded)
variable (course : Course policy draws dataset source state origins)
variable (unit : dataset.UnitWeights)

include fromRows bounded course unit

/-- A tree has as many hits among the examples of its node as any label is frequent there. -/
theorem Course.frequency_le_hits {tree : Tree K} {origin : Origin K}
    (converted : state.forest.treeWithin labels steps id = .ok tree)
    (originFound : origins[id]? = some origin) (label : Nat) :
    dataset.frequency origin.ids label ≤ dataset.hits rows tree origin.ids := by
  have sound := (course.sound fromRows bounded).forest_sound
  apply sound.tree_induction fromRows (Ground.separated _) ?leaf ?split converted originFound
  case leaf =>
    intro id node origin made found originFound madeEq
    have originSound := (sound.slots id _ origin found originFound).origin_sound
    exact Node.frequency_le_hits unit fromRows.known originSound.inRange
      (course.counts_tally fromRows bounded found originFound) madeEq label
  case split =>
    intro id left right place node origin less greater cut column lower upper below above _ _
      originSound branching lessFound greaterFound whole _ leftIh rightIh
    obtain ⟨_, _, lessSame, greaterSame, -, hits⟩ := branching.hits_split fromRows originSound
    obtain rfl := Option.some.inj (lessFound.symm.trans lessSame)
    obtain rfl := Option.some.inj (greaterFound.symm.trans greaterSame)
    rw [hits, Dataset.frequency_of_perm whole]
    exact Nat.add_le_add leftIh rightIh

/-- A tree that is cut off has no more hits than the whole tree. -/
theorem Course.hits_le_of_upTo? {shallow : Forest K}
    (same : ∀ id : Nat, shallow.slots[id]? = state.forest.upTo? limit id) {more : Nat}
    {small large : Tree K} {origin : Origin K}
    (converted : shallow.treeWithin labels steps id = .ok small)
    (convertedWhole : state.forest.treeWithin labels more id = .ok large)
    (originFound : origins[id]? = some origin) :
    dataset.hits rows small origin.ids ≤ dataset.hits rows large origin.ids := by
  have sound := (course.sound fromRows bounded).forest_sound
  induction steps generalizing id more small large origin with
  | zero => cases converted
  | succ steps ih =>
      obtain ⟨⟨node, children⟩, found⟩ := sound.exists_slot originFound
      have shallowFound := same id
      rcases Nat.lt_or_ge limit node.depth with below | above
      · -- the node is cut off, so the smaller tree has no such part
        rw [Forest.upTo?_of_lt found below] at shallowFound
        rw [Forest.treeWithin, Forest.slot_eq_error shallowFound] at converted
        cases converted
      rw [Forest.upTo?_of_le found above, Slot.cutOff] at shallowFound
      split at shallowFound
      next inner =>
        cases more with
        | zero => cases convertedWhole
        | succ more =>
        cases children with
        | none =>
            obtain ⟨made, madeEq, rfl⟩ := (Forest.treeWithin_of_leaf shallowFound).mp converted
            obtain ⟨other, otherEq, rfl⟩ := (Forest.treeWithin_of_leaf found).mp convertedWhole
            obtain rfl := Except.ok.inj (madeEq.symm.trans otherEq)
            exact Nat.le_refl _
        | some pair =>
            obtain ⟨left, right⟩ := pair
            obtain ⟨originSound, cut, column, place, lower, upper, branching⟩ :=
              sound.exists_branching found originFound
            obtain ⟨less, greater, lessFound, greaterFound, -, hits⟩ :=
              branching.hits_split fromRows originSound
            obtain ⟨_, _, leftEq, rightEq, rfl⟩ :=
              (Forest.treeWithin_of_split shallowFound branching.cut_eq).mp converted
            obtain ⟨_, _, leftWhole, rightWhole, rfl⟩ :=
              (Forest.treeWithin_of_split found branching.cut_eq).mp convertedWhole
            rw [hits, hits]
            exact Nat.add_le_add (ih leftEq leftWhole lessFound)
              (ih rightEq rightWhole greaterFound)
      next =>
        -- the node is a leaf of the smaller tree, which predicts one label only
        obtain ⟨made, madeEq, rfl⟩ := (Forest.treeWithin_of_leaf shallowFound).mp converted
        rw [Dataset.hits_leaf (Node.of_toLeaf madeEq).2.2]
        exact course.frequency_le_hits fromRows bounded unit convertedWhole originFound _

end Steps

/-- A forest that is cut off at depth zero is converted to a leaf. -/
theorem exists_leaf_of_upTo? {forest shallow : Forest K} {slot : Slot K} {tree : Tree K}
    (found : forest.slots[id]? = some slot) (same : shallow.slots[id]? = forest.upTo? 0 id)
    (converted : shallow.treeWithin labels steps id = .ok tree) :
    ∃ (made : Leaf K) (label : Nat), tree = .leaf made ∧ made.labelId = label := by
  cases steps with
  | zero => cases converted
  | succ steps =>
      rcases Nat.eq_zero_or_pos slot.node.depth with top | below
      · rw [Forest.upTo?_of_le found (Nat.le_of_eq top), Slot.cutOff, if_neg (Nat.not_lt_zero _)]
          at same
        obtain ⟨made, madeEq, rfl⟩ := (Forest.treeWithin_of_leaf same).mp converted
        exact ⟨made, _, rfl, (Node.of_toLeaf madeEq).2.2⟩
      · rw [Forest.upTo?_of_lt found below] at same
        rw [Forest.treeWithin, Forest.slot_eq_error same] at converted
        cases converted

/-- Growth in exact arithmetic over an accepted table whose rows weigh one, with two depth limits
and otherwise the same rules and draws: both runs end, both forests can be converted, and the tree
with the larger limit predicts the labels of at least as many rows.  With the limit zero that is the
number of rows with the most frequent label. -/
theorem deeper_trees_hit_more [IsStrictOrderedRing K] {values : Nested K} {labels : Nested Label}
    {weights : Option (Nested K)} {names : Option Setting} {table : Option LabelTable}
    {dataset : Dataset K}
    (accepted : Dataset.ofTable values labels weights names table = .ok dataset)
    (nonempty : dataset.examples ≠ []) (unit : dataset.UnitWeights) (policy : Policy K)
    {draws : Draws σ} (bounded : draws.Bounded) (source : σ) {limit larger : Nat}
    (atMost : limit ≤ larger) :
    ∃ width rows, values.grid = .ok (.table width rows) ∧
      (dataset.features.size ≤ 2 ^ 63 →
        ∃ state : State K σ, start policy.measure dataset source = .ok state) ∧
      ∀ state, start policy.measure dataset source = .ok state →
        ∃ final deeper tree deeperTree,
          finish (policy.limited limit) draws dataset state = .ok final ∧
          finish (policy.limited larger) draws dataset state = .ok deeper ∧
          final.forest.toTree dataset.labels.labels 0 = .ok tree ∧
          deeper.forest.toTree dataset.labels.labels 0 = .ok deeperTree ∧
          dataset.hits rows tree dataset.indices ≤ dataset.hits rows deeperTree dataset.indices ∧
          (limit = 0 → ∃ label,
            dataset.hits rows tree dataset.indices = dataset.frequency dataset.indices label ∧
            ∀ other, dataset.frequency dataset.indices other ≤
              dataset.frequency dataset.indices label) := by
  obtain ⟨width, rows, grid, fromRows⟩ := Dataset.fromRows_of_ofTable accepted
  refine ⟨width, rows, grid, fun narrow => exists_start fromRows narrow _ _, ?_⟩
  intro state started
  obtain ⟨final, deeper, finished, finishedDeeper, same⟩ :=
    exists_finish_limited fromRows bounded started atMost
  have starts : ∀ bound, Course (policy.limited bound) draws dataset source state _ :=
    fun bound => .start started
  obtain ⟨ledger, course, -⟩ := (starts limit).grow finished
  obtain ⟨origins, deeperCourse, -⟩ := (starts larger).grow finishedDeeper
  obtain ⟨tree, converted⟩ := course.exists_tree fromRows bounded nonempty
  obtain ⟨deeperTree, convertedDeeper⟩ := deeperCourse.exists_tree fromRows bounded nonempty
  obtain ⟨root, rootFound, rootIds⟩ := deeperCourse.root_origin
  obtain ⟨own, ownFound, ownIds⟩ := course.root_origin
  refine ⟨final, deeper, tree, deeperTree, finished, finishedDeeper, converted, convertedDeeper,
    ?_, ?_⟩
  · rw [← rootIds]
    exact deeperCourse.hits_le_of_upTo? fromRows bounded unit same converted convertedDeeper
      rootFound
  · rintro rfl
    obtain ⟨slot, slotFound⟩ :=
      (deeperCourse.sound fromRows bounded).forest_sound.exists_slot rootFound
    obtain ⟨made, best, rfl, predicts⟩ := exists_leaf_of_upTo? slotFound (same 0) converted
    have hits : dataset.hits rows (.leaf made) dataset.indices =
        dataset.frequency dataset.indices best := Dataset.hits_leaf predicts
    refine ⟨best, hits, fun other => ?_⟩
    rw [← hits, ← ownIds]
    exact course.frequency_le_hits fromRows bounded unit converted ownFound other

/-- The root of the sample predicts the labels of four of its eight rows; with its two children the
tree predicts those of six. -/
theorem deeper_trees_hit_more_sample :
    ∃ (dataset : Dataset ℚ) (final deeper : State ℚ Nat) (tree deeperTree : Tree ℚ),
      Dataset.ofTable (Sample.values 0 1) Sample.labels none none none = .ok dataset ∧
      dataset.examples ≠ [] ∧ dataset.UnitWeights ∧
      run (Sample.policy.limited 0) (.repeating []) dataset 0 = .ok final ∧
      run (Sample.policy.limited 1) (.repeating []) dataset 0 = .ok deeper ∧
      final.forest.toTree dataset.labels.labels 0 = .ok tree ∧
      deeper.forest.toTree dataset.labels.labels 0 = .ok deeperTree ∧
      dataset.hits (Sample.rows 0 1) tree dataset.indices = 4 ∧
      dataset.hits (Sample.rows 0 1) deeperTree dataset.indices = 6 ∧
      dataset.hits (Sample.rows 0 1) tree dataset.indices ≤
        dataset.hits (Sample.rows 0 1) deeperTree dataset.indices ∧
      ∃ label, dataset.hits (Sample.rows 0 1) tree dataset.indices =
          dataset.frequency dataset.indices label ∧
        ∀ other, dataset.frequency dataset.indices other ≤
          dataset.frequency dataset.indices label := by
  have passed : Outcome.passes (do
      let dataset ← Dataset.ofTable (Sample.values (0 : ℚ) 1) Sample.labels none none none
      let state ← start Sample.policy.measure dataset 0
      let final ← finish (Sample.policy.limited 0) (.repeating []) dataset state
      let deeper ← finish (Sample.policy.limited 1) (.repeating []) dataset state
      let tree ← final.forest.toTree dataset.labels.labels 0
      let deeperTree ← deeper.forest.toTree dataset.labels.labels 0
      pure (dataset, tree, deeperTree)) (fun (dataset, tree, deeperTree) =>
        !dataset.examples.isEmpty && dataset.examples.all (·.weight == 1) &&
          dataset.hits (Sample.rows 0 1) tree dataset.indices == 4 &&
          dataset.hits (Sample.rows 0 1) deeperTree dataset.indices == 6) = true := by
    decide +kernel
  obtain ⟨⟨dataset, tree, deeperTree⟩, computed, test⟩ := Outcome.exists_of_passes passed
  obtain ⟨other, accepted, computed⟩ := Outcome.bind_eq_ok.mp computed
  obtain ⟨state, started, computed⟩ := Outcome.bind_eq_ok.mp computed
  obtain ⟨final, finished, computed⟩ := Outcome.bind_eq_ok.mp computed
  obtain ⟨deeper, finishedDeeper, computed⟩ := Outcome.bind_eq_ok.mp computed
  obtain ⟨small, converted, computed⟩ := Outcome.bind_eq_ok.mp computed
  obtain ⟨large, convertedDeeper, triple⟩ := Outcome.bind_eq_ok.mp computed
  obtain ⟨rfl, pair⟩ := Prod.mk.inj (Except.ok.inj triple)
  obtain ⟨rfl, rfl⟩ := Prod.mk.inj pair
  simp only [Bool.and_eq_true, beq_iff_eq, Bool.not_eq_true', List.isEmpty_eq_false_iff,
    List.all_eq_true] at test
  obtain ⟨⟨⟨nonempty, unit⟩, four⟩, six⟩ := test
  obtain ⟨width, rows, grid, -, grown⟩ := deeper_trees_hit_more accepted nonempty unit
    Sample.policy Draws.bounded_zeros 0 (Nat.zero_le 1)
  obtain rfl := Sample.rows_eq grid
  obtain ⟨_, _, _, _, sameFinal, sameDeeper, sameTree, sameLarge, atMost, atZero⟩ :=
    grown state started
  obtain rfl := Except.ok.inj (finished.symm.trans sameFinal)
  obtain rfl := Except.ok.inj (finishedDeeper.symm.trans sameDeeper)
  obtain rfl := Except.ok.inj (converted.symm.trans sameTree)
  obtain rfl := Except.ok.inj (convertedDeeper.symm.trans sameLarge)
  exact ⟨other, final, deeper, small, large, accepted, nonempty, unit,
    Outcome.bind_eq_ok.mpr ⟨state, started, finished⟩,
    Outcome.bind_eq_ok.mpr ⟨state, started, finishedDeeper⟩, converted, convertedDeeper, four, six,
    atMost, atZero rfl⟩

end Growth

end DecisionTree
