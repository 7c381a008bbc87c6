import DecisionTree.Proofs.Growth.Lockstep
import DecisionTree.Proofs.Growth.Purity

/-!
# Trees with moved thresholds

Trees that are grown in lockstep have the same splits and the same leaves; only their thresholds are
moved along with the values (`Lockstep.moved`).  `Tree.Moved` says between which values of the
examples that come to a split its two thresholds lie.  So the rows of corresponding examples take
the same path through both trees (`Tree.Moved.route?_eq`), and what is known of the two trees holds
of their parts, for the examples that pass through them (`Tree.Moved.subtreeAt?`).
-/

namespace DecisionTree

variable {K : Type} [Field K] [LinearOrder K]

namespace Consecutive

variable {value : Int → K} {ids same : List Int} {lower upper : K}

omit [Field K] in
theorem congr (consecutive : Consecutive value ids lower upper)
    (members : ∀ index, index ∈ same ↔ index ∈ ids) {other : Int → K}
    (values : ∀ index ∈ ids, other index = value index) : Consecutive other same lower upper where
  less := consecutive.less
  lower_mem := by
    obtain ⟨index, isId, valueEq⟩ := consecutive.lower_mem
    exact ⟨index, (members index).mpr isId, (values index isId).trans valueEq⟩
  upper_mem := by
    obtain ⟨index, isId, valueEq⟩ := consecutive.upper_mem
    exact ⟨index, (members index).mpr isId, (values index isId).trans valueEq⟩
  beside index member := by
    have isId := (members index).mp member
    rw [values index isId]
    exact consecutive.beside index isId

omit [Field K] in
/-- An increasing function keeps values consecutive. -/
theorem map (consecutive : Consecutive value ids lower upper) {move : K → K}
    (increasing : StrictMono move) :
    Consecutive (fun index => move (value index)) ids (move lower) (move upper) where
  less := increasing consecutive.less
  lower_mem := consecutive.lower_mem.imp fun _ own => ⟨own.1, congrArg move own.2⟩
  upper_mem := consecutive.upper_mem.imp fun _ own => ⟨own.1, congrArg move own.2⟩
  beside index isId := (consecutive.beside index isId).imp
    (fun atMost => increasing.monotone atMost) fun atLeast => increasing.monotone atLeast

/-- A row goes to the left at the midpoint if it has at most the lower value. -/
theorem route?_split [IsStrictOrderedRing K] (consecutive : Consecutive value ids lower upper)
    {index : Int} (isId : index ∈ ids) {row : List K} {feature : Nat}
    (found : row[feature]? = some (value index)) (impurity : K) (left right : Tree K)
    (goesLeft : Bool) (path : List Bool) :
    (Tree.split feature ((lower + upper) / 2) impurity left right).route? row =
        some (goesLeft :: path) ↔
      decide (value index ≤ lower) = goesLeft ∧
        (if goesLeft then left else right).route? row = some path := by
  have separates := Exact.separates_midpoint (Exact.lt_iff.mpr consecutive.less)
  have sides : Scalar.le (value index) ((lower + upper) / 2) = decide (value index ≤ lower) := by
    rw [Bool.eq_iff_iff, Exact.le_iff, decide_eq_true_eq]
    exact consecutive.le_iff separates isId
  rw [Tree.route?_split ((Position.get?_ofNat row feature).trans found), sides]

/-- What passes through a split into one of its sides is what passes there of the examples that go
to that side. -/
theorem mem_passing_split [IsStrictOrderedRing K] {rows : List (List K)} {feature : Nat}
    (consecutive : Consecutive value ids lower upper)
    (found : ∀ index ∈ ids, (rows.getD index.toNat [])[feature]? = some (value index))
    (impurity : K) (left right : Tree K) (goesLeft : Bool) (path : List Bool) (index : Int) :
    index ∈ (Tree.split feature ((lower + upper) / 2) impurity left right).passing rows ids
        (goesLeft :: path) ↔
      index ∈ (if goesLeft then left else right).passing rows
        (ids.filter fun index => decide (value index ≤ lower) == goesLeft) path := by
  rw [Tree.mem_passing, Tree.mem_passing, List.mem_filter, and_assoc, beq_iff_eq]
  refine and_congr_right fun isId => ?_
  have sides := consecutive.route?_split isId (found index isId) impurity left right goesLeft
  simp only [List.cons_append, sides, exists_and_left]

end Consecutive

/-- A tree over some examples, and a tree with the same features, impurities and leaves.  Each
threshold of the first one is half way between consecutive values of the examples that come to the
split, and that of the other one is half way between the moved values. -/
inductive Tree.Moved (move : Nat → K → K) (width : Nat) (value : Nat → Int → K) :
    List Int → Tree K → Tree K → Prop
  | leaf (ids : List Int) (reached : Leaf K) :
      Moved move width value ids (.leaf reached) (.leaf reached)
  | split {ids : List Int} {feature : Nat} {lower upper : K} (impurity : K)
      {left right below above : Tree K} (isFeature : feature < width)
      (consecutive : Consecutive (value feature) ids lower upper)
      (lefts : Moved move width value
        (ids.filter fun index => decide (value feature index ≤ lower)) left below)
      (rights : Moved move width value
        (ids.filter fun index => !decide (value feature index ≤ lower)) right above) :
      Moved move width value ids (.split feature ((lower + upper) / 2) impurity left right)
        (.split feature ((move feature lower + move feature upper) / 2) impurity below above)

namespace Tree.Moved

variable {move : Nat → K → K} {width : Nat} {value : Nat → Int → K} {ids same : List Int}
variable {tree twin part : Tree K} {path : List Bool}

theorem congr (moved : Moved move width value ids tree twin)
    (members : ∀ index, index ∈ same ↔ index ∈ ids) : Moved move width value same tree twin := by
  induction moved generalizing same with
  | leaf ids reached => exact .leaf same reached
  | split impurity isFeature consecutive lefts rights leftIh rightIh =>
      refine .split impurity isFeature (consecutive.congr members fun _ _ => rfl)
        (leftIh fun index => ?_) (rightIh fun index => ?_)
      · rw [List.mem_filter, List.mem_filter, members]
      · rw [List.mem_filter, List.mem_filter, members]

/-- If no value is moved then the two trees are the same. -/
theorem eq_of_fixed (moved : Moved move width value ids tree twin)
    (fixed : ∀ feature number, move feature number = number) : twin = tree := by
  induction moved with
  | leaf ids reached => rfl
  | split impurity isFeature consecutive lefts rights leftIh rightIh =>
      rw [leftIh, rightIh, fixed, fixed]

variable [IsStrictOrderedRing K]

/-- A row with moved values takes the same path through the other tree. -/
theorem route?_eq (moved : Moved move width value ids tree twin)
    (increasing : ∀ feature < width, StrictMono (move feature)) {index : Int} (isId : index ∈ ids)
    {row : List K} (rowEq : ∀ feature < width, row[feature]? = some (value feature index)) :
    ∃ path, tree.route? row = some path ∧ twin.route? (row.mapIdx move) = some path := by
  induction moved with
  | leaf ids reached => exact ⟨[], rfl, rfl⟩
  | @split ids feature lower upper impurity left right below above isFeature consecutive lefts
      rights leftIh rightIh =>
      have found := rowEq feature isFeature
      have twinFound : (row.mapIdx move)[feature]? = some (move feature (value feature index)) := by
        rw [List.getElem?_mapIdx, found, Option.map_some]
      have sides := consecutive.route?_split isId found impurity left right
      have increases := increasing feature isFeature
      have twinSides := (consecutive.map increases).route?_split isId twinFound impurity below above
      simp only [increases.le_iff_le] at twinSides
      cases side : decide (value feature index ≤ lower) with
      | true =>
          obtain ⟨path, taken, twinTaken⟩ := leftIh (List.mem_filter.mpr ⟨isId, side⟩)
          exact ⟨_, (sides true path).mpr ⟨side, taken⟩,
            (twinSides true path).mpr ⟨side, twinTaken⟩⟩
      | false =>
          obtain ⟨path, taken, twinTaken⟩ :=
            rightIh (List.mem_filter.mpr ⟨isId, by rw [side, Bool.not_false]⟩)
          exact ⟨_, (sides false path).mpr ⟨side, taken⟩,
            (twinSides false path).mpr ⟨side, twinTaken⟩⟩

/-- The parts at the end of a path are trees with moved thresholds over the examples that pass
through them. -/
theorem subtreeAt? (moved : Moved move width value ids tree twin)
    (increasing : ∀ feature < width, StrictMono (move feature)) {rows : List (List K)}
    (rowsEq : ∀ index ∈ ids, ∀ feature < width,
      (rows.getD index.toNat [])[feature]? = some (value feature index))
    (found : tree.subtreeAt? path = some part) :
    ∃ twinPart, twin.subtreeAt? path = some twinPart ∧
      Moved move width value (tree.passing rows ids path) part twinPart := by
  induction moved generalizing path with
  | leaf ids reached =>
      cases path with
      | nil =>
          obtain rfl := Option.some.inj found
          exact ⟨_, rfl, .leaf _ reached⟩
      | cons goesLeft path => simp [Tree.subtreeAt?] at found
  | @split ids feature lower upper impurity left right below above isFeature consecutive lefts
      rights leftIh rightIh =>
      cases path with
      | nil =>
          obtain rfl := Option.some.inj found
          have whole : Moved move width value ids _ _ :=
            .split impurity isFeature consecutive lefts rights
          refine ⟨_, rfl, whole.congr fun index => ?_⟩
          rw [Tree.mem_passing]
          refine and_iff_left_of_imp fun isId => ?_
          obtain ⟨path, taken, -⟩ := whole.route?_eq increasing isId (rowsEq index isId)
          exact ⟨path, taken⟩
      | cons goesLeft path =>
          have passes := consecutive.mem_passing_split
            (fun index isId => rowsEq index isId feature isFeature) impurity left right goesLeft
            path
          cases goesLeft with
          | true =>
              obtain ⟨twinPart, twinFound, inner⟩ :=
                leftIh (fun index isId => rowsEq index (List.mem_of_mem_filter isId)) found
              refine ⟨twinPart, twinFound, inner.congr fun index => (passes index).trans ?_⟩
              simp only [beq_true, if_true]
          | false =>
              obtain ⟨twinPart, twinFound, inner⟩ :=
                rightIh (fun index isId => rowsEq index (List.mem_of_mem_filter isId)) found
              refine ⟨twinPart, twinFound, inner.congr fun index => (passes index).trans ?_⟩
              simp only [beq_false, Bool.false_eq_true, if_false]

end Tree.Moved

namespace Growth

open Dataset (Kinds)

variable [IsStrictOrderedRing K] {κ σ : Type} {dataset other : Dataset K}
variable {rows others : List (List K)} {kinds : dataset.Kinds κ other rows others}
variable {policy : Policy K} {draws : Draws σ} {source : σ} {state twin : State K σ}
variable {origins ledger : List (Origin K)}

namespace Lockstep

variable (fromRows : dataset.FromRows rows) (otherFromRows : other.FromRows others)
variable (bounded : draws.Bounded) (root : kinds.Balanced dataset.indices other.indices)

include fromRows otherFromRows bounded root

/-- A node with children is divided half way between two consecutive values of its examples, and in
the other run half way between the moved values; its children share the examples accordingly. -/
theorem exists_division
    (lockstep : Lockstep policy draws dataset other source state twin origins ledger)
    {id left right : Nat} {node : Node K} {origin : Origin K}
    (found : state.forest.slots[id]? = some { node, children := some (left, right) })
    (originFound : origins[id]? = some origin) :
    ∃ (twinNode : Node K) (feature : Nat) (lower upper : K) (less greater : Origin K),
      twin.forest.slots[id]? = some { node := twinNode, children := some (left, right) } ∧
      node.cut = some { feature, threshold := (lower + upper) / 2 } ∧
      twinNode.cut = some {
        feature, threshold := (kinds.move feature lower + kinds.move feature upper) / 2 } ∧
      feature < dataset.features.size ∧
      Consecutive (Dataset.cell rows feature) origin.ids lower upper ∧
      origins[left]? = some less ∧ origins[right]? = some greater ∧
      (∀ index, index ∈ less.ids ↔ index ∈ origin.ids.filter fun index =>
        decide (Dataset.cell rows feature index ≤ lower)) ∧
      ∀ index, index ∈ greater.ids ↔ index ∈ origin.ids.filter fun index =>
        !decide (Dataset.cell rows feature index ≤ lower) := by
  have sound := (lockstep.course.sound fromRows bounded).forest_sound
  have twinSound := (lockstep.twinCourse.sound otherFromRows bounded).forest_sound
  obtain ⟨⟨twinNode, _⟩, entry, twinFound, entryFound, rfl⟩ :=
    lockstep.exists_twin otherFromRows bounded found
  obtain ⟨cut, twinCut, cutEq, twinCutEq, parallel⟩ := lockstep.tandem.cuts id left right node
    twinNode origin entry found twinFound originFound entryFound
  obtain ⟨originSound, _, _, _, _, _, branching⟩ := sound.exists_branching found originFound
  obtain ⟨entrySound, -⟩ := twinSound.exists_branching twinFound entryFound
  obtain rfl := Option.some.inj (branching.cut_eq.symm.trans cutEq)
  have balanced := lockstep.balanced fromRows otherFromRows bounded root originFound entryFound
  obtain ⟨feature, lower, upper, isFeature, consecutive, -, rfl, rfl⟩ :=
    parallel.exists_consecutive balanced originSound entrySound
  have goes : ∀ index ∈ origin.ids, (groundOf policy dataset rows).goesLeft
      { feature, threshold := (lower + upper) / 2 } index =
        decide (Dataset.cell rows feature index ≤ lower) :=
    fun index isId => goesLeft_between consecutive isId
  obtain ⟨less, lessFound, -, lessPerm⟩ := branching.left_origin
  obtain ⟨greater, greaterFound, -, greaterPerm⟩ := branching.right_origin
  refine ⟨twinNode, feature, lower, upper, less, greater, twinFound, cutEq, twinCutEq, isFeature,
    consecutive, lessFound, greaterFound, fun index => ?_, fun index => ?_⟩
  · rw [lessPerm.mem_iff, List.filter_congr goes]
  · rw [greaterPerm.mem_iff, List.filter_congr fun index isId => congrArg not (goes index isId)]

/-- The trees below a node have the same splits and leaves, with moved thresholds. -/
theorem treeWithin_moved
    (lockstep : Lockstep policy draws dataset other source state twin origins ledger)
    {labels : List Label} {steps more id : Nat} {tree twinTree : Tree K} {origin : Origin K}
    (converted : state.forest.treeWithin labels steps id = .ok tree)
    (twinConverted : twin.forest.treeWithin labels more id = .ok twinTree)
    (originFound : origins[id]? = some origin) :
    Tree.Moved kinds.move dataset.features.size (Dataset.cell rows) origin.ids tree twinTree := by
  induction steps generalizing more id tree twinTree origin with
  | zero => cases converted
  | succ steps ih =>
      cases more with
      | zero => cases twinConverted
      | succ more =>
      obtain ⟨⟨node, children⟩, found⟩ :=
        (lockstep.course.sound fromRows bounded).forest_sound.exists_slot originFound
      cases children with
      | none =>
          obtain ⟨⟨twinNode, _⟩, _, twinFound, -, rfl⟩ :=
            lockstep.exists_twin otherFromRows bounded found
          obtain ⟨counts, impurity⟩ :=
            lockstep.statistics_eq fromRows otherFromRows bounded root found twinFound
          obtain ⟨leaf, made, rfl⟩ := (Forest.treeWithin_of_leaf found).mp converted
          obtain ⟨same, madeAlso, rfl⟩ := (Forest.treeWithin_of_leaf twinFound).mp twinConverted
          rw [Node.toLeaf_congr counts impurity, made] at madeAlso
          obtain rfl := Except.ok.inj madeAlso
          exact .leaf _ leaf
      | some pair =>
          obtain ⟨left, right⟩ := pair
          obtain ⟨twinNode, feature, lower, upper, less, greater, twinFound, cutEq, twinCutEq,
            isFeature, consecutive, lessFound, greaterFound, lefts, rights⟩ :=
            lockstep.exists_division fromRows otherFromRows bounded root found originFound
          obtain ⟨-, impurity⟩ :=
            lockstep.statistics_eq fromRows otherFromRows bounded root found twinFound
          have impurity : twinNode.impurity = node.impurity := impurity
          obtain ⟨first, second, firstEq, secondEq, rfl⟩ :=
            (Forest.treeWithin_of_split found cutEq).mp converted
          obtain ⟨below, above, belowEq, aboveEq, rfl⟩ :=
            (Forest.treeWithin_of_split twinFound twinCutEq).mp twinConverted
          rw [impurity]
          exact .split node.impurity isFeature consecutive
            ((ih firstEq belowEq lessFound).congr fun index => (lefts index).symm)
            ((ih secondEq aboveEq greaterFound).congr fun index => (rights index).symm)

end Lockstep

omit [IsStrictOrderedRing K] in
/-- Growth over two tables with the same features can be started. -/
theorem exists_starts (fromRows : dataset.FromRows rows) (otherFromRows : other.FromRows others)
    (features : other.features = dataset.features) (narrow : dataset.features.size ≤ 2 ^ 63)
    (measure : Measure K) (source : σ) :
    ∃ state twin : State K σ, start measure dataset source = .ok state ∧
      start measure other source = .ok twin := by
  obtain ⟨state, started⟩ := exists_start fromRows narrow measure source
  rw [← features] at narrow
  obtain ⟨twin, twinStarted⟩ := exists_start otherFromRows narrow measure source
  exact ⟨state, twin, started, twinStarted⟩

/-- Growth over two datasets whose examples balance ends with two trees that have the same splits
and the same leaves, with moved thresholds. -/
theorem exists_moved (fromRows : dataset.FromRows rows) (otherFromRows : other.FromRows others)
    (bounded : draws.Bounded) (root : kinds.Balanced dataset.indices other.indices)
    (nonempty : dataset.examples ≠ []) (workers : 0 < policy.workers)
    (started : start policy.measure dataset source = .ok state)
    (twinStarted : start policy.measure other source = .ok twin) :
    ∃ final last tree moved, finish policy draws dataset state = .ok final ∧
      finish policy draws other twin = .ok last ∧
      final.forest.toTree dataset.labels.labels 0 = .ok tree ∧
      last.forest.toTree other.labels.labels 0 = .ok moved ∧
      Tree.Moved kinds.move dataset.features.size (Dataset.cell rows) dataset.indices tree
        moved := by
  have lockstep : Lockstep policy draws dataset other source state twin _ _ :=
    .start started twinStarted
  obtain ⟨final, _, finished, course⟩ := lockstep.course.exists_finish fromRows bounded
  obtain ⟨last, _, twinFinished, twinCourse⟩ :=
    lockstep.twinCourse.exists_finish otherFromRows bounded
  obtain ⟨tree, converted⟩ := course.exists_tree fromRows bounded nonempty
  obtain ⟨moved, twinConverted⟩ := twinCourse.exists_tree otherFromRows bounded
    (root.nonempty nonempty)
  obtain ⟨origins, ledger, lockstep⟩ :=
    lockstep.grow fromRows otherFromRows bounded root workers finished twinFinished
  obtain ⟨origin, originFound, ids⟩ := lockstep.course.root_origin
  refine ⟨final, last, tree, moved, finished, twinFinished, converted, twinConverted, ?_⟩
  have labels : other.labels = dataset.labels := kinds.labels_eq
  rw [labels] at twinConverted
  rw [← ids]
  exact lockstep.treeWithin_moved fromRows otherFromRows bounded root converted twinConverted
    originFound

end Growth

end DecisionTree
