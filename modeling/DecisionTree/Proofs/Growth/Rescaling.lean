import DecisionTree.Proofs.Growth.Moved

/-!
# Rescaling features

In exact arithmetic growth depends on the values of a feature only through their order.  If the
values of every feature are moved by a strictly increasing function, which need not keep zero, then
the tree has the same splits and the same leaves, and every row takes the same path.  Only the
thresholds change: each is half way between two consecutive values of the examples that come to the
split, and half way between the same values moved (`rescaled_features_same_splits`).
-/

namespace DecisionTree

namespace Tree

variable {α : Type}

/-- Two trees that differ in their thresholds only. -/
inductive SameButThresholds : Tree α → Tree α → Prop
  | leaf (reached : Leaf α) : SameButThresholds (.leaf reached) (.leaf reached)
  | split (feature : Int) (threshold other impurity : α) {left right below above : Tree α}
      (lefts : SameButThresholds left below) (rights : SameButThresholds right above) :
      SameButThresholds (.split feature threshold impurity left right)
        (.split feature other impurity below above)

end Tree

variable {K : Type} [Field K] [LinearOrder K]

theorem Tree.Moved.sameButThresholds {move : Nat → K → K} {width : Nat} {value : Nat → Int → K}
    {ids : List Int} {tree twin : Tree K} (moved : Tree.Moved move width value ids tree twin) :
    tree.SameButThresholds twin := by
  induction moved with
  | leaf ids reached => exact .leaf reached
  | split impurity isFeature consecutive lefts rights leftIh rightIh =>
      exact .split _ _ _ impurity leftIh rightIh

namespace Dataset

/-- The rows of a table with every value moved by the function of its feature. -/
def moveRows (move : Nat → K → K) (rows : List (List K)) : List (List K) :=
  rows.map (List.mapIdx move)

variable {dataset other : Dataset K} {rows : List (List K)} {move : Nat → K → K}

omit [Field K] [LinearOrder K] in
theorem getD_moveRows (move : Nat → K → K) (rows : List (List K)) (place : Nat) :
    (moveRows move rows).getD place [] = (rows.getD place []).mapIdx move := by
  rw [moveRows, List.getD_eq_getElem?_getD, List.getD_eq_getElem?_getD, List.getElem?_map]
  cases rows[place]? <;> rfl

/-- A row has a value of every feature. -/
theorem FromRows.getElem?_row (fromRows : dataset.FromRows rows) {feature : Nat}
    (isFeature : feature < dataset.features.size) {index : Int} (isId : index ∈ dataset.indices) :
    (rows.getD index.toNat [])[feature]? = some (cell rows feature index) := by
  rw [← Position.get?_ofNat]
  exact Growth.get?_row fromRows (Int.natCast_nonneg feature) isFeature (mem_indices.mp isId)

/-- In the moved rows stand the moved values. -/
theorem FromRows.cell_moveRows (fromRows : dataset.FromRows rows) {feature : Nat}
    (isFeature : feature < dataset.features.size) {index : Int} (isId : index ∈ dataset.indices) :
    cell (moveRows move rows) feature index = move feature (cell rows feature index) := by
  rw [cell, getD_moveRows, List.getD_eq_getElem?_getD, List.getElem?_mapIdx,
    fromRows.getElem?_row isFeature isId]
  rfl

/-- Each example is a kind of its own; its values are moved. -/
def moveKinds (fromRows : dataset.FromRows rows)
    (increasing : ∀ feature < dataset.features.size, StrictMono (move feature))
    (features : other.features = dataset.features) (labels : other.labels = dataset.labels)
    (indices : other.indices = dataset.indices)
    (labelAt : ∀ index, other.labelAt index = dataset.labelAt index) :
    dataset.Kinds Int other rows (moveRows move rows) where
  kind index := index
  twin index := index
  value feature index := cell rows feature index
  label := dataset.labelAt
  move := move
  increasing := increasing
  features_eq := features
  labels_eq := labels
  value_eq _ _ := rfl
  twinValue_eq _ isFeature _ isId := fromRows.cell_moveRows isFeature (indices ▸ isId)
  label_eq _ := rfl
  twinLabel_eq := labelAt

/-- The examples balance, since nothing but their values changes. -/
theorem balanced_moveKinds (fromRows : dataset.FromRows rows)
    (increasing : ∀ feature < dataset.features.size, StrictMono (move feature))
    (features : other.features = dataset.features) (labels : other.labels = dataset.labels)
    (indices : other.indices = dataset.indices)
    (labelAt : ∀ index, other.labelAt index = dataset.labelAt index)
    (weightAt : ∀ index, other.weightAt index = dataset.weightAt index) :
    (moveKinds fromRows increasing features labels indices labelAt).Balanced dataset.indices
      other.indices where
  occurs _ := by
    rw [indices]
    exact Iff.rfl
  weighs _ := by
    rw [indices]
    exact congrArg List.sum (List.map_congr_left fun index _ => (weightAt index).symm)

end Dataset

/-- The same of the moved rows pass through the parts at the end of a path. -/
theorem Tree.Moved.passing_eq [IsStrictOrderedRing K] {move : Nat → K → K} {width : Nat}
    {rows : List (List K)} {value : Nat → Int → K} {ids : List Int} {tree twin : Tree K}
    (moved : Tree.Moved move width value ids tree twin)
    (increasing : ∀ feature < width, StrictMono (move feature))
    (rowsEq : ∀ index ∈ ids, ∀ feature < width,
      (rows.getD index.toNat [])[feature]? = some (value feature index)) (path : List Bool) :
    twin.passing (Dataset.moveRows move rows) ids path = tree.passing rows ids path := by
  refine List.filter_congr fun index isId => ?_
  obtain ⟨taken, routed, twinRouted⟩ := moved.route?_eq increasing isId (rowsEq index isId)
  rw [Dataset.getD_moveRows, routed, twinRouted]

namespace Growth

/-- The values of every feature of a table are moved by a strictly increasing function.  The moved
table is accepted as well, and the same rules and random numbers give two trees that differ in their
thresholds only.  Every row takes the same path through both, and the thresholds of a split are half
way between two consecutive values of its feature among the rows that come there, and half way
between these values moved. -/
theorem rescaled_features_same_splits [IsStrictOrderedRing K] {σ : Type}
    {values otherValues : Nested K} {labels : Nested Label} {weights : Option (Nested K)}
    {names : Option Setting} {table : Option LabelTable} {dataset : Dataset K}
    (accepted : Dataset.ofTable values labels weights names table = .ok dataset)
    {width : Nat} {rows : List (List K)} (grid : values.grid = .ok (.table width rows))
    {move : Nat → K → K} (increasing : ∀ feature < width, StrictMono (move feature))
    (otherGrid : otherValues.grid = .ok (.table width (Dataset.moveRows move rows)))
    (nonempty : dataset.examples ≠ []) {policy : Policy K} (workers : 0 < policy.workers)
    {draws : Draws σ} (bounded : draws.Bounded) (source : σ) :
    ∃ other, Dataset.ofTable otherValues labels weights names table = .ok other ∧
      (dataset.features.size ≤ 2 ^ 63 → ∃ state twin : State K σ,
        start policy.measure dataset source = .ok state ∧
        start policy.measure other source = .ok twin) ∧
      ∀ state twin : State K σ, start policy.measure dataset source = .ok state →
        start policy.measure other source = .ok twin →
          ∃ final last tree moved, finish policy draws dataset state = .ok final ∧
            finish policy draws other twin = .ok last ∧
            final.forest.toTree dataset.labels.labels 0 = .ok tree ∧
            last.forest.toTree other.labels.labels 0 = .ok moved ∧
            tree.SameButThresholds moved ∧
            (∀ place < rows.length, ∃ path, tree.route? (rows.getD place []) = some path ∧
              moved.route? ((Dataset.moveRows move rows).getD place []) = some path) ∧
            ∀ path feature threshold impurity left right,
              tree.subtreeAt? path = some (.split feature threshold impurity left right) →
                ∃ (column : Nat) (lower upper : K) (below above : Tree K),
                  feature = column ∧ threshold = (lower + upper) / 2 ∧
                  Consecutive (Dataset.cell rows column)
                    (tree.passing rows dataset.indices path) lower upper ∧
                  moved.subtreeAt? path = some (.split feature
                    ((move column lower + move column upper) / 2) impurity below above) ∧
                  Consecutive (Dataset.cell (Dataset.moveRows move rows) column)
                    (moved.passing (Dataset.moveRows move rows) other.indices path)
                    (move column lower) (move column upper) := by
  obtain rfl := Dataset.size_features_of_ofTable accepted grid
  have fromRows := Dataset.fromRows_of_grid accepted grid
  obtain ⟨other, otherAccepted, otherFromRows, features, labelsEq, size, same⟩ :=
    Dataset.exists_ofTable accepted grid otherGrid (List.length_map _)
      fun _ _ value _ => Exact.isNumber value
  have indices : other.indices = dataset.indices := by rw [Dataset.indices, size, Dataset.indices]
  have root := Dataset.balanced_moveKinds fromRows increasing features labelsEq indices
    (fun index => (same index).1) fun index => (same index).2
  refine ⟨other, otherAccepted,
    fun narrow => exists_starts fromRows otherFromRows features narrow policy.measure source,
    fun state twin started twinStarted => ?_⟩
  obtain ⟨final, last, tree, moved, finished, twinFinished, converted, twinConverted, related⟩ :=
    exists_moved fromRows otherFromRows bounded root nonempty workers started twinStarted
  have related : Tree.Moved move dataset.features.size (Dataset.cell rows) dataset.indices tree
    moved := related
  have rowsEq : ∀ index ∈ dataset.indices, ∀ feature < dataset.features.size,
      (rows.getD index.toNat [])[feature]? = some (Dataset.cell rows feature index) :=
    fun index isId feature isFeature => fromRows.getElem?_row isFeature isId
  refine ⟨final, last, tree, moved, finished, twinFinished, converted, twinConverted,
    related.sameButThresholds, fun place inside => ?_, ?_⟩
  · have isId : (place : Int) ∈ dataset.indices :=
      Dataset.mem_indices.mpr
        ⟨Int.natCast_nonneg place, by rw [fromRows.size_eq]; exact Int.ofNat_lt.mpr inside⟩
    rw [Dataset.getD_moveRows]
    exact related.route?_eq increasing isId (rowsEq place isId)
  · intro path feature threshold impurity left right found
    obtain ⟨part, partFound, inner⟩ := related.subtreeAt? increasing rowsEq found
    cases inner with
    | @split _ column lower upper _ _ _ below above isFeature consecutive _ _ =>
        refine ⟨column, lower, upper, below, above, rfl, rfl, consecutive, partFound, ?_⟩
        rw [indices, related.passing_eq increasing rowsEq]
        refine (consecutive.map (increasing column isFeature)).congr (fun _ => Iff.rfl) ?_
        intro index isId
        exact fromRows.cell_moveRows isFeature (List.mem_of_mem_filter isId)

/-- The values of the sample, doubled and increased by one. -/
theorem rescaled_features_same_splits_sample :
    ∃ (dataset other : Dataset ℚ) (state twin final last : State ℚ Nat) (tree moved : Tree ℚ),
      Dataset.moveRows (fun _ number => 2 * number + 1) (Sample.rows 0 1) =
        (Sample.rows 1 3 : List (List ℚ)) ∧
      Dataset.ofTable (Sample.values 0 1) Sample.labels none none none = .ok dataset ∧
      Dataset.ofTable (Sample.values 1 3) Sample.labels none none none = .ok other ∧
      start Sample.policy.measure dataset 0 = .ok state ∧
      start Sample.policy.measure other 0 = .ok twin ∧
      finish Sample.policy (.repeating []) dataset state = .ok final ∧
      finish Sample.policy (.repeating []) other twin = .ok last ∧
      final.forest.toTree dataset.labels.labels 0 = .ok tree ∧
      last.forest.toTree other.labels.labels 0 = .ok moved ∧
      tree.leafCount = 2 ∧ tree.SameButThresholds moved := by
  have passed : Outcome.passes (do
      let dataset ← Dataset.ofTable (Sample.values (0 : ℚ) 1) Sample.labels none none none
      let other ← Dataset.ofTable (Sample.values (1 : ℚ) 3) Sample.labels none none none
      let state ← start Sample.policy.measure dataset 0
      let twin ← start Sample.policy.measure other 0
      let final ← finish Sample.policy (.repeating []) dataset state
      let tree ← final.forest.toTree dataset.labels.labels 0
      pure (dataset, tree)) (fun (dataset, tree) =>
        !dataset.examples.isEmpty && tree.leafCount == 2) = true := by
    decide +kernel
  obtain ⟨⟨dataset, tree⟩, computed, test⟩ := Outcome.exists_of_passes passed
  obtain ⟨first, accepted, computed⟩ := Outcome.bind_eq_ok.mp computed
  obtain ⟨second, otherAccepted, computed⟩ := Outcome.bind_eq_ok.mp computed
  obtain ⟨state, started, computed⟩ := Outcome.bind_eq_ok.mp computed
  obtain ⟨twin, twinStarted, computed⟩ := Outcome.bind_eq_ok.mp computed
  obtain ⟨final, finished, computed⟩ := Outcome.bind_eq_ok.mp computed
  obtain ⟨found, converted, pair⟩ := Outcome.bind_eq_ok.mp computed
  obtain ⟨rfl, rfl⟩ := Prod.mk.inj (Except.ok.inj pair)
  simp only [Bool.and_eq_true, beq_iff_eq, Bool.not_eq_true', List.isEmpty_eq_false_iff] at test
  obtain ⟨nonempty, leaves⟩ := test
  have increasing : ∀ feature < 1, StrictMono fun number : ℚ => 2 * number + 1 := by
    intro feature _ first second less
    change 2 * first + 1 < 2 * second + 1
    linarith
  have rows : Dataset.moveRows (fun _ number => 2 * number + 1) (Sample.rows 0 1) =
      (Sample.rows 1 3 : List (List ℚ)) := by
    decide +kernel
  have grid : (Sample.values 1 3 : Nested ℚ).grid =
      .ok (.table 1 (Dataset.moveRows (fun _ number => 2 * number + 1) (Sample.rows 0 1))) := by
    rw [rows]
    rfl
  have workers : 0 < (Sample.policy : Policy ℚ).workers := Nat.zero_lt_one
  obtain ⟨other, alsoAccepted, -, alike⟩ := rescaled_features_same_splits accepted rfl increasing
    grid nonempty workers Draws.bounded_zeros 0
  obtain rfl := Except.ok.inj (otherAccepted.symm.trans alsoAccepted)
  obtain ⟨ended, last, grown, moved, endedEq, lastEq, grownEq, movedEq, same, -⟩ :=
    alike state twin started twinStarted
  obtain rfl := Except.ok.inj (finished.symm.trans endedEq)
  obtain rfl := Except.ok.inj (converted.symm.trans grownEq)
  exact ⟨first, second, state, twin, final, last, found, moved, rows, accepted, otherAccepted,
    started, twinStarted, finished, lastEq, converted, movedEq, leaves, same⟩

end Growth

end DecisionTree
