import DecisionTree.Dataset.Dense
import DecisionTree.Proofs.Binary64.Midpoint
import DecisionTree.Proofs.Growth.Repetition

/-!
# Growth with rounded thresholds

Thresholds of floats are rounded, so they need not separate the values beside them.  A split divides
a node in the same way when it is scored, when it is carried out and when rows are routed exactly if
the sum of the two values does not overflow and there is a float between them
(`Course.coincide_iff_separable`).  Growth ends where that holds for any two values of a feature.
Where it does not, one side may get all examples, and growth may not end (`Course.growth_ends`).
-/

namespace DecisionTree.Growth

variable {σ : Type}

/-- A rounded midpoint can separate two floats: their sum is finite, and there is a float between
them. -/
def Separable (lower upper : Float) : Prop :=
  (lower + upper).isFinite = true ∧
    ∃ between : Float, Scalar.lt lower between = true ∧ Scalar.lt between upper = true

/-- Any two different values of a feature are separable. -/
def SeparableRows (dataset : Dataset Float) (rows : List (List Float)) : Prop :=
  ∀ feature < dataset.features.size, ∀ first ∈ dataset.indices, ∀ second ∈ dataset.indices,
    Scalar.lt (Dataset.cell rows feature first) (Dataset.cell rows feature second) = true →
      Separable (Dataset.cell rows feature first) (Dataset.cell rows feature second)

/-- Whether floats are separable does not depend on the signs of zeros. -/
theorem Separable.congr {lower upper other last : Float} (separable : Separable lower upper)
    (lowerSame : Scalar.eq lower other = true) (upperSame : Scalar.eq upper last = true) :
    Separable other last := by
  obtain ⟨finite, between, above, below⟩ := separable
  refine ⟨Binary64.isFinite_add_congr lowerSame upperSame finite, between, ?_, ?_⟩
  · exact Scalar.Ordered.lt_of_eq_of_lt (Scalar.Ordered.eq_symm lowerSame) above
  · exact Scalar.Ordered.lt_of_lt_of_eq below upperSame

theorem Branching.separates_iff {ground : Ground Float} {origins : List (Origin Float)}
    {id left right place : Nat} {node : Node Float} {origin : Origin Float} {cut : Cut Float}
    {column : Column Float} {lower upper : Entry Float} (originSound : origin.Sound ground)
    (branching : Branching ground origins id node origin left right cut column place lower upper) :
    Scalar.Separates lower.value cut.threshold upper.value ↔
      Separable lower.value upper.value := by
  rw [branching.division.between.threshold_eq]
  exact Binary64.separates_midpoint_iff (branching.values_lt originSound)

/-- Where any two different values of a feature are separable, thresholds separate the values beside
them. -/
theorem Ground.separated_of_separable {policy : Policy Float} {dataset : Dataset Float}
    {rows : List (List Float)} (fromRows : dataset.FromRows rows)
    (separable : SeparableRows dataset rows) :
    (groundOf policy dataset rows).Separated := by
  intro origins id left right place node origin cut column lower upper originSound branching
  obtain ⟨first, firstRow, second, secondRow, firstEq, secondEq⟩ :=
    branching.exists_cells fromRows originSound
  have firstLess := Scalar.Ordered.lt_of_eq_of_lt firstEq (branching.values_lt originSound)
  have cellsLess := Scalar.Ordered.lt_of_lt_of_eq firstLess (Scalar.Ordered.eq_symm secondEq)
  have cellsSeparable :=
    separable _ (branching.feature_lt originSound) first firstRow second secondRow cellsLess
  exact (branching.separates_iff originSound).mpr (cellsSeparable.congr firstEq secondEq)

variable {values : Nested Float} {labels : Nested Label} {weights : Option (Nested Float)}
variable {names : Option Setting} {table : Option LabelTable} {dataset : Dataset Float}
variable {policy : Policy Float} {draws : Draws σ} {source : σ} {state : State Float σ}
variable {origins : List (Origin Float)} {id left right : Nat} {node : Node Float}

/-- Every node that was split while a tree was grown over an accepted table has an accepted cut
after some entry of a column, and its examples are those of its two children.  The children hold
the examples of the entries on the two sides, and every row is routed to the side that its example
was put on, exactly if the values beside the cut are separable. -/
theorem Course.coincide_iff_separable
    (accepted : Dataset.ofTable values labels weights names table = .ok dataset)
    (bounded : draws.Bounded) (course : Course policy draws dataset source state origins)
    (found : state.forest.slots[id]? = some { node, children := some (left, right) }) :
    ∃ width rows, values.grid = .ok (.table width rows) ∧
      ∃ cut column place lower upper origin below above,
        node.cut = some cut ∧ origins[id]? = some origin ∧ origins[left]? = some below ∧
        origins[right]? = some above ∧ (below.ids ++ above.ids).Perm origin.ids ∧
        Division policy.measure (leastDecrease policy dataset) node origin.columns cut column place
          lower upper ∧
        (column.Coincide place cut.threshold (Dataset.cell rows cut.feature.toNat) below.ids
          above.ids ↔ Separable lower.value upper.value) := by
  obtain ⟨width, rows, grid, fromRows⟩ := Dataset.fromRows_of_ofTable accepted
  have sound := (course.sound fromRows bounded).forest_sound
  obtain ⟨origin, originFound⟩ := sound.exists_origin found
  obtain ⟨originSound, cut, column, place, lower, upper, branching⟩ :=
    sound.exists_branching found originFound
  obtain ⟨below, above, belowFound, aboveFound, whole, coincide⟩ :=
    branching.coincide_iff fromRows originSound
  refine ⟨width, rows, grid, cut, column, place, lower, upper, origin, below, above,
    branching.cut_eq, originFound, belowFound, aboveFound, whole, branching.division, ?_⟩
  rw [coincide, branching.separates_iff originSound]

/-- Zero and one are separable, so the root of the sample with these values is divided in the same
way when it is scored, when it is carried out and when rows are routed. -/
theorem Course.coincide_iff_separable_sample :
    ∃ (dataset : Dataset Float) (state : State Float Nat) (origins : List (Origin Float)),
      Dataset.ofTable (Sample.values 0 1) Sample.labels none none none = .ok dataset ∧
      Course Sample.policy (.repeating []) dataset 0 state origins ∧
      ∃ (node : Node Float) (cut : Cut Float) (column : Column Float) (place : Nat)
        (lower upper : Entry Float) (below above : Origin Float),
        state.forest.slots[0]? = some { node, children := some (1, 2) } ∧ node.cut = some cut ∧
        origins[1]? = some below ∧ origins[2]? = some above ∧
        column.entries[place]? = some lower ∧ column.entries[place + 1]? = some upper ∧
        Separable lower.value upper.value ∧
        column.Coincide place cut.threshold
          (Dataset.cell (Sample.rows 0 1) cut.feature.toNat) below.ids above.ids := by
  have passed : Outcome.passes (Sample.course (0 : Float) 1 1) (fun (_, state, origins) =>
      state.forest.slots[0]?.bind Slot.children == some (1, 2) &&
      origins.all fun origin => origin.columns.all fun column =>
        (column.entries.zip column.entries.tail).all fun (lower, upper) =>
          (lower.value + upper.value).isFinite &&
            Scalar.lt lower.value (1 / 2) && Scalar.lt (1 / 2) upper.value) = true := by
    decide +kernel
  obtain ⟨dataset, state, origins, accepted, course, test⟩ := Sample.exists_course passed
  simp only [Bool.and_eq_true, beq_iff_eq, List.all_eq_true, Option.bind_eq_some_iff] at test
  obtain ⟨⟨⟨node, children⟩, found, divided⟩, separable⟩ := test
  obtain rfl : children = some (1, 2) := divided
  obtain ⟨width, rows, grid, cut, column, place, lower, upper, origin, below, above, cutEq,
    originFound, belowFound, aboveFound, -, division, coincide⟩ :=
      Course.coincide_iff_separable accepted Draws.bounded_zeros course found
  obtain rfl := Sample.rows_eq grid
  obtain ⟨-, columnEq, lowerEq, upperEq, -⟩ := division.between
  have separates : Separable lower.value upper.value := by
    have member : (lower, upper) ∈ column.entries.zip column.entries.tail := by
      apply List.mem_of_getElem? (i := place)
      rw [List.getElem?_zip_eq_some, List.getElem?_tail]
      exact ⟨lowerEq, upperEq⟩
    obtain ⟨⟨finite, above⟩, below⟩ := separable origin (List.mem_of_getElem? originFound) column
      (List.mem_of_getElem? columnEq) _ member
    exact ⟨finite, _, above, below⟩
  exact ⟨dataset, state, origins, accepted, course, node, cut, column, place, lower, upper, below,
    above, found, cutEq, belowFound, aboveFound, lowerEq, upperEq, separates,
    coincide.mpr separates⟩

/-- The float after one. -/
def Sample.afterOne : Float :=
  1 + 1 / 4503599627370496

/-- There is no float between one and the next.  The rows with the lower value are scored for the
left child of the root and routed to it, but it gets none of them. -/
theorem Course.misrouted_neighbours :
    ∃ (dataset : Dataset Float) (state : State Float Nat) (origins : List (Origin Float)),
      Dataset.ofTable (Sample.values 1 Sample.afterOne) Sample.labels none none none =
        .ok dataset ∧
      Course Sample.policy (.repeating []) dataset 0 state origins ∧
      ∃ (node : Node Float) (cut : Cut Float) (column : Column Float) (lower upper : Entry Float)
        (origin below above : Origin Float),
        state.forest.slots[0]? = some { node, children := some (1, 2) } ∧ node.cut = some cut ∧
        origins[0]? = some origin ∧ origins[1]? = some below ∧ origins[2]? = some above ∧
        Division Sample.policy.measure (leastDecrease Sample.policy dataset) node origin.columns cut
          column 0 lower upper ∧
        column.idsUpTo 0 = [0, 1, 2, 3] ∧ below.ids = [] ∧
        (∀ index ∈ [0, 1, 2, 3], index ∈ above.ids ∧
          Scalar.le (Dataset.cell (Sample.rows 1 Sample.afterOne) cut.feature.toNat index)
            cut.threshold = true) ∧
        ¬ column.Coincide 0 cut.threshold
          (Dataset.cell (Sample.rows 1 Sample.afterOne) cut.feature.toNat) below.ids above.ids := by
  have passed : Outcome.passes (Sample.course 1 Sample.afterOne 1) (fun (_, state, origins) =>
      (state.forest.slots[0]?.any fun slot =>
        slot.children == some (1, 2) && slot.node.cut.all fun cut =>
          [0, 1, 2, 3].all fun index => Scalar.le (Dataset.cell (Sample.rows 1 Sample.afterOne)
            cut.feature.toNat index) cut.threshold) &&
      (origins[0]?.all fun origin => origin.columns.all fun column =>
        column.entries.map Entry.indices == [[0, 1, 2, 3], [4, 5, 6, 7]]) &&
      origins[1]?.map Origin.ids == some [] &&
      origins[2]?.map Origin.ids == some [0, 1, 2, 3, 4, 5, 6, 7]) = true := by
    decide +kernel
  obtain ⟨dataset, state, origins, accepted, course, test⟩ := Sample.exists_course passed
  simp only [Bool.and_eq_true, beq_iff_eq, Option.any_eq_true, Option.all_eq_true,
    List.all_eq_true] at test
  obtain ⟨⟨⟨⟨⟨node, children⟩, found, divided, routed⟩, entries⟩, belowIds⟩, aboveIds⟩ := test
  obtain rfl : children = some (1, 2) := divided
  obtain ⟨width, rows, -, fromRows⟩ := Dataset.fromRows_of_ofTable accepted
  have sound := (course.sound fromRows Draws.bounded_zeros).forest_sound
  obtain ⟨origin, originFound⟩ := sound.exists_origin found
  obtain ⟨-, cut, column, place, lower, upper, branching⟩ :=
    sound.exists_branching found originFound
  obtain ⟨below, belowFound, -⟩ := branching.left_origin
  obtain ⟨above, aboveFound, -⟩ := branching.right_origin
  rw [belowFound, Option.map_some, Option.some.injEq] at belowIds
  rw [aboveFound, Option.map_some, Option.some.injEq] at aboveIds
  have between := branching.division.between
  have indices := entries origin originFound column (List.mem_of_getElem? between.column_eq)
  obtain rfl : place = 0 := by
    have inside := (List.getElem?_eq_some_iff.mp between.upper_eq).1
    have length := congrArg List.length indices
    rw [List.length_map] at length
    rw [length] at inside
    exact Nat.lt_one_iff.mp (Nat.lt_of_succ_lt_succ inside)
  have scored : column.idsUpTo 0 = [0, 1, 2, 3] := by
    rw [Column.idsUpTo, List.flatMap_def, List.map_take, indices]
    rfl
  refine ⟨dataset, state, origins, accepted, course, node, cut, column, lower, upper, origin, below,
    above, found, branching.cut_eq, originFound, belowFound, aboveFound, branching.division, scored,
    belowIds, ?_, ?_⟩
  · intro index member
    refine ⟨?_, routed cut branching.cut_eq index member⟩
    rw [aboveIds]
    exact List.mem_append_left [4, 5, 6, 7] member
  · intro coincide
    have perm := coincide.left_perm
    rw [belowIds, scored] at perm
    cases perm.nil_eq

/-- Growth over an accepted table with floats.  A child holds all examples of a node exactly if the
threshold leaves all values of the column on one side, which it does not if the values beside the
cut are separable.  So growth ends if any two different values of a feature are separable, after at
most one level more than there are examples.  It also ends if no node but the root passes all of its
examples on, after at most one level later.  If another node does, growth does not end for a policy
that searches all boundaries of all features at every depth. -/
theorem Course.growth_ends
    (accepted : Dataset.ofTable values labels weights names table = .ok dataset)
    (bounded : draws.Bounded) {started : State Float σ}
    (start : Growth.start policy.measure dataset source = .ok started) :
    (∀ {state : State Float σ} {origins : List (Origin Float)} {id : Nat},
      Course policy draws dataset source state origins →
        ∀ {node : Node Float} {left right : Nat},
          state.forest.slots[id]? = some { node, children := some (left, right) } →
            ∃ cut column place lower upper origin,
              node.cut = some cut ∧ origins[id]? = some origin ∧
              cut.Between origin.columns column place lower upper ∧
              (state.forest.Idle origins id ↔ ¬ column.Parted cut.threshold) ∧
              (state.forest.Idle origins id → ¬ Separable lower.value upper.value)) ∧
    (∃ width rows, values.grid = .ok (.table width rows) ∧
      (SeparableRows dataset rows →
        ∃ final, Growth.grow policy draws dataset.features.size (leastDecrease policy dataset)
          (dataset.size + 1) started = .ok final ∧ final.frontier = [])) ∧
    ((∀ {state : State Float σ} {origins : List (Origin Float)},
        Course policy draws dataset source state origins →
          ∀ id, id ≠ 0 → ¬ state.forest.Idle origins id) →
      ∃ final, Growth.grow policy draws dataset.features.size (leastDecrease policy dataset)
        (dataset.size + 2) started = .ok final ∧ final.frontier = []) ∧
    (policy.Exhaustive dataset.features.size →
      ((∃ levels final, Growth.grow policy draws dataset.features.size
          (leastDecrease policy dataset) levels started = .ok final) ↔
        ∀ {state : State Float σ} {origins : List (Origin Float)},
          Course policy draws dataset source state origins →
            ∀ id, id ≠ 0 → ¬ state.forest.Idle origins id)) := by
  obtain ⟨width, rows, grid, fromRows⟩ := Dataset.fromRows_of_ofTable accepted
  refine ⟨?_, ⟨width, rows, grid, fun separable => ?_⟩, ?_,
    fun exhaustive => Course.ends_iff exhaustive fromRows bounded start⟩
  · intro state origins id course node left right found
    have sound := (course.sound fromRows bounded).forest_sound
    obtain ⟨origin, originFound⟩ := sound.exists_origin found
    obtain ⟨originSound, cut, column, place, lower, upper, branching⟩ :=
      sound.exists_branching found originFound
    have idle_iff := branching.idle_iff originSound found originFound
    refine ⟨cut, column, place, lower, upper, origin, branching.cut_eq, originFound,
      branching.division.between, idle_iff, fun idle separable => ?_⟩
    have separates := (branching.separates_iff originSound).mpr separable
    exact idle_iff.mp idle (branching.division.between.parted separates)
  · obtain ⟨final, ended⟩ := (Course.start start).grow_of_separated fromRows bounded
      (Ground.separated_of_separable fromRows separable)
    obtain ⟨ledger, -, empty⟩ := (Course.start start).grow ended
    exact ⟨final, ended, empty⟩
  · intro busy
    obtain ⟨final, ended⟩ := (Course.start start).grow_of_busy fromRows bounded busy
    obtain ⟨ledger, -, empty⟩ := (Course.start start).grow ended
    exact ⟨final, ended, empty⟩

theorem Sample.exhaustive : (Sample.policy : Policy Float).Exhaustive 1 := by
  constructor
  · rfl
  · rfl
  · rfl
  · exact Nat.zero_lt_one

/-- The values of the sample with zero and one are separable, so growth ends, and no node but the
root is divided idly. -/
theorem Course.growth_ends_sample :
    ∃ (dataset : Dataset Float) (started final last : State Float Nat),
      Dataset.ofTable (Sample.values 0 1) Sample.labels none none none = .ok dataset ∧
      Growth.start Sample.policy.measure dataset 0 = .ok started ∧
      Growth.grow Sample.policy (.repeating []) dataset.features.size
        (leastDecrease Sample.policy dataset) 2 started = .ok final ∧ final.forest.size = 3 ∧
      SeparableRows dataset (Sample.rows 0 1) ∧
      Growth.grow Sample.policy (.repeating []) dataset.features.size
        (leastDecrease Sample.policy dataset) (dataset.size + 1) started = .ok last ∧
      last.frontier = [] ∧
      (Sample.policy : Policy Float).Exhaustive dataset.features.size ∧
      ∀ {state : State Float Nat} {origins : List (Origin Float)},
        Course Sample.policy (.repeating []) dataset 0 state origins →
          ∀ id, id ≠ 0 → ¬ state.forest.Idle origins id := by
  have passed : Outcome.passes (do
      let dataset ← Dataset.ofTable (Sample.values (0 : Float) 1) Sample.labels none none none
      let started ← Growth.start Sample.policy.measure dataset 0
      let final ← Growth.grow Sample.policy (.repeating []) dataset.features.size
        (leastDecrease Sample.policy dataset) 2 started
      pure (dataset, final)) (fun (dataset, final) => dataset.features.size == 1 &&
        dataset.indices == [0, 1, 2, 3, 4, 5, 6, 7] && final.forest.size == 3) = true := by
    decide +kernel
  obtain ⟨⟨dataset, final⟩, computed, test⟩ := Outcome.exists_of_passes passed
  simp only [Bool.and_eq_true, beq_iff_eq] at test
  obtain ⟨⟨features, indices⟩, size⟩ := test
  obtain ⟨other, accepted, computed⟩ := Outcome.bind_eq_ok.mp computed
  obtain ⟨started, start, computed⟩ := Outcome.bind_eq_ok.mp computed
  obtain ⟨ended, grown, pair⟩ := Outcome.bind_eq_ok.mp computed
  obtain ⟨rfl, rfl⟩ := Prod.mk.inj (Except.ok.inj pair)
  have halved : ∀ first ∈ [0, 1, 2, 3, 4, 5, 6, 7], ∀ second ∈ [0, 1, 2, 3, 4, 5, 6, 7],
      let lower : Float := Dataset.cell (Sample.rows 0 1) 0 first
      let upper : Float := Dataset.cell (Sample.rows 0 1) 0 second
      Scalar.lt lower upper = true → (lower + upper).isFinite = true ∧
        Scalar.lt lower (1 / 2) = true ∧ Scalar.lt (1 / 2) upper = true := by
    decide +kernel
  have separable : SeparableRows other (Sample.rows 0 1) := by
    rw [SeparableRows, features, indices]
    intro feature isFeature first firstRow second secondRow less
    obtain rfl := Nat.lt_one_iff.mp isFeature
    obtain ⟨finite, above, below⟩ := halved first firstRow second secondRow less
    exact ⟨finite, _, above, below⟩
  have exhaustive := features ▸ Sample.exhaustive
  obtain ⟨-, ⟨width, rows, grid, ends⟩, -, ends_iff⟩ :=
    Course.growth_ends accepted Draws.bounded_zeros start
  obtain rfl := Sample.rows_eq grid
  obtain ⟨last, lastEq, empty⟩ := ends separable
  exact ⟨other, started, ended, last, accepted, start, grown, size, separable, lastEq, empty,
    exhaustive, (ends_iff exhaustive).mp ⟨2, ended, grown⟩⟩

/-- Over the sample with one and the next float a node passes all of its examples on to a child,
and growth does not end. -/
theorem Course.endless_neighbours :
    ∃ (dataset : Dataset Float) (started state : State Float Nat) (origins : List (Origin Float)),
      Dataset.ofTable (Sample.values 1 Sample.afterOne) Sample.labels none none none =
        .ok dataset ∧
      Growth.start Sample.policy.measure dataset 0 = .ok started ∧
      Course Sample.policy (.repeating []) dataset 0 state origins ∧
      state.forest.Idle origins 2 ∧
      ¬ ∃ levels final, Growth.grow Sample.policy (.repeating []) dataset.features.size
        (leastDecrease Sample.policy dataset) levels started = .ok final := by
  have passed : Outcome.passes (Sample.course 1 Sample.afterOne 2) (fun (dataset, state, origins) =>
      dataset.features.size == 1 && state.forest.slots[2]?.bind Slot.children == some (3, 4) &&
      origins[2]?.map Origin.ids == some [0, 1, 2, 3, 4, 5, 6, 7] &&
      origins[4]?.map Origin.ids == some [0, 1, 2, 3, 4, 5, 6, 7]) = true := by
    decide +kernel
  obtain ⟨dataset, state, origins, accepted, course, test⟩ := Sample.exists_course passed
  simp only [Bool.and_eq_true, beq_iff_eq, Option.bind_eq_some_iff, Option.map_eq_some_iff] at test
  obtain ⟨⟨⟨features, ⟨node, children⟩, found, divided⟩, origin, originFound, ids⟩, child,
    childFound, childIds⟩ := test
  obtain rfl : children = some (3, 4) := divided
  have idle : state.forest.Idle origins 2 := by
    refine ⟨node, 3, 4, origin, child, found, originFound, .inr childFound, ?_⟩
    intro index member
    rwa [childIds, ← ids]
  have exhaustive := features ▸ Sample.exhaustive
  obtain ⟨width, rows, -, fromRows⟩ := Dataset.fromRows_of_ofTable accepted
  obtain ⟨started, start⟩ := course.exists_started
  refine ⟨dataset, started, state, origins, accepted, start, course, idle, fun ends => ?_⟩
  exact (Course.ends_iff exhaustive fromRows Draws.bounded_zeros start).mp ends course 2
    (Nat.succ_ne_zero 1) idle

end DecisionTree.Growth
