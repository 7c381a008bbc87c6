import DecisionTree.Proofs.Growth.Routing
import Mathlib.Data.List.Perm.Subperm

/-!
# When growth ends

A division is idle if one of the two children holds all examples of the node.  This happens
exactly if all values of the column are on one side of the threshold (`Branching.idle_iff`), so it
does not happen where thresholds separate the values beside them (`Forest.Sound.busy`).  Where no
division is idle, the nodes of every level have fewer examples than those of the level before, so
growth ends after at most one level for each example (`Course.grow_of_below`).
-/

namespace DecisionTree

variable {α σ : Type} [Scalar α]

/-- Some value of a column is below a threshold, and some value is not. -/
def Column.Parted (column : Column α) (threshold : α) : Prop :=
  (∃ entry ∈ column.entries, Scalar.le threshold entry.value = false) ∧
    ∃ entry ∈ column.entries, Scalar.le threshold entry.value = true

namespace Growth

/-- A threshold that separates the values beside a cut parts the values of the column. -/
theorem Cut.Between.parted [Scalar.Ordered α] {columns : List (Column α)} {cut : Cut α}
    {column : Column α} {place : Nat} {lower upper : Entry α}
    (between : cut.Between columns column place lower upper)
    (separates : Scalar.Separates lower.value cut.threshold upper.value) :
    column.Parted cut.threshold := by
  obtain ⟨above, below⟩ := separates
  constructor
  · exact ⟨lower, List.mem_of_getElem? between.lower_eq, Scalar.Ordered.not_le_of_lt above⟩
  · exact ⟨upper, List.mem_of_getElem? between.upper_eq, Scalar.Ordered.le_of_lt below⟩

/-- A node was divided, but one of its children holds all of its examples. -/
def Forest.Idle (forest : Forest α) (origins : List (Origin α)) (id : Nat) : Prop :=
  ∃ node left right origin child,
    forest.slots[id]? = some { node, children := some (left, right) } ∧
      origins[id]? = some origin ∧
        (origins[left]? = some child ∨ origins[right]? = some child) ∧
          ∀ index ∈ origin.ids, index ∈ child.ids

variable {ground : Ground α} {origins : List (Origin α)} {id left right : Nat} {node : Node α}
variable {origin : Origin α} {cut : Cut α} {column : Column α} {place : Nat}
variable {lower upper : Entry α} {forest : Forest α}

/-- Parts of a list into which a test divides it hold less than all of it if and only if some
element passes the test and some does not. -/
theorem length_filter_lt_iff {β : Type} (values : List β) (test : β → Bool) :
    (values.filter test).length < values.length ∧
        (values.filter fun value => !test value).length < values.length ↔
      (∃ value ∈ values, test value = true) ∧ ∃ value ∈ values, test value = false := by
  simp only [List.length_filter_lt_length_iff_exists, Bool.not_eq_true', Bool.not_eq_false,
    Bool.not_eq_true, and_comm]

variable [Scalar.Ordered α]

/-- Both children have fewer examples than the node exactly if the threshold parts the values of
the column. -/
theorem Branching.parted_iff (originSound : origin.Sound ground)
    (branching : Branching ground origins id node origin left right cut column place lower upper) :
    ∃ below above, origins[left]? = some below ∧ origins[right]? = some above ∧
      (below.ids ++ above.ids).Perm origin.ids ∧
      (column.Parted cut.threshold ↔
        below.ids.length < origin.ids.length ∧ above.ids.length < origin.ids.length) := by
  obtain ⟨below, belowFound, -, belowPerm⟩ := branching.left_origin
  obtain ⟨above, aboveFound, -, abovePerm⟩ := branching.right_origin
  have describes := originSound.columnsOf.describes _ column branching.division.between.column_eq
  refine ⟨below, above, belowFound, aboveFound, ?_, ?_⟩
  · exact (belowPerm.append abovePerm).trans (List.filter_append_perm _ _)
  · rw [belowPerm.length_eq, abovePerm.length_eq, length_filter_lt_iff]
    -- the entries of the column are not empty, so their values are those of examples
    have some_iff : ∀ side : Bool,
        (∃ entry ∈ column.entries, Scalar.le cut.threshold entry.value = side) ↔
          ∃ index ∈ origin.ids, ground.goesLeft cut index = !side := by
      intro side
      constructor
      · rintro ⟨entry, member, comparison⟩
        obtain ⟨index, held⟩ :=
          List.exists_mem_of_ne_nil _ (describes.settled entry member).nonempty
        refine ⟨index, describes.mem_iff.mp ⟨entry, member, held⟩, ?_⟩
        rw [← comparison, ← (describes.le_entry member held cut.threshold).1]
        rfl
      · rintro ⟨index, isId, goes⟩
        obtain ⟨entry, member, held⟩ := describes.mem_iff.mpr isId
        refine ⟨entry, member, ?_⟩
        rw [← (describes.le_entry member held cut.threshold).1]
        exact Bool.not_inj goes
    rw [Column.Parted, some_iff, some_iff]
    rfl

/-- A division is idle exactly if all values of the column are on one side of the threshold. -/
theorem Branching.idle_iff (originSound : origin.Sound ground)
    (found : forest.slots[id]? = some { node, children := some (left, right) })
    (originFound : origins[id]? = some origin)
    (branching : Branching ground origins id node origin left right cut column place lower upper) :
    forest.Idle origins id ↔ ¬ column.Parted cut.threshold := by
  obtain ⟨below, above, belowFound, aboveFound, whole, parted⟩ := branching.parted_iff originSound
  rw [parted]
  have lengths := whole.length_eq
  rw [List.length_append] at lengths
  have distinct := whole.nodup_iff.mpr originSound.nodup
  obtain ⟨belowDistinct, aboveDistinct, -⟩ := List.nodup_append.mp distinct
  have subset : ∀ index, index ∈ below.ids ∨ index ∈ above.ids → index ∈ origin.ids := by
    intro index member
    exact whole.mem_iff.mp (List.mem_append.mpr member)
  constructor
  · rintro ⟨other, first, second, own, child, slotFound, ownFound, childFound, all⟩
    rw [found] at slotFound
    obtain ⟨-, children⟩ := (Slot.mk.injEq ..).mp (Option.some.inj slotFound)
    obtain ⟨rfl, rfl⟩ := (Prod.mk.injEq ..).mp (Option.some.inj children)
    rw [originFound] at ownFound
    obtain rfl := Option.some.inj ownFound
    have size := (originSound.nodup.subperm all).length_le
    rcases childFound with childFound | childFound
    · rw [belowFound] at childFound
      obtain rfl := Option.some.inj childFound
      omega
    · rw [aboveFound] at childFound
      obtain rfl := Option.some.inj childFound
      omega
  · intro notBoth
    refine ⟨node, left, right, origin, ?_⟩
    by_cases small : below.ids.length < origin.ids.length
    · refine ⟨above, found, originFound, .inr aboveFound, ?_⟩
      have perm := (aboveDistinct.subperm fun index member =>
        subset index (.inr member)).perm_of_length_le (by omega)
      exact fun index member => perm.mem_iff.mpr member
    · refine ⟨below, found, originFound, .inl belowFound, ?_⟩
      have perm := (belowDistinct.subperm fun index member =>
        subset index (.inl member)).perm_of_length_le (by omega)
      exact fun index member => perm.mem_iff.mpr member

/-- Where thresholds separate the values beside them, no node is divided idly. -/
theorem Forest.Sound.busy (sound : forest.Sound ground origins) (separated : ground.Separated)
    (id : Nat) : ¬ forest.Idle origins id := by
  intro idle
  have divided := idle
  obtain ⟨node, left, right, origin, -, found, originFound, -⟩ := divided
  obtain ⟨originSound, cut, column, place, lower, upper, branching⟩ :=
    sound.exists_branching found originFound
  exact (branching.idle_iff originSound found originFound).mp idle
    (branching.division.between.parted (separated originSound branching))

/-- Every node of a level stands for fewer examples than a bound. -/
def State.Below (origins : List (Origin α)) (state : State α σ) (bound : Nat) : Prop :=
  ∀ id ∈ state.frontier, ∀ origin, origins[id]? = some origin → origin.ids.length < bound

variable {policy : Policy α} {draws : Draws σ} {dataset : Dataset α} {rows : List (List α)}
variable {source : σ} {state after : State α σ} {bound : Nat}

omit [Scalar.Ordered α] in
theorem State.Sound.exists_origin {id : Nat} (sound : state.Sound ground origins)
    (member : id ∈ state.frontier) (forest : Forest α) :
    ∃ origin, origins[id]? = some origin ∧ (forest.ledger origins)[id]? = some origin := by
  obtain ⟨node, columns, found, -⟩ := sound.live id member
  obtain ⟨origin, originFound⟩ := sound.forest_sound.exists_origin found
  have old := (List.getElem?_eq_some_iff.mp originFound).1
  exact ⟨origin, originFound, (Forest.getElem?_ledger old).trans originFound⟩

omit [Scalar.Ordered α] in
/-- Every node of a new level is a child of an earlier node of the level before. -/
theorem Stepped.exists_branching (stepped : Stepped policy draws ground origins state after)
    (sound : state.Sound ground origins) (member : id ∈ after.frontier) :
    ∃ parent ∈ state.frontier, parent < id ∧ ∃ origin, origins[parent]? = some origin ∧
      origin.Sound ground ∧ ∃ node left right cut column place lower upper,
        after.forest.slots[parent]? = some { node, children := some (left, right) } ∧
        (after.forest.ledger origins)[parent]? = some origin ∧ (id = left ∨ id = right) ∧
        Branching ground (after.forest.ledger origins) parent node origin left right cut column
          place lower upper := by
  obtain ⟨parent, parentMember, node, left, right, found, isChild⟩ := stepped.parent id member
  obtain ⟨origin, oldFound, originFound⟩ := sound.exists_origin parentMember after.forest
  obtain ⟨originSound, cut, column, place, lower, upper, branching⟩ :=
    stepped.sound.forest_sound.exists_branching found originFound
  have later := branching.left_gt
  have next := branching.right_eq
  refine ⟨parent, parentMember, ?_, origin, oldFound, originSound, node, left, right,
    cut, column, place, lower, upper, found, originFound, isChild, branching⟩
  rcases isChild with rfl | rfl <;> omega

/-- A level without idle divisions lowers the bound. -/
theorem Stepped.below (stepped : Stepped policy draws ground origins state after)
    (sound : state.Sound ground origins) (below : state.Below origins (bound + 1))
    (busy : ∀ id ∈ state.frontier, ¬ after.forest.Idle (after.forest.ledger origins) id) :
    after.Below (after.forest.ledger origins) bound := by
  intro id member child childFound
  obtain ⟨parent, parentMember, -, origin, oldFound, originSound, node, left, right, cut, column,
    place, lower, upper, found, originFound, isChild, branching⟩ :=
      stepped.exists_branching sound member
  have small := below parent parentMember origin oldFound
  have busy := busy parent parentMember
  rw [branching.idle_iff originSound found originFound, not_not] at busy
  obtain ⟨less, greater, lessFound, greaterFound, -, parted⟩ := branching.parted_iff originSound
  obtain ⟨lessSmall, greaterSmall⟩ := parted.mp busy
  rcases isChild with rfl | rfl
  · rw [lessFound] at childFound
    obtain rfl := Option.some.inj childFound
    omega
  · rw [greaterFound] at childFound
    obtain rfl := Option.some.inj childFound
    omega

/-- Growth ends if no node from some id on is divided idly. -/
theorem Course.grow_of_below {first : Nat} (fromRows : dataset.FromRows rows)
    (bounded : draws.Bounded) (course : Course policy draws dataset source state origins)
    (below : state.Below origins bound) (late : ∀ id ∈ state.frontier, first ≤ id)
    (busy : ∀ {state : State α σ} {origins : List (Origin α)},
      Course policy draws dataset source state origins →
        ∀ id, first ≤ id → ¬ state.forest.Idle origins id) :
    ∃ final, Growth.grow policy draws dataset.features.size (leastDecrease policy dataset) bound
      state = .ok final := by
  induction bound generalizing state origins with
  | zero =>
      have empty : state.frontier = [] := by
        apply List.eq_nil_iff_forall_not_mem.mpr
        intro id member
        obtain ⟨origin, found, -⟩ :=
          (course.sound fromRows bounded).exists_origin member state.forest
        exact Nat.not_lt_zero _ (below id member origin found)
      refine ⟨state, ?_⟩
      rw [Growth.grow, empty]
      rfl
  | succ bound ih =>
      rw [Growth.grow]
      split
      next => exact ⟨state, rfl⟩
      next =>
        obtain ⟨after, grown, stepped⟩ := course.exists_step fromRows bounded
        have next := course.level grown
        have sound := course.sound fromRows bounded
        have afterBelow := stepped.below sound below fun id member => busy next id (late id member)
        obtain ⟨final, finished⟩ := ih next afterBelow fun id member => by
          obtain ⟨parent, parentMember, less, -⟩ := stepped.exists_branching sound member
          have := late parent parentMember
          omega
        exact ⟨final, Outcome.bind_eq_ok.mpr ⟨after, grown, finished⟩⟩

/-- No node stands for more examples than there are. -/
theorem Course.below_size (fromRows : dataset.FromRows rows) (bounded : draws.Bounded)
    (course : Course policy draws dataset source state origins) :
    state.Below origins (dataset.size + 1) := by
  intro id member origin found
  have sound := course.sound fromRows bounded
  obtain ⟨node, columns, slotFound, -⟩ := sound.live id member
  have originSound := (sound.forest_sound.slots id _ origin slotFound found).origin_sound
  have subset : origin.ids ⊆ dataset.indices := fun index indexMember =>
    Dataset.mem_indices.mpr (originSound.inRange index indexMember)
  have size := (originSound.nodup.subperm subset).length_le
  rw [Dataset.indices, List.length_map, List.length_range] at size
  omega

/-- Growth ends if thresholds separate the values beside them. -/
theorem Course.grow_of_separated (fromRows : dataset.FromRows rows) (bounded : draws.Bounded)
    (course : Course policy draws dataset source state origins)
    (separated : (groundOf policy dataset rows).Separated) :
    ∃ final, Growth.grow policy draws dataset.features.size (leastDecrease policy dataset)
      (dataset.size + 1) state = .ok final :=
  course.grow_of_below fromRows bounded (course.below_size fromRows bounded)
    (fun id _ => Nat.zero_le id)
    fun course id _ => (course.sound fromRows bounded).forest_sound.busy separated id

/-- Growth ends if no node but the root is divided idly. -/
theorem Course.grow_of_busy (fromRows : dataset.FromRows rows) (bounded : draws.Bounded)
    (course : Course policy draws dataset source state origins)
    (busy : ∀ {state : State α σ} {origins : List (Origin α)},
      Course policy draws dataset source state origins →
        ∀ id, id ≠ 0 → ¬ state.forest.Idle origins id) :
    ∃ final, Growth.grow policy draws dataset.features.size (leastDecrease policy dataset)
      (dataset.size + 2) state = .ok final := by
  rw [Growth.grow]
  split
  next => exact ⟨state, rfl⟩
  next =>
    obtain ⟨after, grown, stepped⟩ := course.exists_step fromRows bounded
    have next := course.level grown
    obtain ⟨final, finished⟩ := next.grow_of_below fromRows bounded
      (next.below_size fromRows bounded)
      (fun id member => by
        obtain ⟨parent, -, later, -⟩ :=
          stepped.exists_branching (course.sound fromRows bounded) member
        omega)
      fun course id positive => busy course id (Nat.ne_of_gt positive)
    exact ⟨final, Outcome.bind_eq_ok.mpr ⟨after, grown, finished⟩⟩

end Growth

end DecisionTree
