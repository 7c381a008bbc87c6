import DecisionTree.Dataset.Dense
import DecisionTree.Proofs.Binary64.Order
import DecisionTree.Proofs.Growth.Course

/-!
# The columns of a growing tree

Between any two levels of growth every node that was not searched yet holds one column for each
feature, all over the same examples, and the leaves share the examples of the dataset among
them.  So no partition meets an id that a column does not hold, and the next level can always be
grown (`Course.columns_inOrder`), whatever the arithmetic does to scores and thresholds.
-/

namespace DecisionTree

variable {α σ : Type} [Scalar α]

/-- A column of a feature over some examples of a dataset: the values ascend, so do the ids of
every entry, and every histogram lists the weights of the entry's examples, added up label by
label in the order of the ids. -/
structure Column.InOrder (dataset : Dataset α) (feature : Nat) (ids : List Int)
    (column : Column α) : Prop where
  feature_eq : column.feature = feature
  ascending : column.entries.Pairwise fun left right => Scalar.lt left.value right.value = true
  nonempty : ∀ entry ∈ column.entries, entry.indices ≠ []
  sorted : ∀ entry ∈ column.entries, entry.indices.Pairwise (· < ·)
  counted : ∀ entry ∈ column.entries, entry.counts =
    (List.range dataset.labels.size).map fun label =>
      Histogram.weightOf label 0
        (entry.indices.map fun index => (dataset.labelAt index, dataset.weightAt index))
  perm : column.indices.Perm ids

namespace Growth

/-- A node over some examples of a dataset, as long as it was not searched: it has a column in
order for each feature. -/
structure Node.InOrder (dataset : Dataset α) (ids : List Int) (node : Node α)
    (columns : List (Column α)) : Prop where
  length_eq : columns.length = dataset.features.size
  columns_inOrder : ∀ (feature : Nat) (column : Column α), columns[feature]? = some column →
    column.InOrder dataset feature ids
  nodup : ids.Nodup
  exampleCount_eq : node.exampleCount = ids.length

variable {policy : Policy α} {dataset : Dataset α} {rows : List (List α)}

theorem Slot.Sound.inOrder {origins : List (Origin α)} {id : Nat} {slot : Slot α}
    {origin : Origin α} (sound : slot.Sound (groundOf policy dataset rows) origins id origin)
    {columns : List (Column α)} (live : slot.node.columns = some columns) :
    slot.node.InOrder dataset origin.ids columns := by
  obtain rfl := sound.columns_eq columns live
  have columnsOf := sound.origin_sound.columnsOf
  constructor
  · exact columnsOf.length_eq
  · intro feature column found
    have describes := columnsOf.describes feature column found
    constructor
    · exact columnsOf.feature_eq feature column found
    · exact describes.ascending
    · exact fun entry member => (describes.settled entry member).nonempty
    · exact fun entry member => (describes.settled entry member).sorted
    · intro entry member
      simp only [← Dataset.labelled_eq]
      rw [(describes.settled entry member).counted]
      exact Histogram.tally_eq_map _ _
    · exact describes.perm
  · exact sound.origin_sound.nodup
  · exact sound.exampleCount_eq

/-- Whatever is drawn and whatever the rules, between any two levels of growth over an accepted
table the columns of all nodes that were not searched are in order, the leaves share the examples
of the dataset among them, the nodes of the level are leaves with columns, and the next level is
grown without failure. -/
theorem Course.columns_inOrder {values : Nested Float} {labels : Nested Label}
    {weights : Option (Nested Float)} {names : Option Setting} {table : Option LabelTable}
    {dataset : Dataset Float}
    (accepted : Dataset.ofTable values labels weights names table = .ok dataset)
    {policy : Policy Float} {draws : Draws σ} (bounded : draws.Bounded) {source : σ}
    {state : State Float σ} {origins : List (Origin Float)}
    (course : Course policy draws dataset source state origins) :
    (∀ (id : Nat) (slot : Slot Float) (columns : List (Column Float)),
      state.forest.slots[id]? = some slot → slot.node.columns = some columns →
        ∃ origin, origins[id]? = some origin ∧ slot.node.InOrder dataset origin.ids columns) ∧
    (∀ first second origin other, IsLeaf state.forest origins first origin →
      IsLeaf state.forest origins second other → first ≠ second → origin.ids.Disjoint other.ids) ∧
    (∀ index : Int, 0 ≤ index ∧ index < dataset.size ↔
      ∃ id origin, IsLeaf state.forest origins id origin ∧ index ∈ origin.ids) ∧
    (state.frontier.Nodup ∧ ∀ id ∈ state.frontier, state.forest.Live id) ∧
    ∃ after, step policy draws dataset.features.size (leastDecrease policy dataset) state =
      .ok after := by
  obtain ⟨width, rows, -, fromRows⟩ := Dataset.fromRows_of_ofTable accepted
  have sound := course.sound fromRows bounded
  obtain ⟨after, stepped, -⟩ := course.exists_step fromRows bounded
  refine ⟨?_, ?_, ?_, ⟨sound.nodup, sound.live⟩, after, stepped⟩
  · intro id slot columns found live
    obtain ⟨origin, originFound⟩ := sound.forest_sound.exists_origin found
    exact ⟨origin, originFound,
      (sound.forest_sound.slots id slot origin found originFound).inOrder live⟩
  · intro first second origin other firstLeaf secondLeaf differ index member otherMember
    exact sound.forest_sound.disjoint first second origin other firstLeaf secondLeaf differ index
      member otherMember
  · intro index
    rw [← Dataset.mem_indices]
    exact sound.forest_sound.cover index

/-- After the first level over the sample the two children are in order, and the next level can
be grown. -/
theorem Course.columns_inOrder_sample :
    ∃ (dataset : Dataset Float) (state : State Float Nat) (origins : List (Origin Float)),
      Dataset.ofTable (Sample.values 0 1) Sample.labels none none none = .ok dataset ∧
      Course Sample.policy (.repeating []) dataset 0 state origins ∧
      origins.map Origin.ids = [[0, 1, 2, 3, 4, 5, 6, 7], [0, 1, 2, 3], [4, 5, 6, 7]] ∧
      state.frontier = [1, 2] ∧
      (∀ id ∈ [1, 2], ∃ node columns origin,
        state.forest.slots[id]? = some { node, children := none } ∧
        origins[id]? = some origin ∧ node.InOrder dataset origin.ids columns) ∧
      ∃ after, step Sample.policy (.repeating []) dataset.features.size
        (leastDecrease Sample.policy dataset) state = .ok after := by
  have passed : Outcome.passes (Sample.course (0 : Float) 1 1) (fun (_, state, origins) =>
      state.frontier == [1, 2] && origins.map Origin.ids ==
        [[0, 1, 2, 3, 4, 5, 6, 7], [0, 1, 2, 3], [4, 5, 6, 7]]) = true := by
    decide +kernel
  obtain ⟨dataset, state, origins, accepted, course, test⟩ := Sample.exists_course passed
  simp only [Bool.and_eq_true, beq_iff_eq] at test
  obtain ⟨frontier, ids⟩ := test
  obtain ⟨inOrder, -, -, ⟨-, live⟩, next⟩ :=
    Course.columns_inOrder accepted Draws.bounded_zeros course
  refine ⟨dataset, state, origins, accepted, course, ids, frontier, ?_, next⟩
  rw [← frontier]
  intro id member
  obtain ⟨node, columns, found, columnsFound⟩ := live id member
  obtain ⟨origin, originFound, ordered⟩ := inOrder id _ columns found columnsFound
  exact ⟨node, columns, origin, found, originFound, ordered⟩

end Growth

end DecisionTree
