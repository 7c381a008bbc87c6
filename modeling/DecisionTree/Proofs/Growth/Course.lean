import DecisionTree.Proofs.Dataset.Table
import DecisionTree.Proofs.Growth.Level

/-!
# The course of growth

`Course` lists the states that growth over a dataset passes through, from one level to the
next, together with the ledger of the forest.  Every state of a course is sound
(`Course.sound`), so a course never gets stuck (`Course.exists_step`).  `Course.after` computes
the state after a number of levels, for instance over the rows of `Sample`.
-/

namespace DecisionTree.Growth

variable {α σ : Type} [Scalar α]

/-- The states between the levels of growth over a dataset, each with the ledger of its forest.
The root stands for all examples; every other node is entered when its level has been grown. -/
inductive Course (policy : Policy α) (draws : Draws σ) (dataset : Dataset α) (source : σ) :
    State α σ → List (Origin α) → Prop
  | start {state : State α σ} (started : start policy.measure dataset source = .ok state) :
      Course policy draws dataset source state
        (state.forest.slots.map fun slot =>
          { columns := slot.node.columns.getD [], ids := dataset.indices })
  | level {state after : State α σ} {origins : List (Origin α)}
      (course : Course policy draws dataset source state origins)
      (grown : step policy draws dataset.features.size (leastDecrease policy dataset) state =
        .ok after) :
      Course policy draws dataset source after (after.forest.ledger origins)

/-- The state after a number of levels, with the ledger of its forest. -/
def Course.after (policy : Policy α) (draws : Draws σ) (dataset : Dataset α) (source : σ) :
    Nat → Except Error (State α σ × List (Origin α))
  | 0 => do
      let state ← Growth.start policy.measure dataset source
      pure (state, state.forest.slots.map fun slot =>
        { columns := slot.node.columns.getD [], ids := dataset.indices })
  | levels + 1 => do
      let (state, origins) ← after policy draws dataset source levels
      let next ← step policy draws dataset.features.size (leastDecrease policy dataset) state
      pure (next, next.forest.ledger origins)

/-- The course of growth is what can be computed level by level. -/
theorem Course.iff_after {policy : Policy α} {draws : Draws σ} {dataset : Dataset α} {source : σ}
    {state : State α σ} {origins : List (Origin α)} :
    Course policy draws dataset source state origins ↔
      ∃ levels, after policy draws dataset source levels = .ok (state, origins) := by
  constructor
  · intro course
    induction course with
    | start started => exact ⟨0, Outcome.bind_eq_ok.mpr ⟨_, started, rfl⟩⟩
    | level course grown ih =>
        obtain ⟨levels, before⟩ := ih
        exact ⟨levels + 1, Outcome.bind_eq_ok.mpr
          ⟨_, before, Outcome.bind_eq_ok.mpr ⟨_, grown, rfl⟩⟩⟩
  · rintro ⟨levels, computed⟩
    induction levels generalizing state origins with
    | zero =>
        obtain ⟨started, start, same⟩ := Outcome.bind_eq_ok.mp computed
        obtain ⟨rfl, rfl⟩ := Prod.mk.inj (Except.ok.inj same)
        exact .start start
    | succ levels ih =>
        obtain ⟨⟨before, ledger⟩, earlier, later⟩ := Outcome.bind_eq_ok.mp computed
        obtain ⟨next, grown, same⟩ := Outcome.bind_eq_ok.mp later
        obtain ⟨rfl, rfl⟩ := Prod.mk.inj (Except.ok.inj same)
        exact .level (ih earlier) grown

/-! Eight rows with one feature, which has two values.  Neither value has rows of a single label,
so the rows can be divided between the values, but no further. -/

namespace Sample

/-- Four rows with one value and four with another. -/
def rows (lower upper : α) : List (List α) :=
  List.replicate 4 [lower] ++ List.replicate 4 [upper]

def values (lower upper : α) : Nested α :=
  .many ((rows lower upper).map fun row => .many (row.map .one))

omit [Scalar α] in
theorem rows_eq {lower upper : α} {width : Nat} {table : List (List α)}
    (grid : (values lower upper).grid = .ok (.table width table)) : table = rows lower upper := by
  obtain ⟨-, same⟩ := (Grid.table.injEq ..).mp (Except.ok.inj grid)
  exact same.symm

def labels : Nested Label :=
  .many ([0, 0, 0, 1, 1, 1, 1, 0].map fun label => .one (.int label))

/-- All splits that lower the impurity are made. -/
def policy : Policy α where
  measure := .gini
  splitter := .best
  maxDepth := none
  minWeight := 0
  minDecrease := 0
  featuresDrawn := 1
  workers := 1

/-- The accepted table, and the course of growth over it after some levels. -/
def course (lower upper : α) (levels : Nat) :
    Except Error (Dataset α × State α Nat × List (Origin α)) := do
  let dataset ← Dataset.ofTable (values lower upper) labels none none none
  let reached ← Course.after policy (.repeating []) dataset 0 levels
  pure (dataset, reached)

theorem course_spec {lower upper : α} {levels : Nat} {dataset : Dataset α} {state : State α Nat}
    {origins : List (Origin α)}
    (computed : course lower upper levels = .ok (dataset, state, origins)) :
    Dataset.ofTable (values lower upper) labels none none none = .ok dataset ∧
      Course policy (.repeating []) dataset 0 state origins := by
  obtain ⟨other, accepted, later⟩ := Outcome.bind_eq_ok.mp computed
  obtain ⟨⟨after, ledger⟩, reached, pair⟩ := Outcome.bind_eq_ok.mp later
  obtain ⟨rfl, same⟩ := Prod.mk.inj (Except.ok.inj pair)
  obtain ⟨rfl, rfl⟩ := Prod.mk.inj same
  exact ⟨accepted, Course.iff_after.mpr ⟨levels, reached⟩⟩

theorem exists_course {lower upper : α} {levels : Nat}
    {test : Dataset α × State α Nat × List (Origin α) → Bool}
    (passed : Outcome.passes (course lower upper levels) test = true) :
    ∃ dataset state origins,
      Dataset.ofTable (values lower upper) labels none none none = .ok dataset ∧
      Course policy (.repeating []) dataset 0 state origins ∧
      test (dataset, state, origins) = true := by
  obtain ⟨⟨dataset, state, origins⟩, computed, tested⟩ := Outcome.exists_of_passes passed
  obtain ⟨accepted, course⟩ := course_spec computed
  exact ⟨dataset, state, origins, accepted, course, tested⟩

end Sample

/-- What a tree over the rows of a table is grown from. -/
def groundOf (policy : Policy α) (dataset : Dataset α) (rows : List (List α)) : Ground α where
  targets := dataset.targets
  value feature index := Dataset.clearZero (Dataset.cell rows feature index)
  width := dataset.features.size
  count := dataset.size
  measure := policy.measure
  least := leastDecrease policy dataset

variable {policy : Policy α} {draws : Draws σ} {dataset : Dataset α} {source : σ}
variable {rows : List (List α)} {state : State α σ} {origins : List (Origin α)}

/-- Growth starts with a single node over all examples. -/
theorem start_eq {measure : Measure α} (started : start measure dataset source = .ok state) :
    ∃ columns counts, dataset.columns = .ok columns ∧ dataset.labelCounts = .ok counts ∧
      state = {
        forest := .ofRoot (Node.ofCounts measure columns dataset.size 0 counts)
        frontier := [0]
        source } := by
  obtain ⟨root, rootEq, started⟩ := Outcome.bind_eq_ok.mp started
  obtain ⟨columns, columnsEq, rootEq⟩ := Outcome.bind_eq_ok.mp rootEq
  obtain ⟨counts, countsEq, rootEq⟩ := Outcome.bind_eq_ok.mp rootEq
  obtain rfl := Except.ok.inj rootEq
  obtain rfl := Except.ok.inj started
  exact ⟨columns, counts, columnsEq, countsEq, rfl⟩

variable [Scalar.Ordered α]

/-- Growth over a table that is not too wide can be started. -/
theorem exists_start (fromRows : dataset.FromRows rows)
    (narrow : dataset.features.size ≤ 2 ^ 63) (measure : Measure α) (source : σ) :
    ∃ state, start measure dataset source = .ok state := by
  obtain ⟨columns, columnsEq⟩ := fromRows.exists_columns narrow
  have root : rootOf measure dataset =
      .ok (Node.ofCounts measure columns dataset.size 0
        (dataset.targets.tally dataset.indices)) := by
    rw [rootOf, columnsEq, fromRows.labelCounts_eq]
    rfl
  have started : start measure dataset source = .ok {
      forest := .ofRoot (Node.ofCounts measure columns dataset.size 0
        (dataset.targets.tally dataset.indices))
      frontier := [0]
      source } := by
    rw [start, root]
    rfl
  exact ⟨_, started⟩

/-- The first state of growth is sound. -/
theorem start_sound (fromRows : dataset.FromRows rows)
    (started : start policy.measure dataset source = .ok state) :
    state.Sound (groundOf policy dataset rows)
      (state.forest.slots.map fun slot =>
        { columns := slot.node.columns.getD [], ids := dataset.indices }) := by
  obtain ⟨columns, counts, columnsEq, countsEq, rfl⟩ := start_eq started
  obtain ⟨length, describes⟩ := fromRows.describes columnsEq
  rw [fromRows.labelCounts_eq] at countsEq
  obtain rfl := Except.ok.inj countsEq
  have single : ∀ {β : Type} {value other : β} {id : Nat}, [value][id]? = some other →
      id = 0 ∧ other = value := by
    intro β value other id found
    cases id with
    | zero => exact ⟨rfl, (Option.some.inj found).symm⟩
    | succ id => cases found
  constructor
  · constructor
    · rfl
    · intro id slot origin slotFound originFound
      obtain ⟨rfl, rfl⟩ := single slotFound
      obtain ⟨-, rfl⟩ := single originFound
      refine { origin_sound := ⟨⟨length, ?_, ?_⟩, Dataset.nodup_indices dataset,
                 Dataset.inRange_indices dataset⟩,
               columns_eq := ?_, columns_ne_nil := fun notRoot => absurd rfl notRoot,
               exampleCount_eq := ?_, counts_eq := rfl, impurity_eq := rfl, branching := ?_ }
      · exact fun feature column found => (describes feature column found).1
      · exact fun feature column found => (describes feature column found).2
      · exact fun others found => (Option.some.inj found).symm
      · simp [Node.ofCounts, Dataset.indices]
      · intro left right impossible
        cases impossible
    · rfl
    · intro id notRoot inside
      exact absurd (Nat.lt_one_iff.mp inside) notRoot
    · intro first second origin other firstLeaf secondLeaf differ
      obtain ⟨node, firstFound, -⟩ := firstLeaf
      obtain ⟨_, secondFound, -⟩ := secondLeaf
      exact absurd ((single firstFound).1.trans (single secondFound).1.symm) differ
    · intro index
      constructor
      · intro member
        exact ⟨0, _, ⟨_, rfl, rfl⟩, member⟩
      · rintro ⟨id, origin, ⟨node, -, originFound⟩, member⟩
        obtain ⟨-, rfl⟩ := single originFound
        exact member
  · exact List.nodup_singleton 0
  · intro id member
    obtain rfl := List.mem_singleton.mp member
    exact ⟨_, columns, rfl, rfl⟩

namespace Course

/-- Every state of the course of growth is sound. -/
theorem sound (fromRows : dataset.FromRows rows) (bounded : draws.Bounded)
    (course : Course policy draws dataset source state origins) :
    state.Sound (groundOf policy dataset rows) origins := by
  induction course with
  | start started => exact start_sound fromRows started
  | level course grown ih =>
      obtain ⟨after, afterEq, stepped⟩ := step_spec bounded fromRows.known rfl ih
      obtain rfl := Except.ok.inj (afterEq.symm.trans grown)
      exact stepped.sound

/-- The next level can always be grown. -/
theorem exists_step (fromRows : dataset.FromRows rows) (bounded : draws.Bounded)
    (course : Course policy draws dataset source state origins) :
    ∃ after, step policy draws dataset.features.size (leastDecrease policy dataset) state =
        .ok after ∧ Stepped policy draws (groundOf policy dataset rows) origins state after :=
  step_spec bounded fromRows.known rfl (course.sound fromRows bounded)

/-- What the next level gives. -/
theorem stepped (fromRows : dataset.FromRows rows) (bounded : draws.Bounded)
    (course : Course policy draws dataset source state origins) {after : State α σ}
    (grown : step policy draws dataset.features.size (leastDecrease policy dataset) state =
      .ok after) :
    Stepped policy draws (groundOf policy dataset rows) origins state after := by
  obtain ⟨other, otherEq, stepped⟩ := course.exists_step fromRows bounded
  obtain rfl := Except.ok.inj (otherEq.symm.trans grown)
  exact stepped

omit [Scalar.Ordered α] in
/-- Growing some levels stays on the course. -/
theorem grow {levels : Nat} {final : State α σ}
    (course : Course policy draws dataset source state origins)
    (grown : Growth.grow policy draws dataset.features.size (leastDecrease policy dataset) levels
      state = .ok final) :
    ∃ ledger, Course policy draws dataset source final ledger ∧ final.frontier = [] := by
  induction levels generalizing state origins with
  | zero =>
      rw [Growth.grow] at grown
      split at grown
      next empty =>
        obtain rfl := Except.ok.inj grown
        exact ⟨origins, course, List.isEmpty_iff.mp empty⟩
      next => cases grown
  | succ levels ih =>
      rw [Growth.grow] at grown
      split at grown
      next empty =>
        obtain rfl := Except.ok.inj grown
        exact ⟨origins, course, List.isEmpty_iff.mp empty⟩
      next =>
        obtain ⟨after, stepped, grown⟩ := Outcome.bind_eq_ok.mp grown
        exact ih (course.level stepped) grown

omit [Scalar.Ordered α] in
/-- The root stands for all examples. -/
theorem root_origin (course : Course policy draws dataset source state origins) :
    ∃ origin, origins[0]? = some origin ∧ origin.ids = dataset.indices := by
  induction course with
  | start started =>
      obtain ⟨columns, counts, -, -, rfl⟩ := start_eq started
      exact ⟨_, rfl, rfl⟩
  | level course grown ih =>
      obtain ⟨origin, found, ids⟩ := ih
      have old := (List.getElem?_eq_some_iff.mp found).1
      exact ⟨origin, (Forest.getElem?_ledger old).trans found, ids⟩

omit [Scalar.Ordered α] in
/-- A course has a start. -/
theorem exists_started (course : Course policy draws dataset source state origins) :
    ∃ started : State α σ, Growth.start policy.measure dataset source = .ok started := by
  induction course with
  | start started => exact ⟨_, started⟩
  | level course grown ih => exact ih

end Course

omit [Scalar.Ordered α] in
/-- Growth ends with an empty level. -/
theorem grow_of_empty {policy : Policy α} {draws : Draws σ} {width levels : Nat} {least : α}
    {state : State α σ} (empty : state.frontier = []) :
    grow policy draws width least levels state = .ok state := by
  cases levels <;> rw [grow, if_pos (List.isEmpty_iff.mpr empty)]

omit [Scalar.Ordered α] in
/-- As long as a level is not empty, growth takes a step. -/
theorem exists_step_of_grow {policy : Policy α} {draws : Draws σ} {width levels : Nat} {least : α}
    {state final : State α σ} (grown : grow policy draws width least levels state = .ok final)
    (busy : state.frontier ≠ []) :
    ∃ left after, step policy draws width least state = .ok after ∧
      grow policy draws width least left after = .ok final := by
  have notEmpty : ¬ state.frontier.isEmpty = true := mt List.isEmpty_iff.mp busy
  cases levels with
  | zero =>
      rw [grow, if_neg notEmpty] at grown
      cases grown
  | succ levels =>
      rw [grow, if_neg notEmpty] at grown
      obtain ⟨after, stepEq, grown⟩ := Outcome.bind_eq_ok.mp grown
      exact ⟨levels, after, stepEq, grown⟩

omit [Scalar.Ordered α] in
/-- Growth that has ended does not change if more levels are allowed. -/
theorem grow_add {policy : Policy α} {draws : Draws σ} {width levels : Nat} {least : α}
    {state final : State α σ} (ended : grow policy draws width least levels state = .ok final)
    (more : Nat) : grow policy draws width least (levels + more) state = .ok final := by
  induction levels generalizing state with
  | zero =>
      rw [grow] at ended
      split at ended
      next empty =>
        cases more with
        | zero => rwa [grow, if_pos empty]
        | succ more => rwa [Nat.zero_add, grow, if_pos empty]
      next => cases ended
  | succ levels ih =>
      rw [Nat.succ_add]
      rw [grow] at ended ⊢
      split at ended
      next empty => rwa [if_pos empty]
      next busy =>
        rw [if_neg busy]
        obtain ⟨after, grown, ended⟩ := Outcome.bind_eq_ok.mp ended
        exact Outcome.bind_eq_ok.mpr ⟨after, grown, ih ended⟩

end DecisionTree.Growth
