import DecisionTree.Proofs.Growth.Decision
import DecisionTree.Proofs.Growth.Depth

/-!
# The shape of a growing forest

Nodes are numbered in the order in which they come into being, so their ids follow their depths,
the two children of a node have consecutive ids, and the nodes of a level are the last ones.
`State.Shaped` says so of a forest between two levels, and every state of a course has this shape
(`Course.shaped`), whatever the scores were.

That no node has two parents is a matter of counting: a forest has one node more than its nodes
with children have children, and every node but the root is a child (`Forest.Sound.childIds_perm`).
-/

namespace DecisionTree.Growth

variable {α σ : Type}

namespace Forest

/-- A node is one of the two children of another one. -/
def IsChild (forest : Forest α) (parent id : Nat) : Prop :=
  ∃ node left right, forest.slots[parent]? = some { node, children := some (left, right) } ∧
    (id = left ∨ id = right)

/-- The children of all nodes, in the order of their parents. -/
def childIds (forest : Forest α) : List Nat :=
  forest.shape.flatMap fun children => children.elim [] fun pair => [pair.1, pair.2]

variable {forest : Forest α} {parent other id : Nat}

theorem length_childIds (forest : Forest α) :
    forest.childIds.length = 2 * forest.splitCount := by
  rw [childIds, splitCount, shape]
  induction forest.slots with
  | nil => rfl
  | cons slot rest ih =>
      rw [List.map_cons, List.flatMap_cons, List.length_append, ih, List.countP_cons]
      cases slot.children with
      | none => simp
      | some pair =>
          simp only [Option.elim_some, List.length_cons, List.length_nil, Option.isSome_some,
            if_true]
          omega

/-- Where the children of a node stand among the children of all nodes. -/
theorem isChild_iff : forest.IsChild parent id ↔
    ∃ children, forest.shape[parent]? = some children ∧
      id ∈ children.elim [] fun pair => [pair.1, pair.2] := by
  rw [shape_getElem?]
  constructor
  · rintro ⟨node, left, right, found, isChild⟩
    refine ⟨some (left, right), by rw [found]; rfl, ?_⟩
    rwa [Option.elim_some, List.mem_pair]
  · rintro ⟨children, found, member⟩
    obtain ⟨⟨node, children⟩, slotFound, rfl⟩ := Option.map_eq_some_iff.mp found
    cases children with
    | none => cases member
    | some pair => exact ⟨node, pair.1, pair.2, slotFound, List.mem_pair.mp member⟩

theorem IsChild.mem_childIds (isChild : forest.IsChild parent id) : id ∈ forest.childIds := by
  obtain ⟨children, found, member⟩ := isChild_iff.mp isChild
  exact List.mem_flatMap.mpr ⟨children, List.mem_of_getElem? found, member⟩

/-- Children that are all different have one parent each. -/
theorem IsChild.parent_unique (distinct : forest.childIds.Nodup)
    (isChild : forest.IsChild parent id) (otherChild : forest.IsChild other id) :
    parent = other := by
  obtain ⟨children, found, member⟩ := isChild_iff.mp isChild
  obtain ⟨others, otherFound, otherMember⟩ := isChild_iff.mp otherChild
  obtain ⟨inside, rfl⟩ := List.getElem?_eq_some_iff.mp found
  obtain ⟨otherInside, rfl⟩ := List.getElem?_eq_some_iff.mp otherFound
  have apart := List.pairwise_iff_getElem.mp (List.nodup_flatMap.mp distinct).2
  rcases Nat.lt_trichotomy parent other with before | same | after
  · exact absurd otherMember (apart _ _ inside otherInside before member)
  · exact same
  · exact absurd member (apart _ _ otherInside inside after otherMember)

end Forest

/-- A forest after a number of levels.  The nodes of the current level are those at that depth. -/
structure State.Shaped (levels : Nat) (state : State α σ) : Prop where
  root_depth : ∀ slot, state.forest.slots[0]? = some slot → slot.node.depth = 0
  /-- The children of a node are two later nodes in a row, one level deeper. -/
  children : ∀ (id : Nat) (node : Node α) (left right : Nat),
    state.forest.slots[id]? = some { node, children := some (left, right) } →
      id < left ∧ right = left + 1 ∧ ∃ below above, state.forest.slots[left]? = some below ∧
        state.forest.slots[right]? = some above ∧ below.node.depth = node.depth + 1 ∧
        above.node.depth = node.depth + 1
  parent : ∀ id, id ≠ 0 → id < state.forest.size → ∃! parent, state.forest.IsChild parent id
  isSome_iff_isSplit : ∀ (id : Nat) (slot : Slot α), state.forest.slots[id]? = some slot →
    (slot.children.isSome = true ↔ slot.node.isSplit = true)
  depth_mono : ∀ (first second : Nat) (slot other : Slot α),
    state.forest.slots[first]? = some slot → state.forest.slots[second]? = some other →
      first ≤ second → slot.node.depth ≤ other.node.depth
  depth_le : ∀ (id : Nat) (slot : Slot α), state.forest.slots[id]? = some slot →
    slot.node.depth ≤ levels
  nodup : state.frontier.Nodup
  frontier_iff : ∀ id, id ∈ state.frontier ↔
    ∃ slot, state.forest.slots[id]? = some slot ∧ slot.node.depth = levels

variable [Scalar α] {ground : Ground α} {forest : Forest α} {origins : List (Origin α)}
variable {policy : Policy α} {draws : Draws σ} {dataset : Dataset α} {source : σ}
variable {rows : List (List α)} {state after : State α σ} {id levels limit : Nat}

namespace Forest.Sound

/-- The children of all nodes are the nodes but the root, each once. -/
theorem childIds_perm (sound : forest.Sound ground origins) :
    forest.childIds.Perm (List.range' 1 (forest.size - 1)) := by
  have subset : List.range' 1 (forest.size - 1) ⊆ forest.childIds := by
    intro id member
    obtain ⟨positive, inside⟩ := List.mem_range'_1.mp member
    obtain ⟨parent, node, left, right, found, isChild⟩ :=
      sound.child id (by omega) (by omega)
    exact Forest.IsChild.mem_childIds ⟨node, left, right, found, isChild⟩
  have distinct : (List.range' 1 (forest.size - 1)).Nodup := List.nodup_range'
  have enough : forest.childIds.length ≤ (List.range' 1 (forest.size - 1)).length := by
    rw [Forest.length_childIds, List.length_range', sound.size_eq]
    omega
  exact ((distinct.subperm subset).perm_of_length_le enough).symm

theorem nodup_childIds (sound : forest.Sound ground origins) : forest.childIds.Nodup :=
  sound.childIds_perm.nodup_iff.mpr List.nodup_range'

/-- Every node but the root has one parent. -/
theorem existsUnique_parent (sound : forest.Sound ground origins) (notRoot : id ≠ 0)
    (inside : id < forest.size) : ∃! parent, forest.IsChild parent id := by
  obtain ⟨parent, node, left, right, found, isChild⟩ := sound.child id notRoot inside
  exact ⟨parent, ⟨node, left, right, found, isChild⟩, fun other otherChild =>
    otherChild.parent_unique sound.nodup_childIds ⟨node, left, right, found, isChild⟩⟩

/-- Children come after their parent. -/
theorem lt_of_isChild (sound : forest.Sound ground origins) {parent : Nat}
    (isChild : forest.IsChild parent id) : parent < id := by
  obtain ⟨node, left, right, found, isChild⟩ := isChild
  obtain ⟨origin, originFound⟩ := sound.exists_origin found
  obtain ⟨-, cut, column, place, lower, upper, branching⟩ :=
    sound.exists_branching found originFound
  have left_gt := branching.left_gt
  have right_eq := branching.right_eq
  omega

end Forest.Sound

/-- A node of a level that gets no children gets no cut. -/
theorem Parts.cut_eq {tasks : List (Task α σ)} {planned : Forest α}
    (parts : Parts policy draws ground origins state after tasks planned) {slot changed : Slot α}
    (member : id ∈ state.frontier) (before : state.forest.slots[id]? = some slot)
    (found : after.forest.slots[id]? = some changed) (childless : changed.children = none) :
    changed.node.cut = slot.node.cut := by
  have of_task : ∀ task ∈ tasks, task.id = id →
      slot = { node := task.node, children := none } := by
    rintro task taskMember rfl
    exact Option.some.inj (before.symm.trans (parts.plan.assigned task taskMember).slot_eq)
  by_cases searched : ∃ pair ∈ tasks.zip (policy.workOn draws ground.least tasks),
      pair.1.id = id
  · obtain ⟨pair, paired, rfl⟩ := searched
    obtain rfl := of_task pair.1 (List.of_mem_zip paired).1 rfl
    cases parts.gathered.became pair paired with
    | divided _ _ _ _ divided =>
        obtain rfl := Option.some.inj (divided.symm.trans found)
        cases childless
    | settled none settled =>
        obtain rfl := Option.some.inj (settled.symm.trans found)
        obtain ⟨origin, -, -, ending⟩ := parts.ended pair paired
        cases ending with
        | settled nodeEq => simp only [nodeEq, Node.release]
        | divided _ _ _ _ _ _ _ _ pairEq => cases none.symm.trans pairEq
  · have unchanged : after.forest.slots[id]? = planned.slots[id]? := by
      refine parts.gathered.frame id ?_ fun pair paired same => searched ⟨pair, paired, same⟩
      rw [parts.plan.size_eq]
      exact Forest.lt_size before
    rw [unchanged] at found
    rcases parts.plan.settled id member slot before with ⟨task, taskMember, rfl⟩ | released
    · obtain rfl := of_task task taskMember rfl
      obtain rfl := Option.some.inj
        ((parts.plan.ready task taskMember).slot_eq.symm.trans found)
      rfl
    · obtain rfl := Option.some.inj (released.symm.trans found)
      rfl

/-- The new level consists of the nodes that were added. -/
theorem Stepped.mem_frontier_iff (stepped : Stepped policy draws ground origins state after) :
    id ∈ after.frontier ↔ state.forest.size ≤ id ∧ id < after.forest.size := by
  constructor
  · intro member
    obtain ⟨node, columns, found, -⟩ := stepped.sound.live id member
    exact ⟨stepped.fresh id member, Forest.lt_size found⟩
  · rintro ⟨isNew, inside⟩
    exact (stepped.born id _ isNew (List.getElem?_eq_getElem inside)).1

namespace Course

variable [Scalar.Ordered α] (fromRows : dataset.FromRows rows) (bounded : draws.Bounded)

include fromRows bounded

/-- After some levels, the nodes of the level are those of that depth. -/
theorem layered
    (reached : Course.after policy draws dataset source levels = .ok (state, origins)) :
    state.Layered levels := by
  induction levels generalizing state origins with
  | zero =>
      obtain ⟨started, start, same⟩ := Outcome.bind_eq_ok.mp reached
      obtain ⟨rfl, -⟩ := Prod.mk.inj (Except.ok.inj same)
      exact start_layered start
  | succ levels ih =>
      obtain ⟨⟨before, ledger⟩, earlier, later⟩ := Outcome.bind_eq_ok.mp reached
      obtain ⟨next, grown, same⟩ := Outcome.bind_eq_ok.mp later
      obtain ⟨rfl, -⟩ := Prod.mk.inj (Except.ok.inj same)
      have course := Course.iff_after.mpr ⟨levels, earlier⟩
      have stepped := course.stepped fromRows bounded grown
      exact stepped.layered (ih earlier)

variable (course : Course policy draws dataset source state origins)

include course

/-- The root stands at depth zero. -/
theorem root_depth {slot : Slot α} (found : state.forest.slots[0]? = some slot) :
    slot.node.depth = 0 := by
  induction course generalizing slot with
  | start started => exact Nat.le_zero.mp ((start_layered started).depth_le 0 slot found)
  | level course grown ih =>
      have stepped := course.stepped fromRows bounded grown
      obtain ⟨origin, originFound, -⟩ := course.root_origin
      obtain ⟨before, beforeFound⟩ :=
        (course.sound fromRows bounded).forest_sound.exists_slot originFound
      obtain ⟨changed, changedFound, statistics⟩ := stepped.exists_kept beforeFound
      obtain rfl := Option.some.inj (changedFound.symm.trans found)
      rw [Node.depth_congr statistics, ih beforeFound]

/-- The nodes with children are those with a cut. -/
theorem isSome_iff_isSplit {slot : Slot α} (found : state.forest.slots[id]? = some slot) :
    slot.children.isSome = true ↔ slot.node.isSplit = true := by
  obtain ⟨node, children⟩ := slot
  cases children with
  | some pair =>
      have sound := (course.sound fromRows bounded).forest_sound
      obtain ⟨origin, originFound⟩ := sound.exists_origin found
      obtain ⟨-, cut, column, place, lower, upper, branching⟩ :=
        sound.exists_branching found originFound
      rw [Node.isSplit, branching.cut_eq]
      exact Iff.rfl
  | none =>
      suffices uncut : node.cut = none by
        rw [Node.isSplit, uncut]
        exact Iff.rfl
      induction course generalizing node with
      | start started =>
          have layered := start_layered started
          have atStart := Nat.le_zero.mp (layered.depth_le id _ found)
          exact (layered.undivided id _ ((layered.frontier_iff id _ found).mpr atStart) found).2
      | @level state after origins course grown ih =>
          have sound := course.sound fromRows bounded
          have measure : policy.measure = (groundOf policy dataset rows).measure := rfl
          obtain ⟨other, tasks, planned, otherEq, parts⟩ :=
            step_parts bounded fromRows.known measure sound
          obtain rfl := Except.ok.inj (otherEq.symm.trans grown)
          have stepped := parts.stepped sound
          by_cases isNew : state.forest.size ≤ id
          · exact (stepped.born id _ isNew found).2.2.1
          by_cases member : id ∈ state.frontier
          · obtain ⟨own, columns, before, -⟩ := sound.live id member
            rw [parts.cut_eq member before found rfl, ih own before]
          · rw [stepped.frame id (by omega) member] at found
            exact ih node found

/-- Later nodes are not less deep. -/
theorem depth_mono {first second : Nat} {slot other : Slot α}
    (found : state.forest.slots[first]? = some slot)
    (otherFound : state.forest.slots[second]? = some other) (before : first ≤ second) :
    slot.node.depth ≤ other.node.depth := by
  obtain ⟨levels, reached⟩ := Course.iff_after.mp course
  induction levels generalizing state origins slot other with
  | zero =>
      have layered := Course.layered fromRows bounded reached
      have := layered.depth_le first slot found
      omega
  | succ levels ih =>
      have nextLayered := Course.layered fromRows bounded reached
      obtain ⟨⟨earlier, ledger⟩, earlierEq, later⟩ := Outcome.bind_eq_ok.mp reached
      obtain ⟨next, grown, same⟩ := Outcome.bind_eq_ok.mp later
      obtain ⟨rfl, -⟩ := Prod.mk.inj (Except.ok.inj same)
      have start := Course.iff_after.mpr ⟨levels, earlierEq⟩
      have stepped := start.stepped fromRows bounded grown
      by_cases isNew : earlier.forest.size ≤ second
      · have member := (stepped.born second other isNew otherFound).1
        rw [(nextLayered.frontier_iff second other otherFound).mp member]
        exact nextLayered.depth_le first slot found
      · have old : second < earlier.forest.size := by omega
        have firstOld : first < earlier.forest.size := by omega
        obtain ⟨less, lessFound, lessSame⟩ :=
          stepped.exists_kept (List.getElem?_eq_getElem firstOld)
        obtain ⟨greater, greaterFound, greaterSame⟩ :=
          stepped.exists_kept (List.getElem?_eq_getElem old)
        obtain rfl := Option.some.inj (lessFound.symm.trans found)
        obtain rfl := Option.some.inj (greaterFound.symm.trans otherFound)
        rw [Node.depth_congr lessSame, Node.depth_congr greaterSame]
        exact ih start (List.getElem?_eq_getElem firstOld) (List.getElem?_eq_getElem old) earlierEq

/-- No node is deeper than the limit. -/
theorem depth_le_limit (limited : policy.maxDepth = some limit) {slot : Slot α}
    (found : state.forest.slots[id]? = some slot) : slot.node.depth ≤ limit := by
  induction course generalizing id slot with
  | start started =>
      exact Nat.le_trans ((start_layered started).depth_le id slot found) limit.zero_le
  | @level state after origins course grown ih =>
      have stepped := course.stepped fromRows bounded grown
      by_cases isNew : state.forest.size ≤ id
      · obtain ⟨-, -, -, parent, -, own, -, admits, depth⟩ := stepped.born id slot isNew found
        rw [depth]
        exact (Policy.admits_iff.mp admits).1 limit limited
      · have old : id < state.forest.size := by omega
        obtain ⟨changed, changedFound, same⟩ :=
          stepped.exists_kept (List.getElem?_eq_getElem old)
        obtain rfl := Option.some.inj (changedFound.symm.trans found)
        rw [Node.depth_congr same]
        exact ih (List.getElem?_eq_getElem old)

omit course in
/-- Every state of a course is of the shape that belongs to its level. -/
theorem shaped
    (reached : Course.after policy draws dataset source levels = .ok (state, origins)) :
    state.Shaped levels := by
  have course := Course.iff_after.mpr ⟨levels, reached⟩
  have sound := course.sound fromRows bounded
  have layered := Course.layered fromRows bounded reached
  exact {
    root_depth := fun slot => course.root_depth fromRows bounded
    children := fun id node left right found => by
      obtain ⟨origin, originFound⟩ := sound.forest_sound.exists_origin found
      obtain ⟨-, cut, column, place, lower, upper, branching⟩ :=
        sound.forest_sound.exists_branching found originFound
      exact ⟨branching.left_gt, branching.right_eq,
        course.depth_children fromRows bounded found⟩
    parent := fun id => sound.forest_sound.existsUnique_parent
    isSome_iff_isSplit := fun id slot => course.isSome_iff_isSplit fromRows bounded
    depth_mono := fun first second slot other => course.depth_mono fromRows bounded
    depth_le := layered.depth_le
    nodup := sound.nodup
    frontier_iff := fun id => by
      constructor
      · intro member
        obtain ⟨node, columns, found, -⟩ := sound.live id member
        exact ⟨_, found, (layered.frontier_iff id _ found).mp member⟩
      · rintro ⟨slot, found, depth⟩
        exact (layered.frontier_iff id slot found).mpr depth }

end Course

end DecisionTree.Growth
