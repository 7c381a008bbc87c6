import DecisionTree.Proofs.Growth.Level
import DecisionTree.Proofs.Paths

/-!
# What holds of all nodes

A property holds of all nodes of a growing forest if the root has it, releasing a node keeps it, and
a task for a node with the property leaves nothing but such nodes behind (`Forest.Every.grow`).
Nothing is asked of the dataset or of the workspaces, so this is how to prove what holds of datasets
with values that are no numbers, too.
-/

namespace DecisionTree.Growth

variable {α σ : Type}

/-- All nodes of a forest have a property. -/
def Forest.Every (property : Node α → Prop) (forest : Forest α) : Prop :=
  ∀ slot ∈ forest.slots, property slot.node

/-- All nodes that a split leaves behind have a property. -/
def Outcome.Every (property : Node α → Prop) (outcome : Outcome α) : Prop :=
  property outcome.node ∧
    ∀ children, outcome.children = .ok children → ∀ child ∈ children, property child

namespace Outcome.Every

variable {property : Node α → Prop} {outcome : Outcome α}

theorem of_error (holds : property outcome.node) {error : Error}
    (failed : outcome.children = .error error) : outcome.Every property := by
  refine ⟨holds, fun children success => ?_⟩
  rw [failed] at success
  cases success

theorem of_nil (holds : property outcome.node) (ended : outcome.children = .ok []) :
    outcome.Every property := by
  refine ⟨holds, fun children same child member => ?_⟩
  obtain rfl := Except.ok.inj (ended.symm.trans same)
  cases member

theorem of_pair (holds : property outcome.node) {left right : Node α}
    (children : outcome.children = .ok [left, right]) (leftHolds : property left)
    (rightHolds : property right) : outcome.Every property := by
  refine ⟨holds, fun others same child member => ?_⟩
  obtain rfl := Except.ok.inj (children.symm.trans same)
  rcases List.mem_pair.mp member with rfl | rfl
  · exact leftHolds
  · exact rightHolds

end Outcome.Every

theorem Forest.mem_of_slot {forest : Forest α} {id : Int} {slot : Slot α}
    (found : forest.slot id = .ok slot) : slot ∈ forest.slots := by
  unfold Forest.slot at found
  split at found
  next other looked => exact Except.ok.inj found ▸ Position.mem_of_get? looked
  next => cases found

variable {property : Node α → Prop} {forest after : Forest α}

namespace Forest.Every

theorem modify (every : forest.Every property) {change : Slot α → Slot α}
    (kept : ∀ slot, property slot.node → property (change slot).node) (id : Nat) :
    (forest.modify id change).Every property := by
  intro slot member
  rw [slots_modify] at member
  obtain ⟨place, found⟩ := List.getElem?_of_mem member
  rw [List.getElem?_modify] at found
  obtain ⟨before, beforeFound, rfl⟩ := Option.map_eq_some_iff.mp found
  have holds := every before (List.mem_of_getElem? beforeFound)
  split
  · exact kept before holds
  · exact holds

theorem setNode (every : forest.Every property) {node : Node α} (holds : property node) (id : Nat) :
    (forest.setNode id node).Every property :=
  every.modify (fun _ _ => holds) id

theorem attach (every : forest.Every property) {id : Nat} {children : List (Node α)}
    {ids : List Nat} (holds : ∀ child ∈ children, property child)
    (attached : forest.attach id children = .ok (ids, after)) : after.Every property := by
  unfold Forest.attach at attached
  split at attached
  next =>
    obtain ⟨-, rfl⟩ := Prod.mk.inj (Except.ok.inj attached)
    exact every
  next left right =>
    obtain ⟨slot, -, attached⟩ := Outcome.bind_eq_ok.mp attached
    split at attached
    next => cases attached
    next =>
      obtain ⟨-, rfl⟩ := Prod.mk.inj (Except.ok.inj attached)
      apply modify
      · intro slot member
        rcases List.mem_append.mp member with old | new
        · exact every slot old
        · rcases List.mem_pair.mp new with rfl | rfl
          · exact holds left List.mem_cons_self
          · exact holds right (List.mem_cons_of_mem _ List.mem_cons_self)
      · exact fun slot slotHolds => slotHolds
  next => cases attached

theorem gather (every : forest.Every property) {pairs : List (Task α σ × Outcome α)}
    {new : List Nat} (outcomes : ∀ pair ∈ pairs, pair.2.Every property)
    (gathered : Growth.gather pairs forest = .ok (new, after)) : after.Every property := by
  induction pairs generalizing forest new with
  | nil =>
      obtain ⟨-, rfl⟩ := Prod.mk.inj (Except.ok.inj gathered)
      exact every
  | cons pair rest ih =>
      obtain ⟨own, children⟩ := outcomes pair List.mem_cons_self
      obtain ⟨added, addedEq, gathered⟩ := Outcome.bind_eq_ok.mp gathered
      obtain ⟨⟨ids, grown⟩, attached, gathered⟩ := Outcome.bind_eq_ok.mp gathered
      obtain ⟨⟨others, last⟩, restGathered, same⟩ := Outcome.bind_eq_ok.mp gathered
      obtain ⟨-, rfl⟩ := Prod.mk.inj (Except.ok.inj same)
      have branched := (every.setNode own pair.1.id).attach (children added addedEq) attached
      exact ih branched (fun other member => outcomes other (List.mem_cons_of_mem _ member))
        restGathered

end Forest.Every

variable [Scalar α] {policy : Policy α} {draws : Draws σ} {width : Nat} {least : α}

/-- Planning a level keeps the property, and its tasks are for nodes that have it and for features
that there are. -/
theorem Forest.Every.plan (every : forest.Every property)
    (released : ∀ node, property node → property node.release) {ids : List Nat} {source next : σ}
    {tasks : List (Task α σ)}
    (planned : policy.plan draws width ids forest source = .ok (tasks, after, next)) :
    after.Every property ∧ ∀ task ∈ tasks, property task.node ∧
      ∀ feature ∈ task.features, 0 ≤ feature ∧ feature < width := by
  induction ids generalizing forest source tasks with
  | nil =>
      obtain ⟨rfl, same⟩ := Prod.mk.inj (Except.ok.inj planned)
      obtain ⟨rfl, -⟩ := Prod.mk.inj same
      exact ⟨every, fun _ member => (List.not_mem_nil member).elim⟩
  | cons id rest ih =>
      obtain ⟨slot, found, planned⟩ := Outcome.bind_eq_ok.mp planned
      have holds := every slot (mem_of_slot found)
      split at planned
      next =>
        obtain ⟨⟨others, later, source⟩, restPlanned, made⟩ := Outcome.bind_eq_ok.mp planned
        obtain ⟨rfl, same⟩ := Prod.mk.inj (Except.ok.inj made)
        obtain ⟨rfl, rfl⟩ := Prod.mk.inj same
        obtain ⟨afterEvery, othersHold⟩ := ih every restPlanned
        exact ⟨afterEvery, List.forall_mem_cons.mpr
          ⟨⟨holds, policy.drawFeatures_known draws width _⟩, othersHold⟩⟩
      next => exact ih (every.setNode (released slot.node holds) id) planned

namespace Policy

/-- What one worker does is what some tasks do in some workspaces. -/
theorem exists_task_of_mem_workThrough {tasks : List (Task α σ)} {workspace : Workspace}
    {outcome : Outcome α} (member : outcome ∈ policy.workThrough draws least tasks workspace) :
    ∃ task ∈ tasks, ∃ workspace : Workspace,
      outcome = (task.node.split policy.splitter policy.measure draws task.features task.source
        least workspace).1 := by
  induction tasks generalizing workspace with
  | nil => cases member
  | cons task rest ih =>
      rcases List.mem_cons.mp member with rfl | later
      · exact ⟨task, List.mem_cons_self, workspace, rfl⟩
      · obtain ⟨other, otherMember, found⟩ := ih later
        exact ⟨other, List.mem_cons_of_mem _ otherMember, found⟩

theorem mem_of_mem_chunks {β : Type} {length : Nat} {items chunk : List β} {item : β}
    (isChunk : chunk ∈ chunks length items) (member : item ∈ chunk) : item ∈ items := by
  have positive : 0 < length := by
    by_contra zero
    rw [chunks, dif_neg fun both => zero both.1] at isChunk
    cases isChunk
  rw [← flatten_chunks positive items]
  exact List.mem_flatten.mpr ⟨chunk, isChunk, member⟩

/-- However a level is shared, its outcomes are those of some tasks in some workspaces. -/
theorem exists_task_of_mem_workOn {tasks : List (Task α σ)} {outcome : Outcome α}
    (member : outcome ∈ policy.workOn draws least tasks) :
    ∃ task ∈ tasks, ∃ workspace : Workspace,
      outcome = (task.node.split policy.splitter policy.measure draws task.features task.source
        least workspace).1 := by
  unfold workOn at member
  split at member
  next => exact exists_task_of_mem_workThrough member
  next =>
    obtain ⟨chunk, isChunk, member⟩ := List.mem_flatMap.mp member
    obtain ⟨task, inChunk, found⟩ := exists_task_of_mem_workThrough member
    exact ⟨task, mem_of_mem_chunks isChunk inChunk, found⟩

end Policy

/-- Releasing a node keeps a property, and so does searching a node and splitting it, in whatever
workspace. -/
structure Kept (policy : Policy α) (draws : Draws σ) (width : Nat) (least : α)
    (property : Node α → Prop) : Prop where
  released : ∀ node, property node → property node.release
  split : ∀ (node : Node α) (features : List Int) (source : σ) (workspace : Workspace),
    property node → (∀ feature ∈ features, 0 ≤ feature ∧ feature < width) →
      (node.split policy.splitter policy.measure draws features source least
        workspace).1.Every property

variable {state final : State α σ}

/-- A level keeps a property of all nodes. -/
theorem Forest.Every.step (kept : Kept policy draws width least property)
    (every : state.forest.Every property)
    (grown : Growth.step policy draws width least state = .ok final) :
    final.forest.Every property := by
  obtain ⟨⟨tasks, forest, source⟩, planned, grown⟩ := Outcome.bind_eq_ok.mp grown
  obtain ⟨⟨frontier, last⟩, gathered, same⟩ := Outcome.bind_eq_ok.mp grown
  obtain rfl := Except.ok.inj same
  obtain ⟨forestEvery, tasksHold⟩ := every.plan kept.released planned
  refine forestEvery.gather (fun pair member => ?_) gathered
  obtain ⟨task, taskMember, workspace, outcomeEq⟩ :=
    Policy.exists_task_of_mem_workOn (List.of_mem_zip member).2
  obtain ⟨holds, known⟩ := tasksHold task taskMember
  rw [outcomeEq]
  exact kept.split task.node task.features task.source workspace holds known

/-- Growth keeps a property of all nodes. -/
theorem Forest.Every.grow (kept : Kept policy draws width least property)
    (every : state.forest.Every property) {levels : Nat}
    (grown : Growth.grow policy draws width least levels state = .ok final) :
    final.forest.Every property := by
  induction levels generalizing state with
  | zero =>
      rw [Growth.grow] at grown
      split at grown
      next => exact Except.ok.inj grown ▸ every
      next => cases grown
  | succ levels ih =>
      rw [Growth.grow] at grown
      split at grown
      next => exact Except.ok.inj grown ▸ every
      next =>
        obtain ⟨after, stepped, grown⟩ := Outcome.bind_eq_ok.mp grown
        exact ih (every.step kept stepped) grown

end DecisionTree.Growth
