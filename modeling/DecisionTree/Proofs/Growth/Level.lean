import DecisionTree.Proofs.Growth.Ledger

/-!
# One level of growth

A level is planned, worked on and gathered.  Planning releases the nodes that may not be split
and makes a task of each of the others (`plan_spec`).  Every worker carries out its tasks in a
workspace whose table of marks is clean (`carried_of_mem_zip`).  Gathering the outcomes divides
the nodes of the tasks, or releases them, one after the other (`gather_spec`).  Each of these
changes keeps the forest sound, so a level does, and it changes nothing but the cuts and the
columns of the nodes of the level (`step_spec`).
-/

namespace DecisionTree.Growth

variable {α σ : Type} [Scalar α]

/-- A node that was not searched yet. -/
def Forest.Live (forest : Forest α) (id : Nat) : Prop :=
  ∃ node columns, forest.slots[id]? = some { node, children := none } ∧
    node.columns = some columns

/-- A task for a node that was not searched yet, with features that have columns. -/
structure Task.Ready (width : Nat) (forest : Forest α) (task : Task α σ) : Prop where
  slot_eq : forest.slots[task.id]? = some { node := task.node, children := none }
  live : ∃ columns, task.node.columns = some columns
  features_known : ∀ feature ∈ task.features, 0 ≤ feature ∧ feature < width

/-- All features in id order. -/
def allFeatures (width : Nat) : List Int :=
  (List.range width).map Int.ofNat

theorem mem_allFeatures {width : Nat} {feature : Int} (member : feature ∈ allFeatures width) :
    0 ≤ feature ∧ feature < width := by
  obtain ⟨place, placeMember, rfl⟩ := List.mem_map.mp member
  exact ⟨Int.natCast_nonneg place, Int.ofNat_lt.mpr (List.mem_range.mp placeMember)⟩

/-- A task for a node of a level that may be split. -/
structure Task.Assigned (policy : Policy α) (width : Nat) (forest : Forest α) (task : Task α σ) :
    Prop where
  slot_eq : forest.slots[task.id]? = some { node := task.node, children := none }
  admits : policy.admits task.node = true
  wide : 0 < width
  features_eq : policy.featuresDrawn = width → task.features = allFeatures width

variable {ground : Ground α} {forest : Forest α} {origins : List (Origin α)}
variable {policy : Policy α} {draws : Draws σ}

namespace Policy

omit [Scalar α] in
theorem drawFeatures_known (policy : Policy α) (draws : Draws σ) (width : Nat) (source : σ) :
    ∀ feature ∈ (policy.drawFeatures draws width source).1, 0 ≤ feature ∧ feature < width := by
  intro feature member
  apply mem_allFeatures
  unfold drawFeatures at member
  split at member
  · exact member
  · obtain ⟨place, placeMember, rfl⟩ := List.mem_map.mp member
    apply List.mem_map_of_mem
    exact (draws.perm_permutation width source).mem_iff.mp (List.mem_of_mem_take placeMember)

omit [Scalar α] in
theorem drawFeatures_eq_all {width : Nat} (all : policy.featuresDrawn = width) (source : σ) :
    policy.drawFeatures draws width source = (allFeatures width, source) := by
  rw [drawFeatures, if_pos all]
  rfl

theorem admits_release (policy : Policy α) (node : Node α) :
    policy.admits node.release = policy.admits node :=
  rfl

/-- A level is planned alike by rules that admit the same of its nodes and draw as many features. -/
theorem plan_congr (policy other : Policy α) {width : Nat} {ids : List Nat}
    (drawn : policy.featuresDrawn = other.featuresDrawn)
    (admits : ∀ (id : Nat) (slot : Slot α), id ∈ ids → forest.slots[id]? = some slot →
      policy.admits slot.node = other.admits slot.node) (source : σ) :
    policy.plan draws width ids forest source = other.plan draws width ids forest source := by
  induction ids generalizing forest source with
  | nil => rfl
  | cons id rest ih =>
      have restAdmits : ∀ (id : Nat) (slot : Slot α), id ∈ rest → forest.slots[id]? = some slot →
          policy.admits slot.node = other.admits slot.node :=
        fun id slot member => admits id slot (List.mem_cons_of_mem _ member)
      have drawFeatures_eq : policy.drawFeatures draws width source =
          other.drawFeatures draws width source := by
        simp only [drawFeatures, drawn]
      rw [plan, plan]
      cases found : forest.slots[id]? with
      | none =>
          rw [Forest.slot_eq_error found]
          rfl
      | some slot =>
          have own := admits id slot List.mem_cons_self found
          have released : ∀ (place : Nat) (changed : Slot α), place ∈ rest →
              (forest.setNode id slot.node.release).slots[place]? = some changed →
                policy.admits changed.node = other.admits changed.node := by
            intro place changed member changedFound
            rw [Forest.getElem?_setNode] at changedFound
            split at changedFound
            next same =>
              obtain ⟨before, -, rfl⟩ := Option.map_eq_some_iff.mp changedFound
              simp only [admits_release, own]
            next => exact restAdmits place changed member changedFound
          simp only [Forest.slot_eq found, bind, Except.bind, own, drawFeatures_eq, ih restAdmits,
            ih released]

theorem workThrough_congr (policy other : Policy α) (splitter : policy.splitter = other.splitter)
    (measure : policy.measure = other.measure) (least : α) (tasks : List (Task α σ))
    (workspace : Workspace) :
    policy.workThrough draws least tasks workspace =
      other.workThrough draws least tasks workspace := by
  induction tasks generalizing workspace with
  | nil => rfl
  | cons task rest ih => simp only [workThrough, splitter, measure, ih]

/-- The work on a level depends on the way of searching and the number of workers only. -/
theorem workOn_congr (policy other : Policy α) (splitter : policy.splitter = other.splitter)
    (measure : policy.measure = other.measure) (workers : policy.workers = other.workers)
    {least : α} (tasks : List (Task α σ)) :
    policy.workOn draws least tasks = other.workOn draws least tasks := by
  simp only [workOn, workers, workThrough_congr policy other splitter measure]

/-- What planning a level gives: a sound forest and tasks for nodes of the level. -/
structure Planned (policy : Policy α) (ground : Ground α) (origins : List (Origin α))
    (ids : List Nat) (forest : Forest α) (tasks : List (Task α σ)) (after : Forest α) :
    Prop where
  sound : after.Sound ground origins
  sublist : (tasks.map Task.id).Sublist ids
  ready : ∀ task ∈ tasks, task.Ready ground.width after
  frame : ∀ id, id ∉ ids → after.slots[id]? = forest.slots[id]?
  size_eq : after.size = forest.size
  children_eq : ∀ id : Nat,
    after.slots[id]?.map Slot.children = forest.slots[id]?.map Slot.children
  /-- Every task is for a node that may be split. -/
  assigned : ∀ task ∈ tasks, task.Assigned policy ground.width forest
  /-- Every node that may be split gets a task. -/
  admitted : ∀ id ∈ ids, ∀ slot, forest.slots[id]? = some slot →
    policy.admits slot.node = true → 0 < ground.width → ∃ task ∈ tasks, task.id = id
  /-- Every other node is released. -/
  settled : ∀ id ∈ ids, ∀ slot, forest.slots[id]? = some slot →
    (∃ task ∈ tasks, task.id = id) ∨
      after.slots[id]? = some { slot with node := slot.node.release }

namespace Planned

variable {id : Nat} {rest : List Nat} {node : Node α} {tasks : List (Task α σ)} {after : Forest α}

/-- A node that gets a task before the rest is planned. -/
theorem searched (task : Task α σ) (fresh : task.id ∉ rest)
    (ready : task.Ready ground.width forest) (own : task.Assigned policy ground.width forest)
    (spec : Planned policy ground origins rest forest tasks after) :
    Planned policy ground origins (task.id :: rest) forest (task :: tasks) after where
  sound := spec.sound
  sublist := spec.sublist.cons_cons task.id
  ready := by
    intro other member
    rcases List.mem_cons.mp member with rfl | member
    · exact { ready with slot_eq := (spec.frame _ fresh).trans ready.slot_eq }
    · exact spec.ready other member
  frame := fun other outside =>
    spec.frame other fun member => outside (List.mem_cons_of_mem _ member)
  size_eq := spec.size_eq
  children_eq := spec.children_eq
  assigned := by
    intro other member
    rcases List.mem_cons.mp member with rfl | member
    · exact own
    · exact spec.assigned other member
  admitted := by
    intro other member slot slotFound slotAdmits wide
    rcases List.mem_cons.mp member with rfl | member
    · exact ⟨task, List.mem_cons_self, rfl⟩
    · obtain ⟨found, foundMember, same⟩ :=
        spec.admitted other member slot slotFound slotAdmits wide
      exact ⟨found, List.mem_cons_of_mem _ foundMember, same⟩
  settled := by
    intro other member slot slotFound
    rcases List.mem_cons.mp member with rfl | member
    · exact .inl ⟨task, List.mem_cons_self, rfl⟩
    · rcases spec.settled other member slot slotFound with ⟨found, foundMember, same⟩ | released
      · exact .inl ⟨found, List.mem_cons_of_mem _ foundMember, same⟩
      · exact .inr released

/-- A node that is released before the rest is planned. -/
theorem released (fresh : id ∉ rest) (found : forest.slots[id]? = some { node, children := none })
    (refused : policy.admits node = true → ground.width = 0)
    (spec : Planned policy ground origins rest (forest.setNode id node.release) tasks after) :
    Planned policy ground origins (id :: rest) forest tasks after where
  sound := spec.sound
  sublist := spec.sublist.cons id
  ready := spec.ready
  frame := by
    intro other outside
    rw [spec.frame other fun member => outside (List.mem_cons_of_mem _ member),
      forest.getElem?_setNode_ne (List.ne_of_not_mem_cons outside).symm]
  size_eq := by rw [spec.size_eq, Forest.size_setNode]
  children_eq := fun other => by rw [spec.children_eq, Forest.children_setNode]
  assigned := by
    intro task member
    have assigned := spec.assigned task member
    have inRest := spec.sublist.subset (List.mem_map_of_mem member)
    have slotEq := assigned.slot_eq
    rw [forest.getElem?_setNode_ne (ne_of_mem_of_not_mem inRest fresh).symm] at slotEq
    exact { assigned with slot_eq := slotEq }
  admitted := by
    intro other member slot slotFound slotAdmits wide
    rcases List.mem_cons.mp member with rfl | member
    · rw [found] at slotFound
      obtain rfl := Option.some.inj slotFound
      exact absurd (refused slotAdmits) (Nat.ne_of_gt wide)
    · rw [← forest.getElem?_setNode_ne (ne_of_mem_of_not_mem member fresh).symm] at slotFound
      exact spec.admitted other member slot slotFound slotAdmits wide
  settled := by
    intro other member slot slotFound
    rcases List.mem_cons.mp member with rfl | member
    · rw [found] at slotFound
      obtain rfl := Option.some.inj slotFound
      refine .inr ?_
      rw [spec.frame other fresh, Forest.getElem?_setNode, if_pos rfl, found]
      rfl
    · rw [← forest.getElem?_setNode_ne (ne_of_mem_of_not_mem member fresh).symm] at slotFound
      exact spec.settled other member slot slotFound

end Planned

/-- A level of nodes that were not searched yet can be planned. -/
theorem plan_spec (draws : Draws σ) {ids : List Nat} (sound : forest.Sound ground origins)
    (nodup : ids.Nodup) (live : ∀ id ∈ ids, forest.Live id) (source : σ) :
    ∃ tasks after next, policy.plan draws ground.width ids forest source =
        .ok (tasks, after, next) ∧ Planned policy ground origins ids forest tasks after := by
  induction ids generalizing forest source with
  | nil =>
      refine ⟨[], forest, source, rfl, ?_⟩
      exact {
        sound := sound
        sublist := .slnil
        ready := fun task member => by cases member
        frame := fun id _ => rfl
        size_eq := rfl
        children_eq := fun id => rfl
        assigned := fun task member => by cases member
        admitted := fun id member => by cases member
        settled := fun id member => by cases member }
  | cons id rest ih =>
      obtain ⟨fresh, restNodup⟩ := List.nodup_cons.mp nodup
      obtain ⟨node, columns, found, nodeColumns⟩ := live id List.mem_cons_self
      have restLive : ∀ other ∈ rest, forest.Live other :=
        fun other member => live other (List.mem_cons_of_mem _ member)
      simp only [plan, Forest.slot_eq found, bind, Except.bind]
      split
      next admits =>
        simp only [Bool.and_eq_true, decide_eq_true_eq] at admits
        obtain ⟨tasks, after, next, planned, spec⟩ := ih sound restNodup restLive
          (draws.fork (policy.drawFeatures draws ground.width source).2).2
        refine ⟨_ :: tasks, after, next, by rw [planned]; rfl, ?_⟩
        refine spec.searched { id, node, features := _, source := _ } fresh ?ready ?own
        case ready =>
          exact {
            slot_eq := found
            live := ⟨columns, nodeColumns⟩
            features_known := policy.drawFeatures_known draws ground.width source }
        case own =>
          refine { slot_eq := found, admits := admits.1, wide := admits.2,
                   features_eq := fun all => ?_ }
          simp only [drawFeatures_eq_all all]
      next refused =>
        have restLiveAfter : ∀ other ∈ rest, (forest.setNode id node.release).Live other := by
          intro other member
          obtain ⟨node, columns, found, live⟩ := restLive other member
          refine ⟨node, columns, ?_, live⟩
          rw [forest.getElem?_setNode_ne (ne_of_mem_of_not_mem member fresh).symm, found]
        obtain ⟨tasks, after, next, planned, spec⟩ :=
          ih (sound.release found) restNodup restLiveAfter source
        refine ⟨tasks, after, next, planned, spec.released fresh found fun admits => ?_⟩
        rw [admits, Bool.true_and, decide_eq_true_eq] at refused
        omega

end Policy

/-- A task was carried out in some workspace whose table of marks was clean. -/
def Carried (policy : Policy α) (draws : Draws σ) (least : α) (task : Task α σ)
    (outcome : Outcome α) : Prop :=
  ∃ workspace : Workspace, workspace.marks.Clean ∧
    outcome = (task.node.split policy.splitter policy.measure draws task.features task.source least
      workspace).1

namespace Carried

variable {task : Task α σ} {outcome : Outcome α} {columns : List (Column α)} {best : Best α}
variable {next : σ} {least : α}

/-- If no cut is accepted, a task that is carried out gives no children. -/
theorem of_refused (carried : Carried policy draws least task outcome)
    (live : task.node.columns = some columns)
    (searched : task.node.search policy.splitter policy.measure draws task.features task.source =
      .ok (best, next))
    (refused : best.accepted task.node least = none) : outcome.children = .ok [] := by
  obtain ⟨workspace, -, rfl⟩ := carried
  rw [Node.split_eq live searched, Node.splitBest_of_none refused]

/-- If a cut is accepted, a task that is carried out divides its node there. -/
theorem of_accepted [Scalar.Ordered α] {origin : Origin α}
    (carried : Carried policy draws least task outcome)
    (known : ground.targets.Known ground.count) (originSound : origin.Sound ground)
    (live : task.node.columns = some origin.columns)
    (searched : task.node.search policy.splitter policy.measure draws task.features task.source =
      .ok (best, next)) {cut : Cut α} (accepted : best.accepted task.node least = some cut)
    {column : Column α} {place : Nat} {lower upper : Entry α}
    (between : cut.Between origin.columns column place lower upper) :
    outcome.node = { task.node with cut := some cut, columns := none } ∧
      outcome.children = .ok
        [task.node.part policy.measure origin.columns (ground.goesLeft cut)
            (origin.ids.filter (ground.goesLeft cut)).length,
          task.node.part policy.measure origin.columns (fun index => !ground.goesLeft cut index)
            (task.node.exampleCount - (origin.ids.filter (ground.goesLeft cut)).length)] := by
  obtain ⟨workspace, clean, rfl⟩ := carried
  obtain ⟨-, nodeEq, childrenEq⟩ := Node.splitAt_eq policy.measure task.node known
    originSound.columnsOf originSound.nodup originSound.inRange between.column_eq clean
  rw [Node.split_eq live searched,
    Node.splitBest_of_some accepted between.nonneg between.column_eq]
  exact ⟨nodeEq, childrenEq⟩

end Carried

variable [Scalar.Ordered α]

/-- A task that is carried out ends in one of the two ways. -/
theorem ends_of_carried (policy : Policy α) {task : Task α σ} {origin : Origin α}
    {workspace : Workspace} (bounded : draws.Bounded) (known : ground.targets.Known ground.count)
    (sound : forest.Sound ground origins) (ready : task.Ready ground.width forest)
    (originFound : origins[task.id]? = some origin) (clean : workspace.marks.Clean)
    (least : α) :
    let outcome := (task.node.split policy.splitter policy.measure draws task.features task.source
      least workspace).1
    outcome.workspace.marks.Clean ∧
      Ending ground.value origin.ids policy.measure least task.node origin.columns outcome := by
  have slotSound := sound.slots task.id _ origin ready.slot_eq originFound
  obtain ⟨columns, live⟩ := ready.live
  have columnsEq := slotSound.columns_eq columns live
  subst columnsEq
  have originSound := slotSound.origin_sound
  refine Node.split_ends bounded known originSound.columnsOf originSound.nodup
    originSound.inRange clean live ?_ policy.splitter task.source
  intro feature member
  rw [originSound.columnsOf.length_eq]
  exact ready.features_known feature member

namespace Policy

/-- One worker carries out its tasks in order, each in a clean workspace. -/
theorem workThrough_carried (bounded : draws.Bounded)
    (known : ground.targets.Known ground.count) (sound : forest.Sound ground origins)
    {tasks : List (Task α σ)} (ready : ∀ task ∈ tasks, task.Ready ground.width forest) (least : α)
    {workspace : Workspace} (clean : workspace.marks.Clean) :
    List.Forall₂ (Carried policy draws least) tasks
      (policy.workThrough draws least tasks workspace) := by
  induction tasks generalizing workspace with
  | nil => exact .nil
  | cons task rest ih =>
      have taskReady := ready task List.mem_cons_self
      obtain ⟨origin, originFound⟩ := sound.exists_origin taskReady.slot_eq
      have ends := ends_of_carried policy bounded known sound taskReady originFound clean least
      exact .cons ⟨workspace, clean, rfl⟩
        (ih (fun other member => ready other (List.mem_cons_of_mem _ member)) ends.1)

theorem forall₂_flatMap {β γ : Type} {relation : β → γ → Prop} {parts : List (List β)}
    {image : List β → List γ} (each : ∀ part ∈ parts, List.Forall₂ relation part (image part)) :
    List.Forall₂ relation parts.flatten (parts.flatMap image) := by
  induction parts with
  | nil => exact .nil
  | cons part rest ih =>
      rw [List.flatten_cons, List.flatMap_cons]
      exact List.rel_append (each part List.mem_cons_self)
        (ih fun other member => each other (List.mem_cons_of_mem _ member))

theorem clean_fresh : Workspace.fresh.marks.Clean :=
  Buffer.clean_ofCapacity _

/-- However a level is shared among workers, each task is carried out in a clean workspace. -/
theorem workOn_carried (bounded : draws.Bounded) (known : ground.targets.Known ground.count)
    (sound : forest.Sound ground origins) {tasks : List (Task α σ)}
    (ready : ∀ task ∈ tasks, task.Ready ground.width forest) (least : α)
    (workers : 0 < policy.workers) :
    List.Forall₂ (Carried policy draws least) tasks (policy.workOn draws least tasks) := by
  unfold workOn
  split
  · exact workThrough_carried bounded known sound ready least clean_fresh
  next shared =>
    have positive : 0 < (tasks.length + policy.workers - 1) / policy.workers :=
      Nat.div_pos (by omega) workers
    have whole := flatten_chunks positive tasks
    have each : ∀ chunk ∈ chunks ((tasks.length + policy.workers - 1) / policy.workers) tasks,
        List.Forall₂ (Carried policy draws least) chunk
          (policy.workThrough draws least chunk .fresh) := by
      intro chunk member
      refine workThrough_carried bounded known sound (fun task taskMember => ready task ?_) least
        clean_fresh
      rw [← whole]
      exact List.mem_flatten.mpr ⟨chunk, member, taskMember⟩
    have carried := forall₂_flatMap each
    rwa [whole] at carried

/-- Every outcome of a level is that of its task, carried out in a clean workspace. -/
theorem carried_of_mem_zip (bounded : draws.Bounded) (known : ground.targets.Known ground.count)
    (sound : forest.Sound ground origins) {tasks : List (Task α σ)}
    (ready : ∀ task ∈ tasks, task.Ready ground.width forest) (least : α)
    {pair : Task α σ × Outcome α}
    (member : pair ∈ tasks.zip (policy.workOn draws least tasks)) :
    Carried policy draws least pair.1 pair.2 := by
  by_cases workers : 0 < policy.workers
  · exact List.forall₂_zip (workOn_carried bounded known sound ready least workers) member
  · -- without workers only a single task is ever carried out
    have none : policy.workers = 0 := by omega
    unfold workOn at member
    split at member
    · exact List.forall₂_zip
        (workThrough_carried bounded known sound ready least clean_fresh) member
    · have noChunks : chunks 0 tasks = [] := by
        unfold chunks
        exact dif_neg fun proper => Nat.lt_irrefl 0 proper.1
      simp only [none, Nat.div_zero, noChunks, List.flatMap_nil, List.zip_nil_right] at member
      cases member

end Policy

/-- The ledger of a forest that has grown since the ledger was written. -/
def Forest.ledger (forest : Forest α) (origins : List (Origin α)) : List (Origin α) :=
  origins ++ (forest.slots.drop origins.length).map Slot.origin

omit [Scalar α] [Scalar.Ordered α] in
theorem Forest.ledger_self (lengths : origins.length = forest.size) :
    forest.ledger origins = origins := by
  rw [ledger, lengths, size, List.drop_length, List.map_nil, List.append_nil]

omit [Scalar α] [Scalar.Ordered α] in
theorem Forest.getElem?_ledger {id : Nat} (old : id < origins.length) :
    (forest.ledger origins)[id]? = origins[id]? :=
  List.getElem?_append_left old

omit [Scalar.Ordered α] in
/-- The ledger keeps the entries of the nodes that it was written for. -/
theorem Forest.Sound.getElem?_ledger (sound : forest.Sound ground origins) {after : Forest α}
    {id : Nat} {slot : Slot α} (found : forest.slots[id]? = some slot) :
    (after.ledger origins)[id]? = origins[id]? := by
  apply Forest.getElem?_ledger
  rw [sound.length_eq]
  exact Forest.lt_size found

omit [Scalar α] [Scalar.Ordered α] in
/-- Two new nodes are the first to be added to the ledger. -/
theorem Forest.ledger_append_pair {first second : Slot α}
    (firstFound : forest.slots[origins.length]? = some first)
    (secondFound : forest.slots[origins.length + 1]? = some second) :
    forest.ledger (origins ++ [first.origin, second.origin]) = forest.ledger origins := by
  obtain ⟨firstInside, rfl⟩ := List.getElem?_eq_some_iff.mp firstFound
  obtain ⟨secondInside, rfl⟩ := List.getElem?_eq_some_iff.mp secondFound
  have lengths : (origins ++ [forest.slots[origins.length].origin,
      forest.slots[origins.length + 1].origin]).length = origins.length + 2 := by
    simp
  rw [ledger, ledger, lengths, List.drop_eq_getElem_cons firstInside,
    List.drop_eq_getElem_cons secondInside, List.append_assoc]
  rfl

/-- What became of the node of a task: it has no children, or it has the two that the task gave,
and these are new. -/
inductive Became (after : Forest α) (new : List Nat) (id : Nat) (outcome : Outcome α) : Prop where
  | settled (children_eq : outcome.children = .ok [])
      (slot_eq : after.slots[id]? = some { node := outcome.node, children := none })
  | divided (left right : Node α) (first : Nat) (children_eq : outcome.children = .ok [left, right])
      (slot_eq : after.slots[id]? =
        some { node := outcome.node, children := some (first, first + 1) })
      (left_new : first ∈ new) (right_new : first + 1 ∈ new)
      (left_eq : after.slots[first]? = some { node := left, children := none })
      (right_eq : after.slots[first + 1]? = some { node := right, children := none })

namespace Became

variable {after : Forest α} {new more : List Nat} {id : Nat} {outcome : Outcome α}

omit [Scalar α] [Scalar.Ordered α] in
theorem mono (became : Became after new id outcome) (subset : ∀ id ∈ new, id ∈ more) :
    Became after more id outcome := by
  cases became with
  | settled children slot => exact .settled children slot
  | divided left right first children slot leftNew rightNew leftEq rightEq =>
      exact .divided left right first children slot (subset _ leftNew) (subset _ rightNew) leftEq
        rightEq

omit [Scalar α] [Scalar.Ordered α] in
theorem exists_slot (became : Became after new id outcome) :
    ∃ children, after.slots[id]? = some { node := outcome.node, children } := by
  cases became with
  | settled _ slot => exact ⟨_, slot⟩
  | divided _ _ _ _ slot => exact ⟨_, slot⟩

omit [Scalar α] [Scalar.Ordered α] in
/-- Every child that a task gave is a new node. -/
theorem child (became : Became after new id outcome) {children : List (Node α)}
    (childrenEq : outcome.children = .ok children) {node : Node α} (member : node ∈ children) :
    ∃ child ∈ new, after.slots[child]? = some { node, children := none } := by
  cases became with
  | settled none =>
      obtain rfl := Except.ok.inj (none.symm.trans childrenEq)
      cases member
  | divided left right first pair _ leftNew rightNew leftEq rightEq =>
      obtain rfl := Except.ok.inj (pair.symm.trans childrenEq)
      rcases List.mem_pair.mp member with rfl | rfl
      · exact ⟨first, leftNew, leftEq⟩
      · exact ⟨first + 1, rightNew, rightEq⟩

omit [Scalar α] [Scalar.Ordered α] in
/-- A node that has children after its task was given them by the task. -/
theorem of_children (became : Became after new id outcome) {node : Node α} {left right : Nat}
    (found : after.slots[id]? = some { node, children := some (left, right) }) :
    outcome.node = node ∧ ∃ below above, outcome.children = .ok [below, above] ∧
      after.slots[left]? = some { node := below, children := none } ∧
      after.slots[right]? = some { node := above, children := none } := by
  cases became with
  | settled _ slot =>
      rw [slot] at found
      cases found
  | divided below above first children slot _ _ leftEq rightEq =>
      rw [slot] at found
      obtain ⟨nodeEq, childrenEq⟩ := (Slot.mk.injEq ..).mp (Option.some.inj found)
      obtain ⟨rfl, rfl⟩ := (Prod.mk.injEq ..).mp (Option.some.inj childrenEq)
      exact ⟨nodeEq, below, above, children, leftEq, rightEq⟩

end Became

/-- What gathering the outcomes of some tasks gives. -/
structure Gathered (ground : Ground α) (origins : List (Origin α)) (forest : Forest α)
    (pairs : List (Task α σ × Outcome α)) (new : List Nat) (after : Forest α) : Prop where
  sound : after.Sound ground (after.ledger origins)
  size_le : forest.size ≤ after.size
  frame : ∀ place, place < forest.size → (∀ pair ∈ pairs, pair.1.id ≠ place) →
    after.slots[place]? = forest.slots[place]?
  nodup : new.Nodup
  live : ∀ id ∈ new, forest.size ≤ id ∧ after.Live id
  /-- Every new node is a child of the node of a task. -/
  parent : ∀ id ∈ new, ∃ pair ∈ pairs, ∃ node left right,
    after.slots[pair.1.id]? = some { node, children := some (left, right) } ∧
      (id = left ∨ id = right)
  became : ∀ pair ∈ pairs, Became after new pair.1.id pair.2
  /-- Every added node is a child that a task gave. -/
  born : ∀ (id : Nat) (slot : Slot α), forest.size ≤ id → after.slots[id]? = some slot →
    id ∈ new ∧ slot.children = none ∧
      ∃ pair ∈ pairs, ∃ children, pair.2.children = .ok children ∧ slot.node ∈ children
  /-- Every node that has children now had them before or got them by a task. -/
  split : ∀ place node left right,
    after.slots[place]? = some { node, children := some (left, right) } →
      forest.slots[place]? = some { node, children := some (left, right) } ∨
        ∃ pair ∈ pairs, pair.1.id = place

namespace Gathered

variable {task : Task α σ} {outcome : Outcome α} {rest : List (Task α σ × Outcome α)}
variable {new : List Nat} {after : Forest α}

omit [Scalar.Ordered α] in
/-- A node that is released before the rest is gathered. -/
theorem settled {own : Slot α} (found : forest.slots[task.id]? = some own)
    (others : ∀ pair ∈ rest, pair.1.id ≠ task.id) (childless : own.children = none)
    (childrenEq : outcome.children = .ok [])
    (spec : Gathered ground origins (forest.setNode task.id outcome.node) rest new after) :
    Gathered ground origins forest ((task, outcome) :: rest) new after where
  sound := spec.sound
  size_le := by
    have := spec.size_le
    rwa [Forest.size_setNode] at this
  frame := by
    intro place old untouched
    rw [spec.frame place (by rwa [Forest.size_setNode])
        fun pair member => untouched pair (List.mem_cons_of_mem _ member),
      forest.getElem?_setNode_ne (untouched _ List.mem_cons_self)]
  nodup := spec.nodup
  live := by
    intro id member
    have := spec.live id member
    rwa [Forest.size_setNode] at this
  parent := by
    intro id member
    obtain ⟨pair, pairMember, properties⟩ := spec.parent id member
    exact ⟨pair, List.mem_cons_of_mem _ pairMember, properties⟩
  became := by
    intro pair member
    rcases List.mem_cons.mp member with rfl | member
    · refine .settled childrenEq ?_
      rw [spec.frame _ (by rw [Forest.size_setNode]; exact Forest.lt_size found) others,
        Forest.getElem?_setNode, if_pos rfl, found, Option.map_some, childless]
    · exact spec.became pair member
  born := by
    intro id slot isNew slotFound
    obtain ⟨member, leaf, pair, pairMember, properties⟩ :=
      spec.born id slot (by rwa [Forest.size_setNode]) slotFound
    exact ⟨member, leaf, pair, List.mem_cons_of_mem _ pairMember, properties⟩
  split := by
    intro place changed left right after
    rcases spec.split place changed left right after with before | ⟨pair, member, properties⟩
    · rw [Forest.getElem?_setNode] at before
      split at before
      next isOwn =>
        rw [← isOwn, found, Option.map_some, childless] at before
        cases before
      next => exact .inl before
    · exact .inr ⟨pair, List.mem_cons_of_mem _ member, properties⟩

section Branch

variable {left right : Node α}

variable (spec : Gathered ground
  (origins ++ [(Slot.mk left none).origin, (Slot.mk right none).origin])
  (forest.branch task.id outcome.node left right) rest new after)
variable (inside : task.id < forest.size)
variable (old : ∀ pair ∈ rest, pair.1.id < forest.size ∧ pair.1.id ≠ task.id)

include spec

omit [Scalar.Ordered α] in
theorem untouched {place : Nat} (bound : place < forest.size + 2)
    (others : ∀ pair ∈ rest, pair.1.id ≠ place) :
    after.slots[place]? = (forest.branch task.id outcome.node left right).slots[place]? :=
  spec.frame place (by rwa [Forest.size_branch]) others

omit [Scalar.Ordered α] in
theorem later {id : Nat} (member : id ∈ new) : forest.size + 2 ≤ id := by
  have := (spec.live id member).1
  rwa [Forest.size_branch] at this

include inside old

omit [Scalar.Ordered α] in
theorem left_found : after.slots[forest.size]? = some { node := left, children := none } := by
  rw [spec.untouched (by omega) fun pair member => by have := (old pair member).1; omega,
    Forest.getElem?_branch inside, if_neg (by omega), if_pos rfl]

omit [Scalar.Ordered α] in
theorem right_found : after.slots[forest.size + 1]? = some { node := right, children := none } := by
  rw [spec.untouched (by omega) fun pair member => by have := (old pair member).1; omega,
    Forest.getElem?_branch inside, if_neg (by omega), if_neg (by omega), if_pos rfl]

omit [Scalar.Ordered α] in
theorem own_found : after.slots[task.id]? =
    some { node := outcome.node, children := some (forest.size, forest.size + 1) } := by
  rw [spec.untouched (by omega) fun pair member => (old pair member).2,
    Forest.getElem?_branch inside, if_pos rfl]

omit [Scalar.Ordered α] in
/-- The nodes that are new after a division: its two sides, and those that are new later. -/
theorem born_of_branch (childrenEq : outcome.children = .ok [left, right]) {id : Nat}
    {slot : Slot α} (isNew : forest.size ≤ id) (slotFound : after.slots[id]? = some slot) :
    id ∈ forest.size :: (forest.size + 1) :: new ∧ slot.children = none ∧
      ∃ pair ∈ (task, outcome) :: rest, ∃ children, pair.2.children = .ok children ∧
        slot.node ∈ children := by
  by_cases isFirst : id = forest.size
  · rw [isFirst, spec.left_found inside old] at slotFound
    obtain rfl := Option.some.inj slotFound
    exact ⟨by simp [isFirst], rfl, _, List.mem_cons_self, _, childrenEq, List.mem_cons_self⟩
  by_cases isSecond : id = forest.size + 1
  · rw [isSecond, spec.right_found inside old] at slotFound
    obtain rfl := Option.some.inj slotFound
    exact ⟨by simp [isSecond], rfl, _, List.mem_cons_self, _, childrenEq,
      List.mem_cons_of_mem _ List.mem_cons_self⟩
  obtain ⟨member, leaf, pair, pairMember, properties⟩ :=
    spec.born id slot (by rw [Forest.size_branch]; omega) slotFound
  exact ⟨List.mem_cons_of_mem _ (List.mem_cons_of_mem _ member), leaf, pair,
    List.mem_cons_of_mem _ pairMember, properties⟩

omit [Scalar.Ordered α] old in
/-- The nodes that have children after a division: the divided one, and those that had them before
or get them later. -/
theorem split_of_branch {place : Nat} {node : Node α} {first second : Nat}
    (found : after.slots[place]? = some { node, children := some (first, second) }) :
    forest.slots[place]? = some { node, children := some (first, second) } ∨
      ∃ pair ∈ (task, outcome) :: rest, pair.1.id = place := by
  rcases spec.split place node first second found with before | ⟨pair, member, isPlace⟩
  · rw [Forest.getElem?_branch inside] at before
    split at before
    next own => exact .inr ⟨_, List.mem_cons_self, own.symm⟩
    next =>
    split at before
    next => cases before
    next =>
    split at before
    next => cases before
    next => exact .inl before
  · exact .inr ⟨pair, List.mem_cons_of_mem _ member, isPlace⟩

omit [Scalar.Ordered α] in
/-- A node that is divided before the rest is gathered. -/
theorem divided (length : origins.length = forest.size)
    (childrenEq : outcome.children = .ok [left, right])
    (leftLive : ∃ columns, left.columns = some columns)
    (rightLive : ∃ columns, right.columns = some columns) :
    Gathered ground origins forest ((task, outcome) :: rest)
      (forest.size :: (forest.size + 1) :: new) after := by
  have leftFound := spec.left_found inside old
  have rightFound := spec.right_found inside old
  have ownFound := spec.own_found inside old
  refine {
    sound := ?sound, size_le := ?size_le, frame := ?frame, nodup := ?nodup, live := ?live
    parent := ?parent, became := ?became
    born := fun _ _ isNew found => spec.born_of_branch inside old childrenEq isNew found
    split := fun _ _ _ _ found => spec.split_of_branch inside found }
  case sound =>
    rw [← Forest.ledger_append_pair (length ▸ leftFound) (length ▸ rightFound)]
    exact spec.sound
  case size_le =>
    have := spec.size_le
    rw [Forest.size_branch] at this
    omega
  case frame =>
    intro place isOld others
    rw [spec.untouched (by omega) fun pair member => others pair (List.mem_cons_of_mem _ member),
      Forest.getElem?_branch inside, if_neg fun same => others _ List.mem_cons_self same.symm,
      if_neg (by omega), if_neg (by omega)]
  case nodup =>
    have first : forest.size ∉ new := fun member => by have := spec.later member; omega
    have second : forest.size + 1 ∉ new := fun member => by have := spec.later member; omega
    simp [first, second, spec.nodup]
  case live =>
    intro id member
    rcases List.mem_cons.mp member with rfl | member
    · obtain ⟨columns, live⟩ := leftLive
      exact ⟨Nat.le_refl _, left, columns, leftFound, live⟩
    rcases List.mem_cons.mp member with rfl | member
    · obtain ⟨columns, live⟩ := rightLive
      exact ⟨Nat.le_succ _, right, columns, rightFound, live⟩
    have := spec.later member
    exact ⟨by omega, (spec.live id member).2⟩
  case parent =>
    intro id member
    rcases List.mem_cons.mp member with rfl | member
    · exact ⟨_, List.mem_cons_self, _, _, _, ownFound, .inl rfl⟩
    rcases List.mem_cons.mp member with rfl | member
    · exact ⟨_, List.mem_cons_self, _, _, _, ownFound, .inr rfl⟩
    obtain ⟨pair, pairMember, properties⟩ := spec.parent id member
    exact ⟨pair, List.mem_cons_of_mem _ pairMember, properties⟩
  case became =>
    intro pair member
    rcases List.mem_cons.mp member with rfl | member
    · exact .divided left right _ childrenEq ownFound List.mem_cons_self
        (List.mem_cons_of_mem _ List.mem_cons_self) leftFound rightFound
    · exact (spec.became pair member).mono fun id new =>
        List.mem_cons_of_mem _ (List.mem_cons_of_mem _ new)

end Branch

end Gathered

omit [Scalar.Ordered α] in
/-- The outcomes of tasks can be gathered. -/
theorem gather_spec {pairs : List (Task α σ × Outcome α)} (sound : forest.Sound ground origins)
    (nodup : (pairs.map fun pair => pair.1.id).Nodup)
    (ended : ∀ pair ∈ pairs, ∃ origin, origins[pair.1.id]? = some origin ∧
      forest.slots[pair.1.id]? = some { node := pair.1.node, children := none } ∧
      Ending ground.value origin.ids ground.measure ground.least pair.1.node origin.columns
        pair.2) :
    ∃ new after, gather pairs forest = .ok (new, after) ∧
      Gathered ground origins forest pairs new after := by
  induction pairs generalizing forest origins with
  | nil =>
      refine ⟨[], forest, rfl, ?_⟩
      exact {
        sound := by rwa [Forest.ledger_self sound.length_eq]
        size_le := Nat.le_refl _
        frame := fun place _ _ => rfl
        nodup := .nil
        live := fun id member => by cases member
        parent := fun id member => by cases member
        became := fun pair member => by cases member
        born := fun id slot isNew found => absurd (Forest.lt_size found) (Nat.not_lt.mpr isNew)
        split := fun place node left right found => .inl found }
  | cons pair rest ih =>
      obtain ⟨task, outcome⟩ := pair
      rw [List.map_cons, List.nodup_cons] at nodup
      obtain ⟨fresh, restNodup⟩ := nodup
      have others : ∀ pair ∈ rest, pair.1.id ≠ task.id := by
        intro pair member same
        exact fresh (List.mem_map.mpr ⟨pair, member, same⟩)
      obtain ⟨origin, originFound, found, ending⟩ := ended (task, outcome) List.mem_cons_self
      have inside := Forest.lt_size found
      have length := sound.length_eq
      simp only at originFound found ending
      cases ending with
      | settled nodeEq childrenEq =>
          have released : (forest.setNode task.id outcome.node).Sound ground origins := by
            rw [nodeEq]
            exact sound.release found
          obtain ⟨new, after, gathered, spec⟩ := ih released restNodup (by
            intro pair member
            obtain ⟨entry, entryFound, slotFound, ending⟩ :=
              ended pair (List.mem_cons_of_mem _ member)
            refine ⟨entry, entryFound, ?_, ending⟩
            rw [forest.getElem?_setNode_ne (others pair member).symm, slotFound])
          refine ⟨new, after, ?_, spec.settled found others rfl childrenEq⟩
          simp only [gather, childrenEq, bind, Except.bind, Forest.attach]
          rw [gathered]
          rfl
      | divided cut column place lower upper division rewarded nodeEq childrenEq =>
          have branched := sound.branch found originFound division rewarded
          simp only [Ground.goesLeft, ← nodeEq] at branched
          have old : ∀ pair ∈ rest, pair.1.id < forest.size ∧ pair.1.id ≠ task.id := by
            intro pair member
            obtain ⟨-, -, slotFound, -⟩ := ended pair (List.mem_cons_of_mem _ member)
            exact ⟨Forest.lt_size slotFound, others pair member⟩
          obtain ⟨new, after, gathered, spec⟩ := ih branched restNodup (by
            intro pair member
            obtain ⟨entry, entryFound, slotFound, ending⟩ :=
              ended pair (List.mem_cons_of_mem _ member)
            obtain ⟨isOld, differs⟩ := old pair member
            refine ⟨entry, ?_, ?_, ending⟩
            · rw [List.getElem?_append_left (by omega), entryFound]
            · rw [Forest.getElem?_branch inside, if_neg differs, if_neg (by omega),
                if_neg (by omega), slotFound])
          refine ⟨_, after, ?_, spec.divided inside old length childrenEq ⟨_, rfl⟩ ⟨_, rfl⟩⟩
          simp only [gather, childrenEq, bind, Except.bind, Forest.attach_eq found rfl]
          rw [gathered]
          rfl

omit [Scalar.Ordered α] in
/-- The nodes of a level keep their statistics, and those that may not be split are released. -/
theorem Gathered.kept {ids : List Nat} {tasks : List (Task α σ)} {planned after : Forest α}
    {pairs : List (Task α σ × Outcome α)} {new : List Nat}
    (spec : Gathered ground origins planned pairs new after)
    (plan : policy.Planned ground origins ids forest tasks planned)
    (planned_of_mem : ∀ pair ∈ pairs, pair.1 ∈ tasks)
    (statistics : ∀ pair ∈ pairs, pair.2.node.statistics = pair.1.node.statistics) {id : Nat}
    (member : id ∈ ids) {slot : Slot α} (found : forest.slots[id]? = some slot) :
    ∃ changed, after.slots[id]? = some changed ∧
      changed.node.statistics = slot.node.statistics ∧
      (policy.admits slot.node = false → changed = { slot with node := slot.node.release }) := by
  have of_task : ∀ task ∈ tasks, task.id = id →
      slot = { node := task.node, children := none } ∧ policy.admits slot.node ≠ false := by
    rintro task taskMember rfl
    have assigned := plan.assigned task taskMember
    rw [assigned.slot_eq] at found
    obtain rfl := Option.some.inj found
    exact ⟨rfl, by simp [assigned.admits]⟩
  by_cases searched : ∃ pair ∈ pairs, pair.1.id = id
  · obtain ⟨pair, paired, same⟩ := searched
    obtain ⟨rfl, admits⟩ := of_task pair.1 (planned_of_mem pair paired) same
    obtain ⟨children, own⟩ := (spec.became pair paired).exists_slot
    rw [same] at own
    exact ⟨_, own, statistics pair paired, fun refused => absurd refused admits⟩
  · rw [spec.frame id (by rw [plan.size_eq]; exact Forest.lt_size found)
      fun pair paired same => searched ⟨pair, paired, same⟩]
    rcases plan.settled id member slot found with ⟨task, taskMember, same⟩ | released
    · obtain ⟨rfl, admits⟩ := of_task task taskMember same
      have unchanged := (plan.ready task taskMember).slot_eq
      rw [same] at unchanged
      exact ⟨_, unchanged, rfl, fun refused => absurd refused admits⟩
    · exact ⟨_, released, Node.statistics_release _, fun _ => rfl⟩

/-- The forest is sound, and the nodes of the level were not searched yet. -/
structure State.Sound (ground : Ground α) (origins : List (Origin α)) (state : State α σ) :
    Prop where
  forest_sound : state.forest.Sound ground origins
  nodup : state.frontier.Nodup
  live : ∀ id ∈ state.frontier, state.forest.Live id

/-- A node of a level was searched by a task, and this is what became of it. -/
structure Worked (policy : Policy α) (draws : Draws σ) (ground : Ground α)
    (origins : List (Origin α)) (state after : State α σ) (id : Nat) (task : Task α σ)
    (outcome : Outcome α) : Prop where
  id_eq : task.id = id
  assigned : task.Assigned policy ground.width state.forest
  carried : Carried policy draws ground.least task outcome
  ended : ∃ origin, origins[id]? = some origin ∧
    Ending ground.value origin.ids ground.measure ground.least task.node origin.columns outcome
  became : Became after.forest after.frontier id outcome

/-- What one level of growth gives. -/
structure Stepped (policy : Policy α) (draws : Draws σ) (ground : Ground α)
    (origins : List (Origin α)) (state after : State α σ) : Prop where
  sound : after.Sound ground (after.forest.ledger origins)
  /-- Every node of the new level is a child of a node of the old one. -/
  parent : ∀ id ∈ after.frontier, ∃ parent ∈ state.frontier, ∃ node left right,
    after.forest.slots[parent]? = some { node, children := some (left, right) } ∧
      (id = left ∨ id = right)
  /-- Every node that may be split is searched. -/
  searched : 0 < policy.workers → ∀ id ∈ state.frontier, ∀ slot,
    state.forest.slots[id]? = some slot → policy.admits slot.node = true → 0 < ground.width →
      ∃ task outcome, task.node = slot.node ∧
        Worked policy draws ground origins state after id task outcome
  /-- Nodes of earlier levels stay as they are. -/
  frame : ∀ id, id < state.forest.size → id ∉ state.frontier →
    after.forest.slots[id]? = state.forest.slots[id]?
  /-- The nodes of the level keep their statistics; those that may not be split are released. -/
  kept : ∀ id ∈ state.frontier, ∀ slot, state.forest.slots[id]? = some slot →
    ∃ changed, after.forest.slots[id]? = some changed ∧
      changed.node.statistics = slot.node.statistics ∧
      (policy.admits slot.node = false → changed = { slot with node := slot.node.release })
  /-- The added nodes are those of the new level: children, one level deeper, of nodes that may be
  split. -/
  born : ∀ (id : Nat) (slot : Slot α), state.forest.size ≤ id →
    after.forest.slots[id]? = some slot →
      id ∈ after.frontier ∧ slot.children = none ∧ slot.node.cut = none ∧
        ∃ parent ∈ state.frontier, ∃ own, state.forest.slots[parent]? = some own ∧
          policy.admits own.node = true ∧ slot.node.depth = own.node.depth + 1
  fresh : ∀ id ∈ after.frontier, state.forest.size ≤ id
  /-- Every node that has children now had them before or was searched on this level. -/
  split : ∀ id node left right,
    after.forest.slots[id]? = some { node, children := some (left, right) } →
      state.forest.slots[id]? = some { node, children := some (left, right) } ∨
        id ∈ state.frontier ∧
          ∃ task outcome, Worked policy draws ground origins state after id task outcome

omit [Scalar.Ordered α] in
/-- An empty level is followed by an empty level. -/
theorem Stepped.frontier_eq_nil {state after : State α σ}
    (stepped : Stepped policy draws ground origins state after) (empty : state.frontier = []) :
    after.frontier = [] := by
  apply List.eq_nil_iff_forall_not_mem.mpr
  intro id member
  obtain ⟨parent, parentMember, -⟩ := stepped.parent id member
  rw [empty] at parentMember
  cases parentMember

omit [Scalar.Ordered α] in
/-- A node that has children after a level had them before, or was given them by a task. -/
theorem Gathered.of_children {state : State α σ} {tasks : List (Task α σ)}
    {planned after : Forest α} {pairs : List (Task α σ × Outcome α)} {new : List Nat}
    (spec : Gathered ground origins planned pairs new after) (sound : state.Sound ground origins)
    (plan : policy.Planned ground origins state.frontier state.forest tasks planned)
    (of_task : ∀ pair ∈ pairs, pair.1 ∈ tasks) {id left right : Nat} {node : Node α}
    (found : after.slots[id]? = some { node, children := some (left, right) }) :
    (id ∉ state.frontier ∧
        state.forest.slots[id]? = some { node, children := some (left, right) }) ∨
      id ∈ state.frontier ∧ ∃ pair ∈ pairs, pair.1.id = id := by
  rcases spec.split id node left right found with before | ⟨pair, paired, rfl⟩
  · by_cases member : id ∈ state.frontier
    · -- planning releases nodes but gives none of them children
      obtain ⟨old, columns, oldFound, -⟩ := sound.live id member
      have childless := plan.children_eq id
      rw [before, oldFound] at childless
      cases childless
    · rw [plan.frame id member] at before
      exact .inl ⟨member, before⟩
  · exact .inr ⟨plan.sublist.subset (List.mem_map_of_mem (of_task pair paired)), pair, paired, rfl⟩

omit [Scalar.Ordered α] in
/-- What a level gives, from its plan, what was done to its tasks and what was gathered. -/
theorem Stepped.of_gathered {state : State α σ} {tasks : List (Task α σ)}
    {planned after : Forest α} {pairs : List (Task α σ × Outcome α)} {new : List Nat} {source : σ}
    (sound : state.Sound ground origins)
    (plan : policy.Planned ground origins state.frontier state.forest tasks planned)
    (spec : Gathered ground origins planned pairs new after)
    (of_task : ∀ pair ∈ pairs, pair.1 ∈ tasks)
    (complete : 0 < policy.workers → ∀ task ∈ tasks, ∃ outcome, (task, outcome) ∈ pairs)
    (carried : ∀ pair ∈ pairs, Carried policy draws ground.least pair.1 pair.2)
    (ended : ∀ pair ∈ pairs, ∃ origin, origins[pair.1.id]? = some origin ∧ Ending ground.value
      origin.ids ground.measure ground.least pair.1.node origin.columns pair.2) :
    Stepped policy draws ground origins state { forest := after, frontier := new, source } := by
  have inLevel : ∀ pair ∈ pairs, pair.1.id ∈ state.frontier := fun pair paired =>
    plan.sublist.subset (List.mem_map_of_mem (of_task pair paired))
  refine { sound := ⟨spec.sound, spec.nodup, fun id member => (spec.live id member).2⟩,
           parent := ?parent, searched := ?searched, frame := ?frame, kept := ?kept, born := ?born,
           fresh := ?fresh, split := ?split }
  case parent =>
    intro id member
    obtain ⟨pair, paired, node, left, right, found, isChild⟩ := spec.parent id member
    exact ⟨pair.1.id, inLevel pair paired, node, left, right, found, isChild⟩
  case searched =>
    intro workers id member slot found admits wide
    obtain ⟨task, taskMember, rfl⟩ := plan.admitted id member slot found admits wide
    have assigned := plan.assigned task taskMember
    have nodeEq : task.node = slot.node := by
      rw [assigned.slot_eq] at found
      obtain rfl := Option.some.inj found
      rfl
    obtain ⟨outcome, paired⟩ := complete workers task taskMember
    exact ⟨task, outcome, nodeEq, rfl, assigned, carried _ paired, ended _ paired,
      spec.became _ paired⟩
  case frame =>
    intro id old outside
    rw [spec.frame id (by rwa [plan.size_eq]), plan.frame id outside]
    rintro pair paired rfl
    exact outside (inLevel pair paired)
  case kept =>
    intro id member slot found
    refine spec.kept plan of_task (fun pair paired => ?_) member found
    obtain ⟨origin, -, ending⟩ := ended pair paired
    exact ending.statistics_eq
  case born =>
    intro id slot isNew slotFound
    obtain ⟨member, leaf, pair, paired, children, childrenEq, isChild⟩ :=
      spec.born id slot (by rwa [plan.size_eq]) slotFound
    have assigned := plan.assigned _ (of_task pair paired)
    obtain ⟨origin, -, ending⟩ := ended pair paired
    obtain ⟨cut, depth⟩ := ending.of_mem_children childrenEq isChild
    exact ⟨member, leaf, cut, pair.1.id, inLevel pair paired, _, assigned.slot_eq,
      assigned.admits, depth⟩
  case fresh =>
    intro id member
    have := (spec.live id member).1
    rwa [plan.size_eq] at this
  case split =>
    intro id node left right found
    rcases spec.of_children sound plan of_task found with ⟨-, before⟩ | ⟨member, pair, paired, rfl⟩
    · exact .inl before
    · exact .inr ⟨member, pair.1, pair.2, rfl, plan.assigned _ (of_task pair paired),
        carried pair paired, ended pair paired, spec.became pair paired⟩

/-- The parts of a level: its plan, the work on its tasks, and what is gathered from that. -/
structure Parts (policy : Policy α) (draws : Draws σ) (ground : Ground α)
    (origins : List (Origin α)) (state after : State α σ) (tasks : List (Task α σ))
    (planned : Forest α) : Prop where
  plan_eq : policy.plan draws ground.width state.frontier state.forest state.source =
    .ok (tasks, planned, after.source)
  plan : policy.Planned ground origins state.frontier state.forest tasks planned
  carried : ∀ pair ∈ tasks.zip (policy.workOn draws ground.least tasks),
    Carried policy draws ground.least pair.1 pair.2
  complete : 0 < policy.workers → tasks.length = (policy.workOn draws ground.least tasks).length
  ended : ∀ pair ∈ tasks.zip (policy.workOn draws ground.least tasks), ∃ origin,
    origins[pair.1.id]? = some origin ∧
      planned.slots[pair.1.id]? = some { node := pair.1.node, children := none } ∧
      Ending ground.value origin.ids ground.measure ground.least pair.1.node origin.columns pair.2
  gather_eq : gather (tasks.zip (policy.workOn draws ground.least tasks)) planned =
    .ok (after.frontier, after.forest)
  gathered : Gathered ground origins planned (tasks.zip (policy.workOn draws ground.least tasks))
    after.frontier after.forest

omit [Scalar.Ordered α] in
/-- What a level gives, from its parts. -/
theorem Parts.stepped {state after : State α σ} {tasks : List (Task α σ)} {planned : Forest α}
    (parts : Parts policy draws ground origins state after tasks planned)
    (sound : state.Sound ground origins) : Stepped policy draws ground origins state after := by
  refine .of_gathered sound parts.plan parts.gathered
    (fun pair paired => (List.of_mem_zip paired).1) ?_ parts.carried fun pair paired => ?_
  · intro workers task member
    rw [← List.map_fst_zip (Nat.le_of_eq (parts.complete workers))] at member
    obtain ⟨pair, paired, rfl⟩ := List.mem_map.mp member
    exact ⟨pair.2, paired⟩
  · obtain ⟨origin, originFound, -, ending⟩ := parts.ended pair paired
    exact ⟨origin, originFound, ending⟩

/-- A level can be grown part by part. -/
theorem step_parts (bounded : draws.Bounded) (known : ground.targets.Known ground.count)
    (measure : policy.measure = ground.measure) {state : State α σ}
    (sound : state.Sound ground origins) :
    ∃ after tasks planned, step policy draws ground.width ground.least state = .ok after ∧
      Parts policy draws ground origins state after tasks planned := by
  obtain ⟨tasks, planned, source, planEq, plan⟩ := policy.plan_spec draws sound.forest_sound
    sound.nodup sound.live state.source
  have of_task : ∀ pair ∈ tasks.zip (policy.workOn draws ground.least tasks), pair.1 ∈ tasks :=
    fun pair paired => (List.of_mem_zip paired).1
  have carried : ∀ pair ∈ tasks.zip (policy.workOn draws ground.least tasks),
      Carried policy draws ground.least pair.1 pair.2 := fun pair member =>
    policy.carried_of_mem_zip bounded known plan.sound plan.ready ground.least member
  have ids : ((tasks.zip (policy.workOn draws ground.least tasks)).map
      fun pair => pair.1.id).Sublist state.frontier := by
    refine List.Sublist.trans ?_ plan.sublist
    rw [show (fun pair : Task α σ × Outcome α => pair.1.id) = Task.id ∘ Prod.fst from rfl,
      ← List.map_map]
    exact (sublist_map_fst_zip _ _).map _
  have ended : ∀ pair ∈ tasks.zip (policy.workOn draws ground.least tasks),
      ∃ origin, origins[pair.1.id]? = some origin ∧
        planned.slots[pair.1.id]? = some { node := pair.1.node, children := none } ∧
        Ending ground.value origin.ids ground.measure ground.least pair.1.node origin.columns
          pair.2 := by
    intro pair member
    have ready := plan.ready pair.1 (of_task pair member)
    obtain ⟨origin, originFound⟩ := plan.sound.exists_origin ready.slot_eq
    refine ⟨origin, originFound, ready.slot_eq, ?_⟩
    obtain ⟨workspace, clean, outcomeEq⟩ := carried pair member
    rw [outcomeEq, ← measure]
    exact (ends_of_carried policy bounded known plan.sound ready originFound clean ground.least).2
  obtain ⟨new, after, gathered, spec⟩ :=
    gather_spec plan.sound (sound.nodup.sublist ids) ended
  refine ⟨{ forest := after, frontier := new, source }, tasks, planned, ?_, planEq, plan, carried,
    fun workers => ?_, ended, gathered, spec⟩
  · simp only [step, planEq, bind, Except.bind, gathered]
    rfl
  · exact (policy.workOn_carried bounded known plan.sound plan.ready ground.least
      workers).length_eq

/-- A level can be grown, and the forest is sound again afterwards. -/
theorem step_spec (bounded : draws.Bounded) (known : ground.targets.Known ground.count)
    (measure : policy.measure = ground.measure) {state : State α σ}
    (sound : state.Sound ground origins) :
    ∃ after, step policy draws ground.width ground.least state = .ok after ∧
      Stepped policy draws ground origins state after := by
  obtain ⟨after, tasks, planned, grown, parts⟩ := step_parts bounded known measure sound
  exact ⟨after, grown, parts.stepped sound⟩

end DecisionTree.Growth
