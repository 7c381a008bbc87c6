import DecisionTree.Proofs.Growth.Parallel

/-!
# Two runs in tandem

Two runs over different data with the same rules and the same random numbers stay in step as long as
the nodes of every level have columns with the same histograms, and the same statistics: they plan
the same tasks, carry them out with the same effect and number the children alike.  Then their
forests have the same shape, and their nodes are divided at cuts that are parallel (`Tandem.step`).
-/

namespace DecisionTree.Growth

variable {α σ : Type} [Scalar α]

omit [Scalar α] in
/-- Two tasks ask for the same search of the same node. -/
structure Task.SameErrand (task twin : Task α σ) : Prop where
  id_eq : twin.id = task.id
  features_eq : twin.features = task.features
  source_eq : twin.source = task.source

/-- Two outcomes give as many children. -/
inductive Outcome.SameCount (outcome twin : Outcome α) : Prop
  | settled (children_eq : outcome.children = .ok []) (twin_eq : twin.children = .ok [])
  | divided (left right below above : Node α) (children_eq : outcome.children = .ok [left, right])
      (twin_eq : twin.children = .ok [below, above])

/-- The nodes of two forests are divided alike: nodes with the same children are divided at cuts
that are parallel. -/
def SameCuts (forest other : Forest α) (origins ledger : List (Origin α)) : Prop :=
  ∀ (id left right : Nat) (node twin : Node α) (origin entry : Origin α),
    forest.slots[id]? = some { node, children := some (left, right) } →
    other.slots[id]? = some { node := twin, children := some (left, right) } →
    origins[id]? = some origin → ledger[id]? = some entry →
      ∃ cut twinCut, node.cut = some cut ∧ twin.cut = some twinCut ∧
        cut.Parallel origin.columns entry.columns twinCut

/-- Two runs are in step. -/
structure Tandem (state other : State α σ) (origins ledger : List (Origin α)) : Prop where
  frontier_eq : other.frontier = state.frontier
  source_eq : other.source = state.source
  shape_eq : other.forest.shape = state.forest.shape
  cuts : SameCuts state.forest other.forest origins ledger

/-- Two nodes look the same to a search. -/
structure Node.Matches (node twin : Node α) (origin entry : Origin α) : Prop where
  depth_eq : twin.depth = node.depth
  counts_eq : twin.counts = node.counts
  impurity_eq : twin.impurity = node.impurity
  columns : List.Forall₂ Column.Parallel origin.columns entry.columns

/-- The nodes of the level look the same in two runs. -/
def State.Matches (state other : State α σ) (origins ledger : List (Origin α)) : Prop :=
  ∀ (id : Nat) (slot twin : Slot α) (origin entry : Origin α), id ∈ state.frontier →
    state.forest.slots[id]? = some slot → other.forest.slots[id]? = some twin →
    origins[id]? = some origin → ledger[id]? = some entry →
      slot.node.Matches twin.node origin entry

/-- Two forests have nodes with the given ids, and the rules admit the same of them. -/
def Policy.AdmitsAlike (policy : Policy α) (ids : List Nat) (forest other : Forest α) : Prop :=
  ∀ id ∈ ids, ∃ slot twin, forest.slots[id]? = some slot ∧ other.slots[id]? = some twin ∧
    policy.admits twin.node = policy.admits slot.node

namespace Policy

variable {policy : Policy α} {draws : Draws σ} {width : Nat} {ids : List Nat}
variable {forest other : Forest α}

/-- Whether a node is admitted does not change when it is released. -/
theorem AdmitsAlike.release (alike : policy.AdmitsAlike ids forest other) {id : Nat}
    {slot twin : Slot α} (found : forest.slots[id]? = some slot)
    (twinFound : other.slots[id]? = some twin)
    (admits : policy.admits twin.node = policy.admits slot.node) :
    policy.AdmitsAlike ids (forest.setNode id slot.node.release)
      (other.setNode id twin.node.release) := by
  intro place member
  rw [Forest.getElem?_setNode, Forest.getElem?_setNode]
  by_cases own : id = place
  · subst own
    rw [if_pos rfl, if_pos rfl, found, twinFound]
    exact ⟨_, _, rfl, rfl, admits⟩
  · rw [if_neg own, if_neg own]
    exact alike place member

/-- A level is planned alike in forests in which the same of its nodes are admitted. -/
theorem plan_tandem (alike : policy.AdmitsAlike ids forest other) {source next following : σ}
    {tasks twins : List (Task α σ)} {after result : Forest α}
    (planned : policy.plan draws width ids forest source = .ok (tasks, after, next))
    (twinPlanned : policy.plan draws width ids other source = .ok (twins, result, following)) :
    following = next ∧ List.Forall₂ Task.SameErrand tasks twins := by
  induction ids generalizing forest other source tasks twins with
  | nil =>
      obtain ⟨rfl, same⟩ := Prod.mk.inj (Except.ok.inj planned)
      obtain ⟨rfl, twinSame⟩ := Prod.mk.inj (Except.ok.inj twinPlanned)
      obtain ⟨-, rfl⟩ := Prod.mk.inj same
      obtain ⟨-, rfl⟩ := Prod.mk.inj twinSame
      exact ⟨rfl, .nil⟩
  | cons id rest ih =>
      obtain ⟨slot, twin, found, twinFound, admits⟩ := alike id List.mem_cons_self
      have restAlike : policy.AdmitsAlike rest forest other :=
        fun place member => alike place (List.mem_cons_of_mem _ member)
      rw [plan, Forest.slot_eq found] at planned
      rw [plan, Forest.slot_eq twinFound] at twinPlanned
      simp only [bind, Except.bind, admits] at planned twinPlanned
      split at planned
      next searched =>
        rw [if_pos searched] at twinPlanned
        obtain ⟨⟨others, _, _⟩, restPlanned, same⟩ := Outcome.bind_eq_ok.mp planned
        obtain ⟨⟨twinOthers, _, _⟩, twinRest, twinSame⟩ := Outcome.bind_eq_ok.mp twinPlanned
        obtain ⟨rfl, pair⟩ := Prod.mk.inj (Except.ok.inj same)
        obtain ⟨rfl, twinPair⟩ := Prod.mk.inj (Except.ok.inj twinSame)
        obtain ⟨rfl, rfl⟩ := Prod.mk.inj pair
        obtain ⟨rfl, rfl⟩ := Prod.mk.inj twinPair
        obtain ⟨sourceEq, errands⟩ := ih restAlike restPlanned twinRest
        exact ⟨sourceEq, .cons ⟨rfl, rfl, rfl⟩ errands⟩
      next refused =>
        rw [if_neg refused] at twinPlanned
        exact ih (restAlike.release found twinFound admits) planned twinPlanned

end Policy

omit [Scalar α] in
/-- Outcomes that give as many children are gathered alike. -/
theorem gather_tandem {pairs others : List (Task α σ × Outcome α)}
    (alike : List.Forall₂ (fun pair twin => twin.1.id = pair.1.id ∧ pair.2.SameCount twin.2) pairs
      others)
    {forest other after result : Forest α} (shape : other.shape = forest.shape)
    {new more : List Nat} (gathered : gather pairs forest = .ok (new, after))
    (twinGathered : gather others other = .ok (more, result)) :
    more = new ∧ result.shape = after.shape := by
  induction alike generalizing forest other new more with
  | nil =>
      obtain ⟨rfl, rfl⟩ := Prod.mk.inj (Except.ok.inj gathered)
      obtain ⟨rfl, rfl⟩ := Prod.mk.inj (Except.ok.inj twinGathered)
      exact ⟨rfl, shape⟩
  | @cons pair twin rest others alike _ ih =>
      obtain ⟨idEq, sameCount⟩ := alike
      have size : other.size = forest.size := by
        rw [← other.length_shape, ← forest.length_shape, shape]
      obtain ⟨children, childrenEq, gathered⟩ := Outcome.bind_eq_ok.mp gathered
      obtain ⟨⟨ids, attached⟩, attachEq, gathered⟩ := Outcome.bind_eq_ok.mp gathered
      obtain ⟨⟨restIds, _⟩, restEq, gathered⟩ := Outcome.bind_eq_ok.mp gathered
      obtain ⟨rfl, rfl⟩ := Prod.mk.inj (Except.ok.inj gathered)
      obtain ⟨twinChildren, twinChildrenEq, twinGathered⟩ := Outcome.bind_eq_ok.mp twinGathered
      obtain ⟨⟨twinIds, twinAttached⟩, twinAttachEq, twinGathered⟩ :=
        Outcome.bind_eq_ok.mp twinGathered
      obtain ⟨⟨twinRestIds, _⟩, twinRestEq, twinGathered⟩ := Outcome.bind_eq_ok.mp twinGathered
      obtain ⟨rfl, rfl⟩ := Prod.mk.inj (Except.ok.inj twinGathered)
      suffices twinIds = ids ∧ twinAttached.shape = attached.shape by
        obtain ⟨rfl, sameShape⟩ := this
        obtain ⟨rfl, result⟩ := ih sameShape restEq twinRestEq
        exact ⟨rfl, result⟩
      cases sameCount with
      | settled none twinNone =>
          obtain rfl := Except.ok.inj (none.symm.trans childrenEq)
          obtain rfl := Except.ok.inj (twinNone.symm.trans twinChildrenEq)
          obtain ⟨rfl, rfl⟩ := Prod.mk.inj (Except.ok.inj attachEq)
          obtain ⟨rfl, rfl⟩ := Prod.mk.inj (Except.ok.inj twinAttachEq)
          rw [Forest.shape_setNode, Forest.shape_setNode]
          exact ⟨rfl, shape⟩
      | divided left right below above two twinTwo =>
          obtain rfl := Except.ok.inj (two.symm.trans childrenEq)
          obtain rfl := Except.ok.inj (twinTwo.symm.trans twinChildrenEq)
          obtain ⟨rfl, shapeEq⟩ := Forest.of_attach_pair attachEq
          obtain ⟨rfl, twinShapeEq⟩ := Forest.of_attach_pair twinAttachEq
          rw [shapeEq, twinShapeEq, Forest.shape_setNode, Forest.shape_setNode,
            Forest.size_setNode, Forest.size_setNode, shape, size, idEq]
          exact ⟨rfl, rfl⟩

theorem Outcome.Parallel.sameCount {columns others : List (Column α)} {outcome twin : Outcome α}
    (parallel : outcome.Parallel columns others twin) : outcome.SameCount twin := by
  cases parallel with
  | settled none twinNone => exact .settled none twinNone
  | divided cut other cuts cutEq otherEq left right below above two twinTwo =>
      exact .divided left right below above two twinTwo

/-- What holds of the first parts of pairs holds of the pairs. -/
theorem forall₂_zip_fst {β γ δ ε : Type} {related : β → γ → Prop} {firsts : List β}
    {others : List γ} (each : List.Forall₂ related firsts others) {seconds : List δ}
    {rest : List ε} (length : seconds.length = firsts.length)
    (otherLength : rest.length = others.length) :
    List.Forall₂ (fun pair other => related pair.1 other.1) (firsts.zip seconds)
      (others.zip rest) := by
  induction each generalizing seconds rest with
  | nil => exact .nil
  | cons first later ih =>
      obtain ⟨second, seconds, rfl⟩ := List.exists_cons_of_length_eq_add_one length
      obtain ⟨other, rest, rfl⟩ := List.exists_cons_of_length_eq_add_one otherLength
      exact .cons first (ih (Nat.succ.inj length) (Nat.succ.inj otherLength))

theorem exists_of_forall₂ {β γ : Type} {related : β → γ → Prop} {firsts : List β} {others : List γ}
    (each : List.Forall₂ related firsts others) {first : β} (member : first ∈ firsts) :
    ∃ other ∈ others, related first other := by
  induction each with
  | nil => cases member
  | cons own later ih =>
      rcases List.mem_cons.mp member with rfl | member
      · exact ⟨_, List.mem_cons_self, own⟩
      · obtain ⟨other, otherMember, properties⟩ := ih member
        exact ⟨other, List.mem_cons_of_mem _ otherMember, properties⟩

section Step

variable {policy : Policy α} {draws : Draws σ} {ground twinGround : Ground α}
variable {origins ledger : List (Origin α)} {state other after result : State α σ}
variable {tasks twins : List (Task α σ)} {planned twinPlanned : Forest α}

/-- A task is for a node of the level, with the columns that the node came into being with. -/
theorem Policy.Planned.exists_origin
    (plan : policy.Planned ground origins state.frontier state.forest tasks planned)
    (sound : state.Sound ground origins) {task : Task α σ} (member : task ∈ tasks) :
    task.id ∈ state.frontier ∧ ∃ origin, origins[task.id]? = some origin ∧ origin.Sound ground ∧
      state.forest.slots[task.id]? = some { node := task.node, children := none } ∧
      task.node.columns = some origin.columns ∧
      Node.AllKnown origin.columns task.features := by
  have found := (plan.assigned task member).slot_eq
  have ready := plan.ready task member
  obtain ⟨origin, originFound⟩ := sound.forest_sound.exists_origin found
  have slotSound := sound.forest_sound.slots task.id _ origin found originFound
  obtain ⟨columns, live⟩ := ready.live
  obtain rfl := slotSound.columns_eq columns live
  have originSound := slotSound.origin_sound
  refine ⟨plan.sublist.subset (List.mem_map_of_mem member), origin, originFound, originSound, found,
    live, fun feature isFeature => ?_⟩
  rw [originSound.columnsOf.length_eq]
  exact ready.features_known feature isFeature

/-- Nodes that look the same are admitted alike. -/
theorem State.Matches.admitsAlike (matching : state.Matches other origins ledger)
    (sound : state.Sound ground origins) (twinSound : other.Sound twinGround ledger)
    (frontier : other.frontier = state.frontier) :
    policy.AdmitsAlike state.frontier state.forest other.forest := by
  intro id member
  obtain ⟨node, -, found, -⟩ := sound.live id member
  obtain ⟨twin, -, twinFound, -⟩ := twinSound.live id (frontier ▸ member)
  obtain ⟨origin, originFound⟩ := sound.forest_sound.exists_origin found
  obtain ⟨entry, entryFound⟩ := twinSound.forest_sound.exists_origin twinFound
  have nodes := matching id _ _ origin entry member found twinFound originFound entryFound
  refine ⟨_, _, found, twinFound, ?_⟩
  rw [Policy.admits, Policy.admits, Node.weightSum, Node.weightSum, nodes.depth_eq,
    nodes.counts_eq]

/-- If the tasks of two levels are carried out with the same effect, the nodes of the two forests
are divided alike after the level. -/
theorem Tandem.sameCuts (sound : state.Sound ground origins)
    (twinSound : other.Sound twinGround ledger) (tandem : Tandem state other origins ledger)
    (parts : Parts policy draws ground origins state after tasks planned)
    (twinParts : Parts policy draws twinGround ledger other result twins twinPlanned)
    (outcomes : List.Forall₂ (fun pair twin => twin.1.id = pair.1.id ∧ ∃ origin entry,
        origins[pair.1.id]? = some origin ∧ ledger[pair.1.id]? = some entry ∧
          pair.2.Parallel origin.columns entry.columns twin.2)
      (tasks.zip (policy.workOn draws ground.least tasks))
      (twins.zip (policy.workOn draws twinGround.least twins))) :
    SameCuts after.forest result.forest (after.forest.ledger origins)
      (result.forest.ledger ledger) := by
  intro id left right node twin origin entry found twinFound originFound entryFound
  have changes := parts.gathered.of_children sound parts.plan
    (fun pair paired => (List.of_mem_zip paired).1) found
  have twinChanges := twinParts.gathered.of_children twinSound twinParts.plan
    (fun pair paired => (List.of_mem_zip paired).1) twinFound
  rw [tandem.frontier_eq] at twinChanges
  rcases changes with ⟨outside, before⟩ | ⟨member, pair, paired, rfl⟩
  · rcases twinChanges with ⟨-, twinBefore⟩ | ⟨member, -⟩
    · rw [sound.forest_sound.getElem?_ledger before] at originFound
      rw [twinSound.forest_sound.getElem?_ledger twinBefore] at entryFound
      exact tandem.cuts id left right node twin origin entry before twinBefore originFound
        entryFound
    · exact absurd member outside
  · obtain ⟨twinPair, twinPaired, idEq, own, twinOwn, ownFound, twinOwnFound, parallel⟩ :=
      exists_of_forall₂ outcomes paired
    have before := (parts.plan.assigned _ (List.of_mem_zip paired).1).slot_eq
    have twinBefore := (twinParts.plan.assigned _ (List.of_mem_zip twinPaired).1).slot_eq
    have became := parts.gathered.became pair paired
    have twinBecame := twinParts.gathered.became twinPair twinPaired
    rw [idEq] at twinBefore twinBecame
    rw [sound.forest_sound.getElem?_ledger before, ownFound] at originFound
    rw [twinSound.forest_sound.getElem?_ledger twinBefore, twinOwnFound] at entryFound
    obtain rfl := Option.some.inj originFound
    obtain rfl := Option.some.inj entryFound
    obtain ⟨rfl, below, above, two, -⟩ := became.of_children found
    obtain ⟨rfl, -⟩ := twinBecame.of_children twinFound
    cases parallel with
    | settled none =>
        rw [two] at none
        cases none
    | divided cut other cuts cutEq otherEq => exact ⟨cut, other, cutEq, otherEq, cuts⟩

variable [Scalar.Ordered α]

/-- The tasks of two levels that look the same are carried out with the same effect. -/
theorem outcomes_parallel (bounded : draws.Bounded) (workers : 0 < policy.workers)
    (least : twinGround.least = ground.least) (known : ground.targets.Known ground.count)
    (twinKnown : twinGround.targets.Known twinGround.count)
    (sound : state.Sound ground origins) (twinSound : other.Sound twinGround ledger)
    (matching : state.Matches other origins ledger)
    (parts : Parts policy draws ground origins state after tasks planned)
    (twinParts : Parts policy draws twinGround ledger other result twins twinPlanned)
    (errands : List.Forall₂ Task.SameErrand tasks twins) :
    List.Forall₂ (fun pair twin => twin.1.id = pair.1.id ∧ ∃ origin entry,
        origins[pair.1.id]? = some origin ∧ ledger[pair.1.id]? = some entry ∧
          pair.2.Parallel origin.columns entry.columns twin.2)
      (tasks.zip (policy.workOn draws ground.least tasks))
      (twins.zip (policy.workOn draws twinGround.least twins)) := by
  have errands := forall₂_zip_fst errands (parts.complete workers).symm
    (twinParts.complete workers).symm
  rw [List.forall₂_iff_zip] at errands ⊢
  refine ⟨errands.1, fun {pair twin} member => ?_⟩
  obtain ⟨paired, twinPaired⟩ := List.of_mem_zip member
  obtain ⟨idEq, features, source⟩ := errands.2 member
  obtain ⟨inLevel, origin, originFound, originSound, found, live, featuresKnown⟩ :=
    parts.plan.exists_origin sound (List.of_mem_zip paired).1
  obtain ⟨-, entry, entryFound, entrySound, twinFound, twinLive, -⟩ :=
    twinParts.plan.exists_origin twinSound (List.of_mem_zip twinPaired).1
  rw [idEq] at entryFound twinFound
  have nodes := matching _ _ _ _ _ inLevel found twinFound originFound entryFound
  exact ⟨idEq, origin, entry, originFound, entryFound,
    (parts.carried pair paired).parallel bounded (twinParts.carried twin twinPaired) least known
      twinKnown originSound entrySound live twinLive nodes.counts_eq nodes.impurity_eq features
      source featuresKnown nodes.columns⟩

/-- Two runs that are in step, and have levels that look the same, are in step after the level. -/
theorem Tandem.step (bounded : draws.Bounded) (workers : 0 < policy.workers)
    (width : twinGround.width = ground.width) (least : twinGround.least = ground.least)
    (known : ground.targets.Known ground.count)
    (twinKnown : twinGround.targets.Known twinGround.count)
    (sound : state.Sound ground origins) (twinSound : other.Sound twinGround ledger)
    (tandem : Tandem state other origins ledger) (matching : state.Matches other origins ledger)
    (parts : Parts policy draws ground origins state after tasks planned)
    (twinParts : Parts policy draws twinGround ledger other result twins twinPlanned) :
    Tandem after result (after.forest.ledger origins) (result.forest.ledger ledger) := by
  have twinPlan := twinParts.plan_eq
  rw [width, tandem.frontier_eq, tandem.source_eq] at twinPlan
  obtain ⟨sourceEq, errands⟩ := policy.plan_tandem
    (matching.admitsAlike sound twinSound tandem.frontier_eq) parts.plan_eq twinPlan
  have outcomes := outcomes_parallel bounded workers least known twinKnown sound twinSound
    matching parts twinParts errands
  have plannedShape : twinPlanned.shape = planned.shape := by
    apply List.ext_getElem?
    intro place
    rw [Forest.shape_getElem?, Forest.shape_getElem?, parts.plan.children_eq,
      twinParts.plan.children_eq, ← Forest.shape_getElem?, ← Forest.shape_getElem?, tandem.shape_eq]
  have counts := outcomes.imp fun pair twin alike =>
    And.imp_right (fun ⟨_, _, _, _, parallel⟩ => parallel.sameCount) alike
  obtain ⟨frontierEq, shapeEq⟩ :=
    gather_tandem counts plannedShape parts.gather_eq twinParts.gather_eq
  exact ⟨frontierEq, sourceEq, shapeEq, tandem.sameCuts sound twinSound parts twinParts outcomes⟩

end Step

end DecisionTree.Growth
