import DecisionTree.Proofs.Growth.Termination

/-!
# When growth repeats itself

A node that is divided idly passes its columns on to one of its children as they are.  Apart from
the root, whose histogram is not added up from its columns, it also passes on its histogram and its
impurity.  If all features are searched at all boundaries and depth is not limited, the child is
then divided at the same cut again, and so on: growth does not end (`Stuck.grow`).  So for such a
policy growth ends exactly if no node but the root is divided idly (`Course.ends_iff`).
-/

namespace DecisionTree

variable {α σ : Type} [Scalar α]

namespace ColumnsOf

variable {targets : Targets α} {value : Nat → Int → α} {width : Nat} {ids : List Int}
variable {columns : List (Column α)} {chosen : Int → Bool}

/-- Keeping all examples changes nothing. -/
theorem keep_all (columnsOf : ColumnsOf targets value width ids columns)
    (all : ∀ index ∈ ids, chosen index = true) : columns.map (Column.keep chosen) = columns := by
  refine (List.map_congr_left fun column member => ?_).trans (List.map_id columns)
  obtain ⟨feature, describes⟩ := columnsOf.exists_describes column member
  have entries : column.entries.filterMap (Entry.keep column.targets chosen) = column.entries := by
    refine (List.filterMap_congr fun entry entryMember => ?_).trans List.filterMap_some
    apply Entry.keep_of_all (describes.settled entry entryMember).nonempty
    apply List.filter_eq_self.mpr
    intro index held
    exact all index (describes.mem_iff.mp ⟨entry, entryMember, held⟩)
  rw [Column.keep, entries, Column.withEntries, ← describes.pending_eq]
  rfl

end ColumnsOf

namespace Growth

/-- A search cannot tell two nodes apart. -/
structure Node.Alike (node other : Node α) : Prop where
  columns_eq : other.columns = node.columns
  counts_eq : other.counts = node.counts
  impurity_eq : other.impurity = node.impurity

/-- The search of all boundaries of all features comes to a cut that lowers the impurity
enough. -/
def Node.Finds (measure : Measure α) (width : Nat) (least : α) (node : Node α) (cut : Cut α) :
    Prop :=
  ∃ best, node.searchAll measure (allFeatures width) = .ok best ∧
    best.accepted node least = some cut

/-- The policy searches all boundaries of all features at every depth. -/
structure Policy.Exhaustive (policy : Policy α) (width : Nat) : Prop where
  splitter_eq : policy.splitter = .best
  features_eq : policy.featuresDrawn = width
  maxDepth_eq : policy.maxDepth = none
  workers_pos : 0 < policy.workers

variable {policy : Policy α} {draws : Draws σ} {ground : Ground α} {origins : List (Origin α)}
variable {measure : Measure α} {node other : Node α} {columns : List (Column α)} {cut : Cut α}
variable {width : Nat} {least : α}

namespace Node

theorem Alike.searchAll_eq (alike : node.Alike other) (features : List Int) :
    other.searchAll measure features = node.searchAll measure features := by
  obtain ⟨columns, exampleCount, depth, counts, impurity, cut⟩ := node
  obtain ⟨otherColumns, otherCount, otherDepth, otherCounts, otherImpurity, otherCut⟩ := other
  obtain ⟨rfl, rfl, rfl⟩ := alike
  rfl

theorem Alike.finds (alike : node.Alike other) (finds : node.Finds measure width least cut) :
    other.Finds measure width least cut := by
  obtain ⟨best, found, accepted⟩ := finds
  refine ⟨best, (alike.searchAll_eq _).trans found, ?_⟩
  rw [← accepted, Best.accepted, Best.accepted, decrease, decrease, weightSum, weightSum,
    alike.counts_eq, alike.impurity_eq]

/-- The child that gets all examples of a node is like the node. -/
theorem part_alike {targets : Targets α} {value : Nat → Int → α} {ids : List Int}
    {chosen : Int → Bool} (columnsOf : ColumnsOf targets value width ids columns)
    (all : ∀ index ∈ ids, chosen index = true) (live : node.columns = some columns)
    (countsEq : node.counts = (columns.head?.map Column.counts).getD [])
    (impurityEq : node.impurity = measure.impurity node.counts) (count : Nat) :
    node.Alike (node.part measure columns chosen count) := by
  rw [part, columnsOf.keep_all all]
  constructor
  · exact live.symm
  · exact countsEq.symm
  · rw [impurityEq, countsEq]
    rfl

/-- What the full search finds lies between two entries of a column. -/
theorem Finds.exists_between (finds : node.Finds measure width least cut)
    (live : node.columns = some columns) (length : columns.length = width) :
    ∃ column place lower upper, cut.Between columns column place lower upper := by
  obtain ⟨best, found, accepted⟩ := finds
  have known : AllKnown columns (allFeatures width) :=
    fun feature member => length ▸ mem_allFeatures member
  obtain ⟨other, otherFound, justified⟩ := searchAll_justified measure live known
  obtain rfl := Except.ok.inj (found.symm.trans otherFound)
  obtain ⟨cutEq, -⟩ := Option.filter_eq_some_iff.mp accepted
  obtain ⟨column, place, lower, upper, between, -⟩ := justified cut cutEq
  exact ⟨column, place, lower, upper, between⟩

end Node

/-- A node other than the root that is about to be divided at a cut with all of its examples on
one side. -/
structure Stuck (policy : Policy α) (ground : Ground α) (state : State α σ) (id : Nat)
    (node : Node α) (columns : List (Column α)) (cut : Cut α) : Prop where
  member : id ∈ state.frontier
  not_root : id ≠ 0
  slot_eq : state.forest.slots[id]? = some { node, children := none }
  live : node.columns = some columns
  admits : policy.admits node = true
  finds : node.Finds policy.measure ground.width ground.least cut
  idle : ∀ column, columns[cut.feature.toNat]? = some column → ¬ column.Parted cut.threshold

variable [Scalar.Ordered α] {state after : State α σ} {id : Nat}

omit [Scalar.Ordered α] in
/-- Where all boundaries of all features are searched no random number is drawn. -/
theorem Node.search_of_searchAll {splitter : Splitter} {measure : Measure α} {draws : Draws σ}
    {node : Node α} {features : List Int} {source : σ} {width : Nat} {best : Best α}
    (thorough : splitter = .best) (all : features = allFeatures width)
    (found : node.searchAll measure (allFeatures width) = .ok best) :
    node.search splitter measure draws features source = .ok (best, source) := by
  rw [thorough, all]
  exact search_best found draws source

/-- Carrying out a task for a node whose full search finds a cut divides the node there. -/
theorem Carried.of_finds {task : Task α σ} {outcome : Outcome α} {origin : Origin α}
    (carried : Carried policy draws ground.least task outcome) (splitter : policy.splitter = .best)
    (features : task.features = allFeatures ground.width)
    (known : ground.targets.Known ground.count) (originSound : origin.Sound ground)
    (live : task.node.columns = some origin.columns)
    (finds : task.node.Finds policy.measure ground.width ground.least cut) :
    outcome.node = { task.node with cut := some cut, columns := none } ∧
      outcome.children = .ok
        [task.node.part policy.measure origin.columns (ground.goesLeft cut)
            (origin.ids.filter (ground.goesLeft cut)).length,
          task.node.part policy.measure origin.columns (fun index => !ground.goesLeft cut index)
            (task.node.exampleCount - (origin.ids.filter (ground.goesLeft cut)).length)] := by
  obtain ⟨column, place, lower, upper, between⟩ :=
    finds.exists_between live originSound.columnsOf.length_eq
  obtain ⟨best, found, accepted⟩ := finds
  exact carried.of_accepted known originSound live
    (Node.search_of_searchAll splitter features found) accepted between

omit [Scalar.Ordered α] in
/-- If carrying out a task gives children, then the full search of the node finds a cut. -/
theorem Carried.exists_finds {task : Task α σ} {outcome : Outcome α}
    (carried : Carried policy draws least task outcome) (splitter : policy.splitter = .best)
    (features : task.features = allFeatures width) (live : task.node.columns = some columns)
    (length : columns.length = width) (children : outcome.children ≠ .ok []) :
    ∃ cut, task.node.Finds policy.measure width least cut := by
  have known : Node.AllKnown columns (allFeatures width) :=
    fun feature member => length ▸ mem_allFeatures member
  obtain ⟨best, found, -⟩ := Node.searchAll_justified policy.measure live known
  cases accepted : best.accepted task.node least with
  | some cut => exact ⟨cut, best, found, accepted⟩
  | none =>
      exact absurd (carried.of_refused live (Node.search_of_searchAll splitter features found)
        accepted) children

/-- A cut that does not part the values of its column sends all examples the same way. -/
theorem Origin.Sound.one_side {origin : Origin α} (sound : origin.Sound ground)
    {column : Column α} (found : origin.columns[cut.feature.toNat]? = some column)
    (idle : ¬ column.Parted cut.threshold) :
    (∀ index ∈ origin.ids, (!ground.goesLeft cut index) = true) ∨
      ∀ index ∈ origin.ids, ground.goesLeft cut index = true := by
  have describes := sound.columnsOf.describes _ column found
  have goesLeft_eq : ∀ entry ∈ column.entries, ∀ index ∈ entry.indices,
      ground.goesLeft cut index = !Scalar.le cut.threshold entry.value := by
    intro entry member index held
    rw [← (describes.le_entry member held cut.threshold).1]
    rfl
  by_cases someAbove : ∃ entry ∈ column.entries, Scalar.le cut.threshold entry.value = true
  · -- no value is below the threshold, so all examples go to the right
    refine .inl fun index isId => ?_
    obtain ⟨entry, member, held⟩ := describes.mem_iff.mpr isId
    rw [goesLeft_eq entry member index held, Bool.not_not]
    apply eq_true_of_ne_false
    intro isBelow
    exact idle ⟨⟨entry, member, isBelow⟩, someAbove⟩
  · refine .inr fun index isId => ?_
    obtain ⟨entry, member, held⟩ := describes.mem_iff.mpr isId
    rw [goesLeft_eq entry member index held, Bool.not_eq_true']
    apply Bool.eq_false_iff.mpr
    intro isAbove
    exact someAbove ⟨entry, member, isAbove⟩

/-- A node that is about to be divided idly leaves another such node on the next level. -/
theorem Stuck.step (stuck : Stuck policy ground state id node columns cut)
    (exhaustive : policy.Exhaustive ground.width) (measure : policy.measure = ground.measure)
    (known : ground.targets.Known ground.count) (sound : state.Sound ground origins)
    (stepped : Stepped policy draws ground origins state after) :
    ∃ next child, Stuck policy ground after next child columns cut := by
  obtain ⟨origin, originFound⟩ := sound.forest_sound.exists_origin stuck.slot_eq
  have slotSound := sound.forest_sound.slots id _ origin stuck.slot_eq originFound
  obtain rfl := slotSound.columns_eq columns stuck.live
  have originSound := slotSound.origin_sound
  have columnsOf := originSound.columnsOf
  obtain ⟨column, place, lower, upper, between⟩ :=
    stuck.finds.exists_between stuck.live columnsOf.length_eq
  have wide := Nat.zero_lt_of_lt (originSound.feature_lt between)
  obtain ⟨task, outcome, rfl, worked⟩ := stepped.searched exhaustive.workers_pos id stuck.member _
    stuck.slot_eq stuck.admits wide
  obtain ⟨-, childrenEq⟩ := worked.carried.of_finds exhaustive.splitter_eq
    (worked.assigned.features_eq exhaustive.features_eq) known originSound stuck.live stuck.finds
  have countsEq : task.node.counts = (origin.columns.head?.map Column.counts).getD [] := by
    rw [slotSound.counts_eq, Origin.counts, if_neg stuck.not_root]
  have impurityEq : task.node.impurity = policy.measure.impurity task.node.counts := by
    rw [measure]
    exact slotSound.impurity_eq
  have stays : ∀ (chosen : Int → Bool) (count : Nat), (∀ index ∈ origin.ids, chosen index = true) →
      task.node.part policy.measure origin.columns chosen count ∈
        [task.node.part policy.measure origin.columns (ground.goesLeft cut)
            (origin.ids.filter (ground.goesLeft cut)).length,
          task.node.part policy.measure origin.columns (fun index => !ground.goesLeft cut index)
            (task.node.exampleCount - (origin.ids.filter (ground.goesLeft cut)).length)] →
        ∃ next child, Stuck policy ground after next child origin.columns cut := by
    intro chosen count all isChild
    have alike := Node.part_alike columnsOf all stuck.live countsEq impurityEq count
    obtain ⟨next, member, found⟩ := worked.became.child childrenEq isChild
    have old := Forest.lt_size stuck.slot_eq
    have isNew := stepped.fresh next member
    refine ⟨next, _, member, by omega, found, alike.columns_eq.trans stuck.live, ?_,
      alike.finds stuck.finds, stuck.idle⟩
    have admits := stuck.admits
    rw [Policy.admits, exhaustive.maxDepth_eq, Node.weightSum] at admits ⊢
    rwa [alike.counts_eq]
  rcases originSound.one_side between.column_eq (stuck.idle column between.column_eq) with
    allRight | allLeft
  · exact stays _ _ allRight (List.mem_cons_of_mem _ List.mem_cons_self)
  · exact stays _ _ allLeft List.mem_cons_self

variable {dataset : Dataset α} {rows : List (List α)} {source : σ}

omit [Scalar.Ordered α] in
theorem Stuck.busy (stuck : Stuck policy ground state id node columns cut) :
    state.frontier.isEmpty = false :=
  List.isEmpty_eq_false_iff_exists_mem.mpr ⟨id, stuck.member⟩

/-- From a node that is about to be divided idly on, growth does not end. -/
theorem Stuck.grow (stuck : Stuck policy (groundOf policy dataset rows) state id node columns cut)
    (exhaustive : policy.Exhaustive dataset.features.size) (fromRows : dataset.FromRows rows)
    (bounded : draws.Bounded) (course : Course policy draws dataset source state origins)
    (levels : Nat) :
    Growth.grow policy draws dataset.features.size (leastDecrease policy dataset) levels state =
      .error .growthUnfinished := by
  induction levels generalizing state origins id node with
  | zero =>
      rw [Growth.grow, stuck.busy]
      rfl
  | succ levels ih =>
      obtain ⟨after, grown, stepped⟩ := course.exists_step fromRows bounded
      obtain ⟨next, child, nextStuck⟩ := stuck.step exhaustive rfl fromRows.known
        (course.sound fromRows bounded) stepped
      rw [Growth.grow, stuck.busy, grown]
      exact ih nextStuck (course.level grown)

/-- Whether a node is divided idly can be seen from its cut and from the columns that it came into
being with. -/
theorem Forest.Sound.idle_iff {forest : Forest α} {left right : Nat} {origin : Origin α}
    (sound : forest.Sound ground origins)
    (found : forest.slots[id]? = some { node, children := some (left, right) })
    (originFound : origins[id]? = some origin) :
    forest.Idle origins id ↔ ∃ cut, node.cut = some cut ∧
      ∀ column, origin.columns[cut.feature.toNat]? = some column →
        ¬ column.Parted cut.threshold := by
  obtain ⟨originSound, cut, column, place, lower, upper, branching⟩ :=
    sound.exists_branching found originFound
  rw [branching.idle_iff originSound found originFound]
  have cutEq := branching.cut_eq
  have columnEq := branching.division.between.column_eq
  constructor
  · intro idle
    refine ⟨cut, cutEq, fun other otherEq => ?_⟩
    rw [columnEq] at otherEq
    obtain rfl := Option.some.inj otherEq
    exact idle
  · rintro ⟨other, otherEq, idle⟩
    rw [cutEq] at otherEq
    obtain rfl := Option.some.inj otherEq
    exact idle column columnEq

/-- Every node but the root that was divided idly was once about to be divided so. -/
theorem Course.exists_stuck (exhaustive : policy.Exhaustive dataset.features.size)
    (fromRows : dataset.FromRows rows) (bounded : draws.Bounded)
    {place : Nat} (course : Course policy draws dataset source state origins) (notRoot : place ≠ 0)
    (idle : state.forest.Idle origins place) :
    ∃ before ledger node columns cut, Course policy draws dataset source before ledger ∧
      Stuck policy (groundOf policy dataset rows) before place node columns cut := by
  induction course with
  | start started =>
      obtain ⟨columns, counts, -, -, rfl⟩ := start_eq started
      obtain ⟨node, left, right, -, -, found, -⟩ := idle
      cases place with
      | zero => exact absurd rfl notRoot
      | succ place => cases found
  | @level state after origins course grown ih =>
      have sound := course.sound fromRows bounded
      have stepped := course.stepped fromRows bounded grown
      have divided := idle
      obtain ⟨node, left, right, origin, -, found, originFound, -⟩ := divided
      obtain ⟨cut, cutEq, idleCut⟩ :=
        (stepped.sound.forest_sound.idle_iff found originFound).mp idle
      rcases stepped.split _ node left right found with
        before | ⟨member, task, outcome, rfl, assigned, carried, -, became⟩
      · obtain ⟨own, ownFound⟩ := sound.forest_sound.exists_origin before
        rw [Forest.getElem?_ledger (List.getElem?_eq_some_iff.mp ownFound).1, ownFound]
          at originFound
        obtain rfl := Option.some.inj originFound
        exact ih ((sound.forest_sound.idle_iff before ownFound).mpr ⟨cut, cutEq, idleCut⟩)
      · obtain ⟨own, ownFound⟩ := sound.forest_sound.exists_origin assigned.slot_eq
        rw [Forest.getElem?_ledger (List.getElem?_eq_some_iff.mp ownFound).1, ownFound]
          at originFound
        obtain rfl := Option.some.inj originFound
        have slotSound := sound.forest_sound.slots _ _ own assigned.slot_eq ownFound
        obtain ⟨live, columns, liveFound, columnsFound⟩ := sound.live _ member
        rw [assigned.slot_eq] at liveFound
        obtain ⟨rfl, -⟩ := (Slot.mk.injEq ..).mp (Option.some.inj liveFound)
        obtain rfl := slotSound.columns_eq columns columnsFound
        obtain ⟨nodeEq, below, above, children, -⟩ := became.of_children found
        have features := assigned.features_eq exhaustive.features_eq
        obtain ⟨other, finds⟩ := carried.exists_finds exhaustive.splitter_eq features columnsFound
          slotSound.origin_sound.columnsOf.length_eq (by simp [children])
        obtain ⟨divided, -⟩ := carried.of_finds exhaustive.splitter_eq features fromRows.known
          slotSound.origin_sound columnsFound finds
        rw [← nodeEq, divided] at cutEq
        obtain rfl := Option.some.inj cutEq
        exact ⟨state, origins, task.node, own.columns, other, course, member, notRoot,
          assigned.slot_eq, columnsFound, assigned.admits, finds, idleCut⟩

/-- A state on the course without end leaves growth without end from the start. -/
theorem Course.grow_eq_error {started : State α σ} (fromRows : dataset.FromRows rows)
    (bounded : draws.Bounded) (start : Growth.start policy.measure dataset source = .ok started)
    (course : Course policy draws dataset source state origins)
    (endless : ∀ levels, Growth.grow policy draws dataset.features.size
      (leastDecrease policy dataset) levels state = .error .growthUnfinished) (levels : Nat) :
    Growth.grow policy draws dataset.features.size (leastDecrease policy dataset) levels started =
      .error .growthUnfinished := by
  induction course with
  | start other =>
      obtain rfl := Except.ok.inj (other.symm.trans start)
      exact endless levels
  | @level state after origins course grown ih =>
      have busy : state.frontier.isEmpty = false := by
        apply Bool.eq_false_iff.mpr
        intro empty
        have stepped := course.stepped fromRows bounded grown
        have ended := endless 0
        rw [Growth.grow, stepped.frontier_eq_nil (List.isEmpty_iff.mp empty)] at ended
        cases ended
      apply ih
      intro levels
      cases levels with
      | zero =>
          rw [Growth.grow, busy]
          rfl
      | succ levels =>
          rw [Growth.grow, busy, grown]
          exact endless levels

/-- With all boundaries of all features searched at every depth, growth ends exactly if no node but
the root is ever divided idly. -/
theorem Course.ends_iff {started : State α σ} (exhaustive : policy.Exhaustive dataset.features.size)
    (fromRows : dataset.FromRows rows) (bounded : draws.Bounded)
    (start : Growth.start policy.measure dataset source = .ok started) :
    (∃ levels final, Growth.grow policy draws dataset.features.size (leastDecrease policy dataset)
        levels started = .ok final) ↔
      ∀ {state : State α σ} {origins : List (Origin α)},
        Course policy draws dataset source state origins →
          ∀ id, id ≠ 0 → ¬ state.forest.Idle origins id := by
  constructor
  · rintro ⟨levels, final, ended⟩ state origins course id notRoot idle
    obtain ⟨before, ledger, node, columns, cut, beforeCourse, stuck⟩ :=
      course.exists_stuck exhaustive fromRows bounded notRoot idle
    have endless := beforeCourse.grow_eq_error fromRows bounded start
      (stuck.grow exhaustive fromRows bounded beforeCourse) levels
    rw [ended] at endless
    cases endless
  · intro busy
    obtain ⟨final, ended⟩ := (Course.start start).grow_of_busy fromRows bounded busy
    exact ⟨_, final, ended⟩

end Growth

end DecisionTree
