import DecisionTree.Dataset.Dense
import DecisionTree.Proofs.Binary64.Midpoint
import DecisionTree.Proofs.Growth.Choice

/-!
# Which nodes are split

Every node stands on a level once; what becomes of it there is never changed again
(`Course.exists_visit`).  If all boundaries of all features are searched, then a node of a level is
divided exactly if it may be split and its search finds a cut (`Verdict`).  So in a grown forest the
nodes with children are those that are eligible: no eligible node is passed over and no other is
split (`Course.split_iff_eligible`).
-/

namespace DecisionTree.Growth

variable {α σ : Type} [Scalar α]

/-- The policy searches all boundaries of all features. -/
structure Policy.Thorough (policy : Policy α) (width : Nat) : Prop where
  splitter_eq : policy.splitter = .best
  features_eq : policy.featuresDrawn = width
  workers_pos : 0 < policy.workers

/-- What became of a node of a level: it is divided if it may be split and its search finds a cut,
and has no children otherwise. -/
inductive Verdict (policy : Policy α) (width : Nat) (least : α) (node : Node α) (slot : Slot α) :
    Prop where
  | settled (children_eq : slot.children = none)
      (refused : ∀ cut, policy.admits node = true → ¬ node.Finds policy.measure width least cut)
  | divided (cut : Cut α) (left right : Nat) (children_eq : slot.children = some (left, right))
      (cut_eq : slot.node.cut = some cut) (admits : policy.admits node = true)
      (finds : node.Finds policy.measure width least cut)

/-- A node stood on a level of a course with its columns, and the slot says what became of it. -/
structure Visit (policy : Policy α) (draws : Draws σ) (dataset : Dataset α) (source : σ) (id : Nat)
    (origin : Origin α) (node : Node α) (slot : Slot α) : Prop where
  on_level : ∃ before ledger, Course policy draws dataset source before ledger ∧
    id ∈ before.frontier ∧ before.forest.slots[id]? = some { node, children := none }
  live : node.columns = some origin.columns
  statistics_eq : slot.node.statistics = node.statistics
  verdict : Verdict policy dataset.features.size (leastDecrease policy dataset) node slot

variable {policy : Policy α} {draws : Draws σ} {ground : Ground α} {origins : List (Origin α)}
variable {state after : State α σ} {id : Nat} {node : Node α} {slot : Slot α} {origin : Origin α}
variable {dataset : Dataset α} {rows : List (List α)} {source : σ}

/-- A node is divided exactly if it may be split and its search finds a cut. -/
theorem Verdict.isSome_iff {width : Nat} {least : α}
    (verdict : Verdict policy width least node slot) :
    slot.children.isSome = true ↔
      policy.admits node = true ∧ ∃ cut, node.Finds policy.measure width least cut := by
  cases verdict with
  | settled childless refused =>
      rw [childless]
      constructor
      · intro impossible
        cases impossible
      · rintro ⟨admits, cut, finds⟩
        exact absurd finds (refused cut admits)
  | divided cut left right children _ admits finds =>
      rw [children]
      exact ⟨fun _ => ⟨admits, cut, finds⟩, fun _ => rfl⟩

variable [Scalar.Ordered α]

/-- What a level makes of one of its nodes. -/
theorem Stepped.verdict (stepped : Stepped policy draws ground origins state after)
    (thorough : policy.Thorough ground.width)
    (known : ground.targets.Known ground.count) (sound : state.Sound ground origins)
    (member : id ∈ state.frontier)
    (before : state.forest.slots[id]? = some { node, children := none })
    (originFound : origins[id]? = some origin) (found : after.forest.slots[id]? = some slot) :
    node.columns = some origin.columns ∧ slot.node.statistics = node.statistics ∧
      Verdict policy ground.width ground.least node slot := by
  have slotSound := sound.forest_sound.slots id _ origin before originFound
  have originSound := slotSound.origin_sound
  obtain ⟨other, columns, liveFound, live⟩ := sound.live id member
  obtain ⟨rfl, -⟩ := (Slot.mk.injEq ..).mp (Option.some.inj (before.symm.trans liveFound))
  obtain rfl := slotSound.columns_eq columns live
  obtain ⟨changed, changedFound, statistics, -⟩ := stepped.kept id member _ before
  obtain rfl := Option.some.inj (changedFound.symm.trans found)
  refine ⟨live, statistics, ?_⟩
  obtain ⟨own, children⟩ := changed
  cases children with
  | none =>
      refine .settled rfl fun cut admits finds => ?_
      -- the search would have found the cut, and the node would have children
      obtain ⟨column, place, lower, upper, between⟩ :=
        finds.exists_between live originSound.columnsOf.length_eq
      have wide := Nat.zero_lt_of_lt (originSound.feature_lt between)
      obtain ⟨task, outcome, rfl, worked⟩ :=
        stepped.searched thorough.workers_pos id member _ before admits wide
      obtain ⟨-, pair⟩ := worked.carried.of_finds thorough.splitter_eq
        (worked.assigned.features_eq thorough.features_eq) known originSound live finds
      cases worked.became with
      | settled none =>
          rw [pair] at none
          cases none
      | divided _ _ _ _ divided =>
          rw [found] at divided
          cases divided
  | some pair =>
      obtain ⟨left, right⟩ := pair
      rcases stepped.split id own left right found with
        divided | ⟨-, task, outcome, rfl, assigned, carried, -, became⟩
      · rw [before] at divided
        cases divided
      · obtain ⟨rfl, -⟩ := (Slot.mk.injEq ..).mp (Option.some.inj (before.symm.trans
          assigned.slot_eq))
        obtain ⟨rfl, below, above, pair, -⟩ := became.of_children found
        have features := assigned.features_eq thorough.features_eq
        obtain ⟨cut, finds⟩ := carried.exists_finds thorough.splitter_eq features live
          originSound.columnsOf.length_eq (by simp [pair])
        obtain ⟨nodeEq, -⟩ := carried.of_finds thorough.splitter_eq features known originSound live
          finds
        exact .divided cut left right rfl (by rw [nodeEq]) assigned.admits finds

omit [Scalar.Ordered α] in
/-- No node is lost, and its statistics never change. -/
theorem Stepped.exists_kept (stepped : Stepped policy draws ground origins state after)
    (found : state.forest.slots[id]? = some slot) :
    ∃ changed, after.forest.slots[id]? = some changed ∧
      changed.node.statistics = slot.node.statistics := by
  by_cases member : id ∈ state.frontier
  · obtain ⟨changed, changedFound, statistics, -⟩ := stepped.kept id member slot found
    exact ⟨changed, changedFound, statistics⟩
  · exact ⟨slot, (stepped.frame id (Forest.lt_size found) member).trans found, rfl⟩

namespace Course

/-- Every node that does not stand on the current level has stood on an earlier one. -/
theorem exists_visit (fromRows : dataset.FromRows rows) (bounded : draws.Bounded)
    (thorough : policy.Thorough dataset.features.size)
    (course : Course policy draws dataset source state origins)
    (found : state.forest.slots[id]? = some slot) (originFound : origins[id]? = some origin)
    (done : id ∉ state.frontier) :
    ∃ node, Visit policy draws dataset source id origin node slot := by
  induction course with
  | start started =>
      obtain ⟨columns, counts, -, -, rfl⟩ := start_eq started
      cases id with
      | zero => exact absurd (List.mem_singleton_self 0) done
      | succ id => cases found
  | @level state after origins course grown ih =>
      have sound := course.sound fromRows bounded
      have stepped := course.stepped fromRows bounded grown
      by_cases old : id < state.forest.size
      · have known : id < origins.length := sound.forest_sound.length_eq ▸ old
        rw [Forest.getElem?_ledger known] at originFound
        by_cases member : id ∈ state.frontier
        · obtain ⟨node, columns, before, -⟩ := sound.live id member
          obtain ⟨live, statistics, verdict⟩ := stepped.verdict thorough fromRows.known sound
            member before originFound found
          exact ⟨node, ⟨state, origins, course, member, before⟩, live, statistics, verdict⟩
        · rw [stepped.frame id old member] at found
          exact ih found originFound member
      · obtain ⟨isNew, -⟩ := stepped.born id slot (Nat.le_of_not_lt old) found
        exact absurd isNew done

/-- The children of a node are one level deeper. -/
theorem depth_children (fromRows : dataset.FromRows rows) (bounded : draws.Bounded)
    (course : Course policy draws dataset source state origins) {left right : Nat}
    (found : state.forest.slots[id]? = some { node, children := some (left, right) }) :
    ∃ below above, state.forest.slots[left]? = some below ∧
      state.forest.slots[right]? = some above ∧ below.node.depth = node.depth + 1 ∧
      above.node.depth = node.depth + 1 := by
  induction course with
  | start started =>
      obtain ⟨columns, counts, -, -, rfl⟩ := start_eq started
      cases id with
      | zero => cases found
      | succ id => cases found
  | @level state after origins course grown ih =>
      have stepped := course.stepped fromRows bounded grown
      rcases stepped.split id node left right found with before | ⟨-, task, outcome, worked⟩
      · obtain ⟨below, above, belowFound, aboveFound, belowDepth, aboveDepth⟩ := ih before
        obtain ⟨less, lessFound, lessSame⟩ := stepped.exists_kept belowFound
        obtain ⟨greater, greaterFound, greaterSame⟩ := stepped.exists_kept aboveFound
        exact ⟨less, greater, lessFound, greaterFound, (Node.depth_congr lessSame).trans belowDepth,
          (Node.depth_congr greaterSame).trans aboveDepth⟩
      · obtain ⟨rfl, below, above, pair, belowFound, aboveFound⟩ := worked.became.of_children found
        obtain ⟨origin, -, ending⟩ := worked.ended
        have same := Node.depth_congr ending.statistics_eq
        refine ⟨_, _, belowFound, aboveFound, ?_, ?_⟩
        · rw [same, (ending.of_mem_children pair List.mem_cons_self).2]
        · rw [same, (ending.of_mem_children pair (List.mem_cons_of_mem _ List.mem_cons_self)).2]

end Course

/-- The conditions for splitting a node with some columns: it is above the depth limit if there is
one, it has enough weight, and some boundary of a column may be chosen, the lowest score of which
lowers the weighted impurity by enough. -/
structure Policy.Eligible (policy : Policy α) (least : α) (node : Node α)
    (columns : List (Column α)) : Prop where
  above_limit : ∀ limit, policy.maxDepth = some limit → node.depth < limit
  heavy : Scalar.le policy.minWeight node.weightSum = true
  worth : ∃ feature boundary, Candidate policy.measure node columns feature boundary ∧
    (∀ otherFeature other, Candidate policy.measure node columns otherFeature other →
      Scalar.lt (other.score policy.measure node.weightSum)
        (boundary.score policy.measure node.weightSum) = false) ∧
    Scalar.le least (node.weightSum *
      (node.impurity - boundary.score policy.measure node.weightSum)) = true

omit [Scalar.Ordered α] in
theorem Policy.admits_iff {policy : Policy α} {node : Node α} :
    policy.admits node = true ↔ (∀ limit, policy.maxDepth = some limit → node.depth < limit) ∧
      Scalar.le policy.minWeight node.weightSum = true := by
  rw [admits, Bool.and_eq_true, Option.all_eq_true]
  simp only [decide_eq_true_eq]

section Floats

variable {values : Nested Float} {labels : Nested Label} {weights : Option (Nested Float)}
variable {names : Option Setting} {table : Option LabelTable} {dataset : Dataset Float}
variable {policy : Policy Float} {draws : Draws σ} {source : σ} {started final : State Float σ}

/-- A forest is grown over an accepted table, and all boundaries of all features are searched.  Then
every node of the forest stood on a level with its columns and has the same statistics still, and it
has children exactly if it was eligible then. -/
theorem Course.split_iff_eligible
    (accepted : Dataset.ofTable values labels weights names table = .ok dataset)
    (thorough : policy.Thorough dataset.features.size) (bounded : draws.Bounded)
    (start : Growth.start policy.measure dataset source = .ok started) {levels : Nat}
    (grown : Growth.grow policy draws dataset.features.size (leastDecrease policy dataset) levels
      started = .ok final) {id : Nat} {slot : Slot Float}
    (found : final.forest.slots[id]? = some slot) :
    ∃ before ledger node columns, Course policy draws dataset source before ledger ∧
      id ∈ before.frontier ∧ before.forest.slots[id]? = some { node, children := none } ∧
      node.columns = some columns ∧ slot.node.statistics = node.statistics ∧
      (slot.children.isSome = true ↔
        policy.Eligible (leastDecrease policy dataset) node columns) := by
  obtain ⟨width, rows, -, fromRows⟩ := Dataset.fromRows_of_ofTable accepted
  obtain ⟨origins, course, empty⟩ := (Course.start start).grow grown
  have sound := (course.sound fromRows bounded).forest_sound
  obtain ⟨origin, originFound⟩ := sound.exists_origin found
  have done : id ∉ final.frontier := by
    rw [empty]
    exact List.not_mem_nil
  obtain ⟨node, visit⟩ :=
    course.exists_visit fromRows bounded thorough found originFound done
  obtain ⟨before, ledger, earlier, member, beforeFound⟩ := visit.on_level
  have length : origin.columns.length = dataset.features.size :=
    (sound.slots id _ origin found originFound).origin_sound.columnsOf.length_eq
  refine ⟨before, ledger, node, origin.columns, earlier, member, beforeFound, visit.live,
    visit.statistics_eq, ?_⟩
  rw [visit.verdict.isSome_iff, Policy.admits_iff,
    Node.finds_iff visit.live length Binary64.sub_congr]
  constructor
  · rintro ⟨⟨above, heavy⟩, worth⟩
    exact ⟨above, heavy, worth⟩
  · rintro ⟨above, heavy, worth⟩
    exact ⟨⟨above, heavy⟩, worth⟩

/-- The root of the sample was eligible and is split; its left child was not and is not. -/
theorem Course.split_iff_eligible_sample :
    ∃ (dataset : Dataset Float) (started final : State Float Nat),
      Dataset.ofTable (Sample.values 0 1) Sample.labels none none none = .ok dataset ∧
      (Sample.policy : Policy Float).Thorough dataset.features.size ∧
      Growth.start Sample.policy.measure dataset 0 = .ok started ∧
      Growth.grow Sample.policy (.repeating []) dataset.features.size
        (leastDecrease Sample.policy dataset) 2 started = .ok final ∧
      (∃ before ledger node columns, Course Sample.policy (.repeating []) dataset 0 before ledger ∧
        before.forest.slots[0]? = some { node, children := none } ∧ node.columns = some columns ∧
        Sample.policy.Eligible (leastDecrease Sample.policy dataset) node columns) ∧
      ∃ before ledger node columns, Course Sample.policy (.repeating []) dataset 0 before ledger ∧
        before.forest.slots[1]? = some { node, children := none } ∧ node.columns = some columns ∧
        ¬ Sample.policy.Eligible (leastDecrease Sample.policy dataset) node columns := by
  have passed : Outcome.passes (do
      let dataset ← Dataset.ofTable (Sample.values (0 : Float) 1) Sample.labels none none none
      let started ← Growth.start Sample.policy.measure dataset 0
      let final ← Growth.grow Sample.policy (.repeating []) dataset.features.size
        (leastDecrease Sample.policy dataset) 2 started
      pure (dataset, final)) (fun (dataset, final) => dataset.features.size == 1 &&
        final.forest.slots.map Slot.children == [some (1, 2), none, none]) = true := by
    decide +kernel
  obtain ⟨⟨dataset, final⟩, computed, test⟩ := Outcome.exists_of_passes passed
  simp only [Bool.and_eq_true, beq_iff_eq] at test
  obtain ⟨other, accepted, computed⟩ := Outcome.bind_eq_ok.mp computed
  obtain ⟨started, start, computed⟩ := Outcome.bind_eq_ok.mp computed
  obtain ⟨ended, grown, pair⟩ := Outcome.bind_eq_ok.mp computed
  obtain ⟨rfl, rfl⟩ := Prod.mk.inj (Except.ok.inj pair)
  obtain ⟨features, children⟩ := test
  have thorough : (Sample.policy : Policy Float).Thorough other.features.size :=
    ⟨rfl, features.symm, Nat.zero_lt_one⟩
  have slotOf : ∀ (id : Nat) {pair : Option (Nat × Nat)},
      [some (1, 2), none, none][id]? = some pair →
        ∃ slot, ended.forest.slots[id]? = some slot ∧ slot.children = pair := by
    intro id pair isPair
    rw [← children, List.getElem?_map] at isPair
    exact Option.map_eq_some_iff.mp isPair
  obtain ⟨root, rootFound, rootChildren⟩ := slotOf 0 rfl
  obtain ⟨leaf, leafFound, leafChildren⟩ := slotOf 1 rfl
  obtain ⟨before, ledger, node, columns, course, -, nodeFound, live, -, eligible⟩ :=
    Course.split_iff_eligible accepted thorough Draws.bounded_zeros start grown rootFound
  obtain ⟨later, more, child, others, after, -, childFound, childLive, -, refused⟩ :=
    Course.split_iff_eligible accepted thorough Draws.bounded_zeros start grown leafFound
  refine ⟨other, started, ended, accepted, thorough, start, grown,
    ⟨before, ledger, node, columns, course, nodeFound, live, eligible.mp ?_⟩,
    later, more, child, others, after, childFound, childLive, fun isEligible => ?_⟩
  · rw [rootChildren]
    rfl
  · have divided := refused.mpr isEligible
    rw [leafChildren] at divided
    cases divided

end Floats

end DecisionTree.Growth
