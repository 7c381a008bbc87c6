import DecisionTree.Proofs.Growth.Kinds
import DecisionTree.Proofs.Growth.Depth

/-!
# Growth in lockstep

Over two datasets whose examples balance, growth with the same rules and the same random numbers
runs in lockstep (`Lockstep.grow`): the nodes get the same ids and have the same children, they are
divided at cuts that are parallel, and the examples of every node balance (`Lockstep.balanced`), so
that its histogram, its impurity and its depth are the same in both runs (`Lockstep.level_matches`).
-/

namespace DecisionTree.Growth

open Dataset (Kinds)

variable {K : Type} [Field K] [LinearOrder K] {κ σ : Type}
variable {dataset other : Dataset K} {rows others : List (List K)}

/-- Two runs over datasets with the same kinds of examples, level by level. -/
structure Lockstep (policy : Policy K) (draws : Draws σ) (dataset other : Dataset K) (source : σ)
    (state twin : State K σ) (origins ledger : List (Origin K)) : Prop where
  course : Course policy draws dataset source state origins
  twinCourse : Course policy draws other source twin ledger
  tandem : Tandem state twin origins ledger
  layered : ∃ depth, state.Layered depth ∧ twin.Layered depth

variable {kinds : dataset.Kinds κ other rows others} {policy : Policy K} {draws : Draws σ}
variable {source : σ} {state twin after : State K σ} {origins ledger : List (Origin K)}

/-- Nodes whose examples balance have columns that run in parallel. -/
theorem columns_parallel {origin entry : Origin K} (balanced : kinds.Balanced origin.ids entry.ids)
    (originSound : origin.Sound (groundOf policy dataset rows))
    (entrySound : entry.Sound (groundOf policy other others)) :
    List.Forall₂ Column.Parallel origin.columns entry.columns := by
  have width : dataset.features.size = other.features.size :=
    congrArg FeatureNames.size kinds.features_eq.symm
  rw [List.forall₂_iff_get]
  refine ⟨?_, fun feature inside twinInside => ?_⟩
  · rw [originSound.columnsOf.length_eq, entrySound.columnsOf.length_eq]
    exact width
  · have describes := originSound.columnsOf.describes feature _ (List.getElem?_eq_getElem inside)
    have twinDescribes := entrySound.columnsOf.describes feature _
      (List.getElem?_eq_getElem twinInside)
    rw [originSound.columnsOf.length_eq] at inside
    exact balanced.column_parallel inside describes twinDescribes
      (fun index member => Dataset.mem_indices.mpr (entrySound.inRange index member))
      originSound.nodup entrySound.nodup

/-- Cuts that are parallel lie half way between two consecutive values of a feature, and half way
between the values they are moved to. -/
theorem Cut.Parallel.exists_consecutive {origin entry : Origin K} {cut twinCut : Cut K}
    (parallel : cut.Parallel origin.columns entry.columns twinCut)
    (balanced : kinds.Balanced origin.ids entry.ids)
    (originSound : origin.Sound (groundOf policy dataset rows))
    (entrySound : entry.Sound (groundOf policy other others)) :
    ∃ (feature : Nat) (lower upper : K), feature < dataset.features.size ∧
      Consecutive (Dataset.cell rows feature) origin.ids lower upper ∧
      Consecutive (Dataset.cell others feature) entry.ids (kinds.move feature lower)
        (kinds.move feature upper) ∧
      cut = { feature, threshold := (lower + upper) / 2 } ∧
      twinCut = {
        feature, threshold := (kinds.move feature lower + kinds.move feature upper) / 2 } := by
  obtain ⟨cutFeature, threshold⟩ := cut
  obtain ⟨_, twinThreshold⟩ := twinCut
  obtain ⟨rfl, place, ⟨column, lower, upper, between⟩, twinColumn, below, above, twinBetween⟩ :=
    parallel
  obtain ⟨feature, rfl⟩ := Int.eq_ofNat_of_zero_le between.nonneg
  have describes := originSound.columnsOf.describes feature column between.column_eq
  have twinDescribes := entrySound.columnsOf.describes feature twinColumn twinBetween.column_eq
  have isFeature : feature < dataset.features.size := originSound.feature_lt between
  have known : ∀ index ∈ entry.ids, index ∈ other.indices :=
    fun index isId => Dataset.mem_indices.mpr (entrySound.inRange index isId)
  have lowerValue := balanced.value_eq isFeature describes twinDescribes known between.lower_eq
    twinBetween.lower_eq
  have upperValue := balanced.value_eq isFeature describes twinDescribes known between.upper_eq
    twinBetween.upper_eq
  have consecutive := describes.consecutive between.lower_eq between.upper_eq
  have twinConsecutive := twinDescribes.consecutive twinBetween.lower_eq twinBetween.upper_eq
  simp only [groundOf, Dataset.clearZero_eq] at consecutive twinConsecutive
  rw [lowerValue, upperValue] at twinConsecutive
  obtain rfl := between.threshold_eq
  obtain rfl := twinBetween.threshold_eq
  exact ⟨feature, lower.value, upper.value, isFeature, consecutive, twinConsecutive, rfl,
    by rw [lowerValue, upperValue]; rfl⟩

variable [IsStrictOrderedRing K]

/-- At a cut between two consecutive values the examples with at most the lower one go to the
left. -/
theorem goesLeft_between {feature : Nat} {ids : List Int} {lower upper : K}
    (consecutive : Consecutive (Dataset.cell rows feature) ids lower upper) {index : Int}
    (isId : index ∈ ids) :
    (groundOf policy dataset rows).goesLeft { feature, threshold := (lower + upper) / 2 } index =
      decide (Dataset.cell rows feature index ≤ lower) := by
  have separates := Exact.separates_midpoint (Exact.lt_iff.mpr consecutive.less)
  rw [← consecutive.goesLeft_eq separates isId, Ground.goesLeft]
  simp only [goesLeft, groundOf, Dataset.clearZero_eq]
  rfl

/-- Cuts that are parallel leave balanced examples on both sides. -/
theorem Cut.Parallel.balanced {origin entry : Origin K} {cut twinCut : Cut K}
    (parallel : cut.Parallel origin.columns entry.columns twinCut)
    (balanced : kinds.Balanced origin.ids entry.ids)
    (originSound : origin.Sound (groundOf policy dataset rows))
    (entrySound : entry.Sound (groundOf policy other others)) :
    kinds.Balanced (origin.ids.filter ((groundOf policy dataset rows).goesLeft cut))
        (entry.ids.filter ((groundOf policy other others).goesLeft twinCut)) ∧
      kinds.Balanced
        (origin.ids.filter fun index => !(groundOf policy dataset rows).goesLeft cut index)
        (entry.ids.filter fun index => !(groundOf policy other others).goesLeft twinCut index) := by
  obtain ⟨feature, lower, upper, isFeature, consecutive, twinConsecutive, rfl, rfl⟩ :=
    parallel.exists_consecutive balanced originSound entrySound
  have goes : ∀ index ∈ origin.ids, (groundOf policy dataset rows).goesLeft
      { feature, threshold := (lower + upper) / 2 } index =
        decide (kinds.value feature (kinds.kind index) ≤ lower) := by
    intro index isId
    rw [goesLeft_between consecutive isId, kinds.value_eq]
  have twinGoes : ∀ index ∈ entry.ids, (groundOf policy other others).goesLeft
      { feature, threshold := (kinds.move feature lower + kinds.move feature upper) / 2 } index =
        decide (kinds.value feature (kinds.twin index) ≤ lower) := by
    intro index isId
    have known := Dataset.mem_indices.mpr (entrySound.inRange index isId)
    rw [goesLeft_between twinConsecutive isId, kinds.twinValue_eq feature isFeature index known]
    simp only [(kinds.increasing feature isFeature).le_iff_le]
  constructor
  · rw [List.filter_congr goes, List.filter_congr twinGoes]
    exact balanced.filter fun k => decide (kinds.value feature k ≤ lower)
  · rw [List.filter_congr fun index isId => congrArg not (goes index isId),
      List.filter_congr fun index isId => congrArg not (twinGoes index isId)]
    exact balanced.filter fun k => !decide (kinds.value feature k ≤ lower)

namespace Lockstep

omit [IsStrictOrderedRing K] in
/-- Two runs start in lockstep. -/
theorem start (started : Growth.start policy.measure dataset source = .ok state)
    (twinStarted : Growth.start policy.measure other source = .ok twin) :
    Lockstep policy draws dataset other source state twin
      (state.forest.slots.map fun slot =>
        { columns := slot.node.columns.getD [], ids := dataset.indices })
      (twin.forest.slots.map fun slot =>
        { columns := slot.node.columns.getD [], ids := other.indices }) := by
  refine ⟨.start started, .start twinStarted, ?_, 0, start_layered started,
    start_layered twinStarted⟩
  obtain ⟨_, _, -, -, rfl⟩ := start_eq started
  obtain ⟨_, _, -, -, rfl⟩ := start_eq twinStarted
  refine ⟨rfl, rfl, rfl, ?_⟩
  intro id left right node twinNode origin entry found
  cases id with
  | zero => cases found
  | succ id => cases found

variable (fromRows : dataset.FromRows rows) (otherFromRows : other.FromRows others)
variable (bounded : draws.Bounded) (root : kinds.Balanced dataset.indices other.indices)
variable (lockstep : Lockstep policy draws dataset other source state twin origins ledger)

include fromRows otherFromRows bounded root lockstep

omit [IsStrictOrderedRing K] fromRows root in
/-- A node has the same children in the other run. -/
theorem exists_twin {id : Nat} {slot : Slot K} (found : state.forest.slots[id]? = some slot) :
    ∃ twinSlot entry, twin.forest.slots[id]? = some twinSlot ∧ ledger[id]? = some entry ∧
      twinSlot.children = slot.children := by
  have shape := congrArg (fun list => list[id]?) lockstep.tandem.shape_eq
  simp only [Forest.shape_getElem?, found, Option.map_some] at shape
  obtain ⟨twinSlot, twinFound, children⟩ := Option.map_eq_some_iff.mp shape
  obtain ⟨entry, entryFound⟩ :=
    (lockstep.twinCourse.sound otherFromRows bounded).forest_sound.exists_origin twinFound
  exact ⟨twinSlot, entry, twinFound, entryFound, children⟩

/-- The examples of every node balance. -/
theorem balanced {id : Nat} {origin entry : Origin K} (originFound : origins[id]? = some origin)
    (entryFound : ledger[id]? = some entry) : kinds.Balanced origin.ids entry.ids := by
  have sound := (lockstep.course.sound fromRows bounded).forest_sound
  have twinSound := (lockstep.twinCourse.sound otherFromRows bounded).forest_sound
  -- a node other than the root gets its examples from its parent, which has a smaller id
  induction id using Nat.strong_induction_on generalizing origin entry with
  | h id ih =>
      by_cases isRoot : id = 0
      · subst isRoot
        obtain ⟨first, firstFound, ids⟩ := lockstep.course.root_origin
        obtain ⟨second, secondFound, twinIds⟩ := lockstep.twinCourse.root_origin
        obtain rfl := Option.some.inj (originFound.symm.trans firstFound)
        obtain rfl := Option.some.inj (entryFound.symm.trans secondFound)
        rw [ids, twinIds]
        exact root
      obtain ⟨parent, node, left, right, own, found, ownFound, isChild⟩ :=
        sound.exists_parent originFound isRoot
      obtain ⟨⟨twinNode, _⟩, twinOwn, twinFound, twinOwnFound, rfl⟩ :=
        lockstep.exists_twin otherFromRows bounded found
      obtain ⟨ownSound, cut, column, place, lower, upper, branching⟩ :=
        sound.exists_branching found ownFound
      obtain ⟨twinOwnSound, twinCut, twinColumn, twinPlace, below, above, twinBranching⟩ :=
        twinSound.exists_branching twinFound twinOwnFound
      obtain ⟨_, _, cutEq, twinCutEq, parallel⟩ := lockstep.tandem.cuts parent left right node
        twinNode own twinOwn found twinFound ownFound twinOwnFound
      obtain rfl := Option.some.inj (branching.cut_eq.symm.trans cutEq)
      obtain rfl := Option.some.inj (twinBranching.cut_eq.symm.trans twinCutEq)
      have later := branching.left_gt
      have next := branching.right_eq
      obtain ⟨lefts, rights⟩ := parallel.balanced (ih parent (by omega) ownFound twinOwnFound)
        ownSound twinOwnSound
      rcases isChild with rfl | rfl
      · obtain ⟨child, childFound, -, perm⟩ := branching.left_origin
        obtain ⟨twinChild, twinChildFound, -, twinPerm⟩ := twinBranching.left_origin
        obtain rfl := Option.some.inj (originFound.symm.trans childFound)
        obtain rfl := Option.some.inj (entryFound.symm.trans twinChildFound)
        exact lefts.congr perm twinPerm
      · obtain ⟨child, childFound, -, perm⟩ := branching.right_origin
        obtain ⟨twinChild, twinChildFound, -, twinPerm⟩ := twinBranching.right_origin
        obtain rfl := Option.some.inj (originFound.symm.trans childFound)
        obtain rfl := Option.some.inj (entryFound.symm.trans twinChildFound)
        exact rights.congr perm twinPerm

/-- The histogram and the impurity of a node are the same in both runs. -/
theorem statistics_eq {id : Nat} {slot twinSlot : Slot K}
    (found : state.forest.slots[id]? = some slot)
    (twinFound : twin.forest.slots[id]? = some twinSlot) :
    twinSlot.node.counts = slot.node.counts ∧ twinSlot.node.impurity = slot.node.impurity := by
  obtain ⟨origin, originFound⟩ :=
    (lockstep.course.sound fromRows bounded).forest_sound.exists_origin found
  obtain ⟨entry, entryFound⟩ :=
    (lockstep.twinCourse.sound otherFromRows bounded).forest_sound.exists_origin twinFound
  have balanced :=
    lockstep.balanced fromRows otherFromRows bounded root originFound entryFound
  rw [lockstep.course.counts_tally fromRows bounded found originFound,
    lockstep.twinCourse.counts_tally otherFromRows bounded twinFound entryFound,
    lockstep.course.impurity_eq fromRows bounded found originFound,
    lockstep.twinCourse.impurity_eq otherFromRows bounded twinFound entryFound, balanced.tally_eq]
  exact ⟨rfl, rfl⟩

/-- The nodes of a level look the same in both runs. -/
theorem level_matches : state.Matches twin origins ledger := by
  intro id slot twinSlot origin entry member found twinFound originFound entryFound
  obtain ⟨depth, layered, twinLayered⟩ := lockstep.layered
  have atDepth := (layered.frontier_iff id slot found).mp member
  have twinAtDepth := (twinLayered.frontier_iff id twinSlot twinFound).mp
    (lockstep.tandem.frontier_eq ▸ member)
  have balanced :=
    lockstep.balanced fromRows otherFromRows bounded root originFound entryFound
  obtain ⟨counts, impurity⟩ :=
    lockstep.statistics_eq fromRows otherFromRows bounded root found twinFound
  have slotSound := (lockstep.course.sound fromRows bounded).forest_sound.slots id slot origin found
    originFound
  have twinSound := (lockstep.twinCourse.sound otherFromRows bounded).forest_sound.slots id twinSlot
    entry twinFound entryFound
  exact ⟨twinAtDepth.trans atDepth.symm, counts, impurity,
    columns_parallel balanced slotSound.origin_sound twinSound.origin_sound⟩

/-- After a level, the two runs are in lockstep again. -/
theorem step
    (grown : Growth.step policy draws dataset.features.size (leastDecrease policy dataset) state =
      .ok after) (workers : 0 < policy.workers) :
    ∃ result, Growth.step policy draws other.features.size (leastDecrease policy other) twin =
        .ok result ∧
      Lockstep policy draws dataset other source after result (after.forest.ledger origins)
        (result.forest.ledger ledger) := by
  have sound := lockstep.course.sound fromRows bounded
  have twinSound := lockstep.twinCourse.sound otherFromRows bounded
  have width : other.features.size = dataset.features.size :=
    congrArg FeatureNames.size kinds.features_eq
  have least : leastDecrease policy other = leastDecrease policy dataset := by
    have whole := root.weighs fun _ => true
    simp only [List.filter_true] at whole
    rw [leastDecrease, leastDecrease, other.weightSum_eq, dataset.weightSum_eq, whole]
  obtain ⟨next, tasks, planned, nextEq, parts⟩ := step_parts bounded fromRows.known rfl sound
  obtain rfl : next = after := Except.ok.inj (nextEq.symm.trans grown)
  obtain ⟨result, twins, twinPlanned, resultEq, twinParts⟩ :=
    step_parts bounded otherFromRows.known rfl twinSound
  obtain ⟨depth, layered, twinLayered⟩ := lockstep.layered
  have matching := lockstep.level_matches fromRows otherFromRows bounded root
  exact ⟨result, resultEq, lockstep.course.level grown, lockstep.twinCourse.level resultEq,
    lockstep.tandem.step bounded workers width least fromRows.known otherFromRows.known sound
      twinSound matching parts twinParts,
    depth + 1, (parts.stepped sound).layered layered,
    (twinParts.stepped twinSound).layered twinLayered⟩

/-- Two runs that start in lockstep end in lockstep. -/
theorem grow {levels more : Nat} {final twinFinal : State K σ} (workers : 0 < policy.workers)
    (grown : Growth.grow policy draws dataset.features.size (leastDecrease policy dataset) levels
      state = .ok final)
    (twinGrown : Growth.grow policy draws other.features.size (leastDecrease policy other) more
      twin = .ok twinFinal) :
    ∃ ends twinEnds, Lockstep policy draws dataset other source final twinFinal ends twinEnds := by
  induction levels generalizing state twin origins ledger more with
  | zero =>
      rw [Growth.grow] at grown
      split at grown
      next empty =>
        obtain rfl := Except.ok.inj grown
        have twinEmpty : twin.frontier = [] :=
          lockstep.tandem.frontier_eq.trans (List.isEmpty_iff.mp empty)
        rw [grow_of_empty twinEmpty] at twinGrown
        obtain rfl := Except.ok.inj twinGrown
        exact ⟨_, _, lockstep⟩
      next => cases grown
  | succ levels ih =>
      by_cases empty : state.frontier = []
      · rw [grow_of_empty empty] at grown
        rw [grow_of_empty (lockstep.tandem.frontier_eq.trans empty)] at twinGrown
        obtain rfl := Except.ok.inj grown
        obtain rfl := Except.ok.inj twinGrown
        exact ⟨_, _, lockstep⟩
      · rw [Growth.grow, if_neg (mt List.isEmpty_iff.mp empty)] at grown
        obtain ⟨after, stepped, grown⟩ := Outcome.bind_eq_ok.mp grown
        obtain ⟨left, twinAfter, twinStepped, twinGrown⟩ := exists_step_of_grow twinGrown
          fun twinEmpty => empty (lockstep.tandem.frontier_eq.symm.trans twinEmpty)
        obtain ⟨result, resultEq, next⟩ :=
          lockstep.step fromRows otherFromRows bounded root stepped workers
        obtain rfl := Except.ok.inj (resultEq.symm.trans twinStepped)
        exact ih next grown twinGrown

end Lockstep

end DecisionTree.Growth
