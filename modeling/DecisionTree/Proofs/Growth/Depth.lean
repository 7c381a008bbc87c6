import DecisionTree.Dataset.Dense
import DecisionTree.Proofs.Binary64.Order
import DecisionTree.Proofs.Growth.Course

/-!
# Growth with a depth limit

Growth treats one depth after the other (`State.Layered`), and a depth limit decides only which
nodes may be divided.  Above a depth two limits do the same (`step_limited`), whatever is drawn;
from that depth on, a level leaves what is above it as it is (`Stepped.upTo?_eq`).  So the forest
grown with a limit is the forest grown with a larger one, cut off below the smaller limit
(`depth_limit_truncates`).
-/

namespace DecisionTree.Growth

variable {α σ : Type}

/-- The same rules with a depth limit. -/
def Policy.limited (policy : Policy α) (limit : Nat) : Policy α :=
  { policy with maxDepth := some limit }

/-- What is left of a slot when a forest is cut off: the nodes at the limit become leaves. -/
def Slot.cutOff (limit : Nat) (slot : Slot α) : Slot α :=
  if slot.node.depth < limit then slot else { node := slot.node.statistics, children := none }

/-- The slot of a node in a forest that is cut off below a depth. -/
def Forest.upTo? (forest : Forest α) (limit id : Nat) : Option (Slot α) :=
  (forest.slots[id]?.filter fun slot => slot.node.depth ≤ limit).map (Slot.cutOff limit)

/-- The nodes of the level are those at a depth, none of which is divided, and all other nodes are
above them. -/
structure State.Layered (depth : Nat) (state : State α σ) : Prop where
  depth_le : ∀ (id : Nat) (slot : Slot α), state.forest.slots[id]? = some slot →
    slot.node.depth ≤ depth
  frontier_iff : ∀ (id : Nat) (slot : Slot α), state.forest.slots[id]? = some slot →
    (id ∈ state.frontier ↔ slot.node.depth = depth)
  undivided : ∀ (id : Nat) (slot : Slot α), id ∈ state.frontier →
    state.forest.slots[id]? = some slot → slot.children = none ∧ slot.node.cut = none

@[simp] theorem Policy.measure_limited (policy : Policy α) (limit : Nat) :
    (policy.limited limit).measure = policy.measure :=
  rfl

namespace Forest

variable {forest : Forest α} {id limit : Nat} {slot : Slot α}

theorem upTo?_of_none (absent : forest.slots[id]? = none) : forest.upTo? limit id = none := by
  rw [upTo?, absent]
  rfl

/-- What is below the limit is cut off. -/
theorem upTo?_of_lt (found : forest.slots[id]? = some slot) (below : limit < slot.node.depth) :
    forest.upTo? limit id = none := by
  rw [upTo?, found, Option.filter_some, if_neg (by simpa using below)]
  rfl

theorem upTo?_of_le (found : forest.slots[id]? = some slot) (above : slot.node.depth ≤ limit) :
    forest.upTo? limit id = some (slot.cutOff limit) := by
  rw [upTo?, found, Option.filter_some, if_pos (by simpa using above)]
  rfl

end Forest

variable [Scalar α] {policy : Policy α} {draws : Draws σ} {ground : Ground α}
variable {origins : List (Origin α)} {dataset : Dataset α} {source : σ}
variable {state after final deeper : State α σ} {depth limit larger levels more width id : Nat}
variable {least : α}

/-! ## One depth after the other -/

/-- Growth starts at depth zero. -/
theorem start_layered (started : start policy.measure dataset source = .ok state) :
    state.Layered 0 := by
  obtain ⟨columns, counts, -, -, rfl⟩ := start_eq started
  have root : ∀ (id : Nat) (slot : Slot α),
      (Forest.ofRoot (Node.ofCounts policy.measure columns dataset.size 0 counts)).slots[id]? =
        some slot →
      id = 0 ∧ slot = { node := Node.ofCounts policy.measure columns dataset.size 0 counts,
                        children := none } := by
    intro id slot found
    cases id with
    | zero => exact ⟨rfl, (Option.some.inj found).symm⟩
    | succ id => cases found
  constructor
  · intro id slot found
    obtain ⟨-, rfl⟩ := root id slot found
    exact Nat.le_refl _
  · intro id slot found
    obtain ⟨rfl, rfl⟩ := root id slot found
    exact ⟨fun _ => rfl, fun _ => List.mem_singleton_self 0⟩
  · intro id slot _ found
    obtain ⟨-, rfl⟩ := root id slot found
    exact ⟨rfl, rfl⟩

namespace Stepped

/-- What became of a node when a level was grown: nothing, if it is above the level; if it is on the
level, its statistics are the same; and the new nodes are one level deeper. -/
theorem slot_cases (stepped : Stepped policy draws ground origins state after)
    (layered : state.Layered depth) {slot : Slot α} (found : after.forest.slots[id]? = some slot) :
    (slot.node.depth < depth ∧ id ∉ after.frontier ∧ state.forest.slots[id]? = some slot) ∨
    (slot.node.depth = depth ∧ id ∉ after.frontier ∧ ∃ before,
      state.forest.slots[id]? = some before ∧ slot.node.statistics = before.node.statistics ∧
        (policy.admits before.node = false →
          slot = { node := before.node.statistics, children := none })) ∨
    (slot.node.depth = depth + 1 ∧ id ∈ after.frontier ∧ state.forest.slots[id]? = none ∧
      slot.children = none ∧ slot.node.cut = none ∧ ∃ parent ∈ state.frontier, ∃ own,
        state.forest.slots[parent]? = some own ∧ policy.admits own.node = true) := by
  by_cases old : id < state.forest.size
  · have notNew : id ∉ after.frontier := fun member => by
      have := stepped.fresh id member
      omega
    obtain ⟨before, beforeFound⟩ : ∃ before, state.forest.slots[id]? = some before :=
      ⟨_, List.getElem?_eq_getElem old⟩
    by_cases member : id ∈ state.frontier
    · obtain ⟨changed, changedFound, statistics, refused⟩ :=
        stepped.kept id member before beforeFound
      obtain rfl := Option.some.inj (changedFound.symm.trans found)
      have depthEq := Node.depth_congr statistics
      rw [(layered.frontier_iff id before beforeFound).mp member] at depthEq
      refine .inr (.inl ⟨depthEq, notNew, before, beforeFound, statistics, fun admits => ?_⟩)
      obtain ⟨childless, uncut⟩ := layered.undivided id before member beforeFound
      rw [refused admits, childless, Node.release, Node.statistics, uncut]
    · rw [stepped.frame id old member] at found
      have atMost := layered.depth_le id slot found
      have differs := mt (layered.frontier_iff id slot found).mpr member
      exact .inl ⟨by omega, notNew, found⟩
  · obtain ⟨isNew, childless, uncut, parent, parentMember, own, ownFound, admits, depthEq⟩ :=
      stepped.born id slot (by omega) found
    rw [(layered.frontier_iff parent own ownFound).mp parentMember] at depthEq
    exact .inr (.inr ⟨depthEq, isNew, List.getElem?_eq_none (Nat.le_of_not_lt old), childless,
      uncut, parent, parentMember, own, ownFound, admits⟩)

/-- The next level is one level deeper. -/
theorem layered (stepped : Stepped policy draws ground origins state after)
    (layered : state.Layered depth) : after.Layered (depth + 1) := by
  constructor
  · intro id slot found
    rcases stepped.slot_cases layered found with ⟨above, -⟩ | ⟨same, -⟩ | ⟨below, -⟩
    · omega
    · omega
    · omega
  · intro id slot found
    rcases stepped.slot_cases layered found with ⟨above, outside, -⟩ | ⟨same, outside, -⟩ |
      ⟨below, inside, -⟩
    · exact ⟨fun member => absurd member outside, fun depthEq => by omega⟩
    · exact ⟨fun member => absurd member outside, fun depthEq => by omega⟩
    · exact ⟨fun _ => below, fun _ => inside⟩
  · intro id slot member found
    rcases stepped.slot_cases layered found with ⟨-, outside, -⟩ | ⟨-, outside, -⟩ |
      ⟨-, -, -, childless, uncut, -⟩
    · exact absurd member outside
    · exact absurd member outside
    · exact ⟨childless, uncut⟩

/-- No node is lost. -/
theorem getElem?_eq_none (stepped : Stepped policy draws ground origins state after)
    (absent : after.forest.slots[id]? = none) : state.forest.slots[id]? = none := by
  by_contra present
  obtain ⟨slot, found⟩ := Option.ne_none_iff_exists'.mp present
  by_cases member : id ∈ state.frontier
  · obtain ⟨changed, changedFound, -⟩ := stepped.kept id member slot found
    rw [absent] at changedFound
    cases changedFound
  · rw [stepped.frame id (Forest.lt_size found) member, found] at absent
    cases absent

/-- A level leaves the forest as it is up to its depth. -/
theorem upTo?_eq (stepped : Stepped policy draws ground origins state after)
    (layered : state.Layered depth) (reached : limit ≤ depth) (id : Nat) :
    after.forest.upTo? limit id = state.forest.upTo? limit id := by
  cases found : after.forest.slots[id]? with
  | none =>
      have absent := stepped.getElem?_eq_none found
      rw [Forest.upTo?_of_none found, Forest.upTo?_of_none absent]
  | some slot =>
      rcases stepped.slot_cases layered found with ⟨-, -, before⟩ |
        ⟨depthEq, -, before, beforeFound, statistics, -⟩ | ⟨below, -, absent, -⟩
      · rw [Forest.upTo?, Forest.upTo?, found, before]
      · have same := Node.depth_congr statistics
        rcases Nat.lt_or_eq_of_le reached with less | rfl
        · rw [Forest.upTo?_of_lt found (by omega), Forest.upTo?_of_lt beforeFound (by omega)]
        · rw [Forest.upTo?_of_le found (by omega), Forest.upTo?_of_le beforeFound (by omega),
            Slot.cutOff, Slot.cutOff, if_neg (by omega), if_neg (by omega), statistics]
      · rw [Forest.upTo?_of_lt found (by omega), Forest.upTo?_of_none absent]

end Stepped

/-! ## The limit is reached -/

theorem Policy.not_admits_limited {node : Node α} (reached : limit ≤ node.depth) :
    (policy.limited limit).admits node = false := by
  have notBelow : ¬ node.depth < limit := Nat.not_lt.mpr reached
  simp [admits, limited, notBelow]

/-- No node at the limit or below it is divided. -/
theorem Stepped.frontier_eq_nil_of_limited (stepped : Stepped (policy.limited limit) draws ground
    origins state after) (layered : state.Layered depth) (reached : limit ≤ depth) :
    after.frontier = [] := by
  apply List.eq_nil_iff_forall_not_mem.mpr
  intro id member
  obtain ⟨node, columns, found, -⟩ := stepped.sound.live id member
  rcases stepped.slot_cases layered found with ⟨-, outside, -⟩ | ⟨-, outside, -⟩ |
    ⟨-, -, -, -, -, parent, parentMember, own, ownFound, admits⟩
  · exact outside member
  · exact outside member
  · have isDeep := (layered.frontier_iff parent own ownFound).mp parentMember
    rw [Policy.not_admits_limited (by omega)] at admits
    cases admits

/-- After the level at the limit, nothing is left to be cut off. -/
theorem Stepped.upTo?_eq_self (stepped : Stepped (policy.limited limit) draws ground origins state
    after) (layered : state.Layered limit) (id : Nat) :
    after.forest.upTo? limit id = after.forest.slots[id]? := by
  cases found : after.forest.slots[id]? with
  | none => exact Forest.upTo?_of_none found
  | some slot =>
      rcases stepped.slot_cases layered found with ⟨above, -⟩ |
        ⟨depthEq, -, before, beforeFound, statistics, refused⟩ | ⟨-, inside, -⟩
      · rw [Forest.upTo?_of_le found (by omega), Slot.cutOff, if_pos above]
      · have same := Node.depth_congr statistics
        rw [Forest.upTo?_of_le found (by omega), Slot.cutOff, if_neg (by omega),
          refused (Policy.not_admits_limited (by omega))]
        rfl
      · rw [stepped.frontier_eq_nil_of_limited layered (Nat.le_refl _)] at inside
        cases inside

omit [Scalar α] in
/-- Where growth has ended at the limit or above it, nothing is left to be cut off. -/
theorem State.Layered.upTo?_eq_self (layered : state.Layered depth) (empty : state.frontier = [])
    (above : depth ≤ limit) (id : Nat) : state.forest.upTo? limit id = state.forest.slots[id]? := by
  cases found : state.forest.slots[id]? with
  | none => exact Forest.upTo?_of_none found
  | some slot =>
      have atMost := layered.depth_le id slot found
      have differs : slot.node.depth ≠ depth := by
        intro same
        have member := (layered.frontier_iff id slot found).mpr same
        rw [empty] at member
        cases member
      rw [Forest.upTo?_of_le found (by omega), Slot.cutOff, if_pos (by omega)]

/-! ## Two limits -/

/-- Two limits admit the same nodes above them. -/
theorem Policy.admits_limited {node : Node α} (below : node.depth < limit)
    (belowLarger : node.depth < larger) :
    (policy.limited limit).admits node = (policy.limited larger).admits node := by
  simp [admits, limited, below, belowLarger]

/-- A level above two limits is grown alike. -/
theorem step_limited (layered : state.Layered depth) (below : depth < limit)
    (belowLarger : depth < larger) :
    step (policy.limited limit) draws width least state =
      step (policy.limited larger) draws width least state := by
  have planned : (policy.limited limit).plan draws width state.frontier state.forest state.source =
      (policy.limited larger).plan draws width state.frontier state.forest state.source := by
    refine (policy.limited limit).plan_congr (policy.limited larger) rfl
      (fun id slot member found => ?_) state.source
    have atDepth := (layered.frontier_iff id slot found).mp member
    exact Policy.admits_limited (by omega) (by omega)
  have worked : ∀ tasks : List (Task α σ), (policy.limited limit).workOn draws least tasks =
      (policy.limited larger).workOn draws least tasks :=
    (policy.limited limit).workOn_congr (policy.limited larger) rfl rfl rfl
  simp only [step, planned, worked]

/-! ## Whole runs -/

section Runs

variable [Scalar.Ordered α] (bounded : draws.Bounded)
variable (known : ground.targets.Known ground.count) (measure : policy.measure = ground.measure)

include bounded known measure

/-- Growth from some depth on leaves the forest as it is up to that depth. -/
theorem grow_upTo? (sound : state.Sound ground origins) (layered : state.Layered depth)
    (reached : limit ≤ depth)
    (grown : grow policy draws ground.width ground.least levels state = .ok final) (id : Nat) :
    final.forest.upTo? limit id = state.forest.upTo? limit id := by
  induction levels generalizing state origins depth with
  | zero =>
      rw [grow] at grown
      split at grown
      next => rw [Except.ok.inj grown]
      next => cases grown
  | succ levels ih =>
      rw [grow] at grown
      split at grown
      next => rw [Except.ok.inj grown]
      next =>
        obtain ⟨after, stepEq, grown⟩ := Outcome.bind_eq_ok.mp grown
        obtain ⟨other, otherEq, stepped⟩ := step_spec bounded known measure sound
        obtain rfl := Except.ok.inj (otherEq.symm.trans stepEq)
        rw [ih stepped.sound (stepped.layered layered) (by omega) grown,
          stepped.upTo?_eq layered reached]

/-- Growth with a depth limit ends, and nothing is left to be cut off. -/
theorem exists_grow_limited (sound : state.Sound ground origins) (layered : state.Layered depth)
    (above : depth ≤ limit) (enough : limit < depth + levels) :
    ∃ final, grow (policy.limited limit) draws ground.width ground.least levels state = .ok final ∧
      ∀ id, final.forest.upTo? limit id = final.forest.slots[id]? := by
  induction levels generalizing state origins depth with
  | zero => omega
  | succ levels ih =>
      rw [grow]
      split
      next empty => exact ⟨state, rfl, layered.upTo?_eq_self (List.isEmpty_iff.mp empty) above⟩
      next =>
        obtain ⟨after, stepEq, stepped⟩ :=
          step_spec bounded known ((policy.measure_limited limit).trans measure) sound
        rcases Nat.lt_or_eq_of_le above with less | rfl
        · obtain ⟨final, grown, whole⟩ := ih stepped.sound (stepped.layered layered) less (by omega)
          exact ⟨final, Outcome.bind_eq_ok.mpr ⟨after, stepEq, grown⟩, whole⟩
        · have empty := stepped.frontier_eq_nil_of_limited layered (Nat.le_refl _)
          refine ⟨after, Outcome.bind_eq_ok.mpr ⟨after, stepEq, ?_⟩, stepped.upTo?_eq_self layered⟩
          exact grow_of_empty empty

/-- Two limits give the same forest up to the smaller one. -/
theorem grow_limited_upTo? (sound : state.Sound ground origins) (layered : state.Layered depth)
    (above : depth ≤ limit) (atMost : limit ≤ larger)
    (grown : grow (policy.limited limit) draws ground.width ground.least levels state = .ok final)
    (grownDeeper : grow (policy.limited larger) draws ground.width ground.least more state =
      .ok deeper) (id : Nat) : final.forest.upTo? limit id = deeper.forest.upTo? limit id := by
  -- the induction is on the number of levels that are left above the limit
  induction left : limit - depth generalizing state origins depth levels more with
  | zero =>
      have reached : limit ≤ depth := by omega
      have same := fun bound => (policy.measure_limited bound).trans measure
      rw [grow_upTo? bounded known (same limit) sound layered reached grown,
        grow_upTo? bounded known (same larger) sound layered reached grownDeeper]
  | succ left ih =>
      by_cases empty : state.frontier = []
      · rw [grow_of_empty empty] at grown grownDeeper
        rw [← Except.ok.inj grown, ← Except.ok.inj grownDeeper]
      obtain ⟨rest, after, stepEq, grown⟩ := exists_step_of_grow grown empty
      obtain ⟨others, same, sameEq, grownDeeper⟩ := exists_step_of_grow grownDeeper empty
      rw [← step_limited layered (show depth < limit by omega) (by omega), stepEq] at sameEq
      obtain rfl := Except.ok.inj sameEq
      obtain ⟨_, otherEq, stepped⟩ :=
        step_spec bounded known ((policy.measure_limited limit).trans measure) sound
      obtain rfl := Except.ok.inj (otherEq.symm.trans stepEq)
      exact ih stepped.sound (stepped.layered layered) (by omega) grown grownDeeper (by omega)

end Runs

/-- Growth with two limits ends, and the forest grown with the smaller one is the other one, cut
off. -/
theorem exists_finish_limited [Scalar.Ordered α] {rows : List (List α)}
    (fromRows : dataset.FromRows rows) (bounded : draws.Bounded)
    (started : start policy.measure dataset source = .ok state) (atMost : limit ≤ larger) :
    ∃ final deeper, finish (policy.limited limit) draws dataset state = .ok final ∧
      finish (policy.limited larger) draws dataset state = .ok deeper ∧
      ∀ id : Nat, final.forest.slots[id]? = deeper.forest.upTo? limit id := by
  have known : (groundOf policy dataset rows).targets.Known dataset.size := fromRows.known
  have sound := start_sound fromRows started
  have layered := start_layered started
  have ends : ∀ bound, ∃ final,
      finish (policy.limited bound) draws dataset state = .ok final ∧
        ∀ id, final.forest.upTo? bound id = final.forest.slots[id]? := fun bound =>
    exists_grow_limited bounded known rfl sound layered (Nat.zero_le _)
      (by simp only [levelBound, Policy.limited, Option.getD_some]; omega)
  obtain ⟨final, finished, whole⟩ := ends limit
  obtain ⟨deeper, finishedDeeper, -⟩ := ends larger
  refine ⟨final, deeper, finished, finishedDeeper, fun id => ?_⟩
  rw [← whole id]
  exact grow_limited_upTo? bounded known rfl sound layered (Nat.zero_le _) atMost finished
    finishedDeeper id

/-- Whatever the other rules and whatever is drawn, the forest grown over an accepted table with a
depth limit is the forest grown with a larger limit, cut off below the smaller one: it has the same
nodes up to the limit under the same ids, above the limit with the same cuts and children, at the
limit with the same statistics as leaves. -/
theorem depth_limit_truncates {values : Nested Float} {labels : Nested Label}
    {weights : Option (Nested Float)} {names : Option Setting} {table : Option LabelTable}
    {dataset : Dataset Float}
    (accepted : Dataset.ofTable values labels weights names table = .ok dataset)
    (policy : Policy Float) {draws : Draws σ} (bounded : draws.Bounded) (source : σ)
    {limit larger : Nat} (atMost : limit ≤ larger) :
    (dataset.features.size ≤ 2 ^ 63 →
      ∃ state : State Float σ, start policy.measure dataset source = .ok state) ∧
    ∀ state, start policy.measure dataset source = .ok state →
      ∃ final deeper, finish (policy.limited limit) draws dataset state = .ok final ∧
        finish (policy.limited larger) draws dataset state = .ok deeper ∧
        ∀ id : Nat, final.forest.slots[id]? = deeper.forest.upTo? limit id := by
  obtain ⟨width, rows, -, fromRows⟩ := Dataset.fromRows_of_ofTable accepted
  exact ⟨fun narrow => exists_start fromRows narrow _ _, fun state started =>
    exists_finish_limited fromRows bounded started atMost⟩

/-- The sample grows one level with the limit one; with the limit zero it is left with the root,
which is then a leaf. -/
theorem depth_limit_truncates_sample :
    ∃ (dataset : Dataset Float) (state final deeper : State Float Nat),
      Dataset.ofTable (Sample.values 0 1) Sample.labels none none none = .ok dataset ∧
      start Sample.policy.measure dataset 0 = .ok state ∧
      finish (Sample.policy.limited 0) (.repeating []) dataset state = .ok final ∧
      finish (Sample.policy.limited 1) (.repeating []) dataset state = .ok deeper ∧
      final.forest.size = 1 ∧ deeper.forest.size = 3 ∧
      ∀ id : Nat, final.forest.slots[id]? = deeper.forest.upTo? 0 id := by
  have passed : Outcome.passes (do
      let dataset ← Dataset.ofTable (Sample.values (0 : Float) 1) Sample.labels none none none
      let state ← start Sample.policy.measure dataset 0
      let final ← finish (Sample.policy.limited 0) (.repeating []) dataset state
      let deeper ← finish (Sample.policy.limited 1) (.repeating []) dataset state
      pure (final, deeper)) (fun (final, deeper) =>
        final.forest.size == 1 && deeper.forest.size == 3) = true := by
    decide +kernel
  obtain ⟨⟨final, deeper⟩, computed, test⟩ := Outcome.exists_of_passes passed
  simp only [Bool.and_eq_true, beq_iff_eq] at test
  obtain ⟨dataset, accepted, computed⟩ := Outcome.bind_eq_ok.mp computed
  obtain ⟨state, started, computed⟩ := Outcome.bind_eq_ok.mp computed
  obtain ⟨shallow, finished, computed⟩ := Outcome.bind_eq_ok.mp computed
  obtain ⟨deep, finishedDeeper, pair⟩ := Outcome.bind_eq_ok.mp computed
  obtain ⟨rfl, rfl⟩ := Prod.mk.inj (Except.ok.inj pair)
  obtain ⟨-, truncates⟩ := depth_limit_truncates accepted Sample.policy Draws.bounded_zeros 0
    (Nat.zero_le 1)
  obtain ⟨other, otherDeep, otherEq, otherDeepEq, same⟩ := truncates state started
  obtain rfl := Except.ok.inj (finished.symm.trans otherEq)
  obtain rfl := Except.ok.inj (finishedDeeper.symm.trans otherDeepEq)
  exact ⟨dataset, state, shallow, deep, accepted, started, finished, finishedDeeper, test.1, test.2,
    same⟩

end DecisionTree.Growth
