import DecisionTree.Dataset.Dense
import DecisionTree.Proofs.Growth.Accounting
import DecisionTree.Proofs.Growth.Decision
import DecisionTree.Proofs.Growth.Purity

/-!
# Stricter rules prune

What becomes of a node depends on its columns, its statistics and the rules only, and rules that ask
for more weight or for a larger decrease split fewer nodes but none of them elsewhere.  So the tree
that is grown with stricter rules is the tree that is grown with the others, with some parts of it
replaced by leaves (`stricter_rules_prune`), although the two forests number their nodes
differently.
-/

namespace DecisionTree

namespace Tree

variable {α : Type}

/-- A tree is obtained from another one by replacing some of its parts by leaves of the same
impurity. -/
inductive Prunes : Tree α → Tree α → Prop
  | kept (reached : Leaf α) : Prunes (.leaf reached) (.leaf reached)
  | replaced (reached : Leaf α) (feature : Int) (threshold : α) (left right : Tree α) :
      Prunes (.leaf reached) (.split feature threshold reached.impurity left right)
  | split (feature : Int) (threshold impurity : α) {left right below above : Tree α}
      (leftPrunes : Prunes left below) (rightPrunes : Prunes right above) :
      Prunes (.split feature threshold impurity left right)
        (.split feature threshold impurity below above)

variable {pruned tree part : Tree α} {path : List Bool}

theorem Prunes.impurity_eq (prunes : pruned.Prunes tree) : tree.impurity = pruned.impurity := by
  cases prunes <;> rfl

/-- Every part of a pruned tree has a part of the other one at the same path, from which it is
obtained. -/
theorem Prunes.subtreeAt? (prunes : pruned.Prunes tree)
    (found : pruned.subtreeAt? path = some part) :
    ∃ whole, tree.subtreeAt? path = some whole ∧ part.Prunes whole := by
  induction prunes generalizing path with
  | kept reached =>
      cases path with
      | nil =>
          obtain rfl := Option.some.inj found
          exact ⟨_, rfl, .kept reached⟩
      | cons goesLeft path => simp [Tree.subtreeAt?] at found
  | replaced reached feature threshold left right =>
      cases path with
      | nil =>
          obtain rfl := Option.some.inj found
          exact ⟨_, rfl, .replaced reached feature threshold left right⟩
      | cons goesLeft path => simp [Tree.subtreeAt?] at found
  | split feature threshold impurity leftPrunes rightPrunes leftIh rightIh =>
      cases path with
      | nil =>
          obtain rfl := Option.some.inj found
          exact ⟨_, rfl, .split feature threshold impurity leftPrunes rightPrunes⟩
      | cons goesLeft path =>
          cases goesLeft with
          | true => exact leftIh found
          | false => exact rightIh found

end Tree

namespace Growth

variable {α σ : Type}

/-- The same rules with another least weight and another least decrease. -/
def Policy.withLeast (policy : Policy α) (weight decrease : α) : Policy α :=
  { policy with minWeight := weight, minDecrease := decrease }

/-- Two nodes of different forests came into being with the same columns and statistics. -/
structure Slot.Alike (slot other : Slot α) (origin twin : Origin α) : Prop where
  columns_eq : twin.columns = origin.columns
  counts_eq : other.node.counts = slot.node.counts
  impurity_eq : other.node.impurity = slot.node.impurity
  depth_eq : other.node.depth = slot.node.depth

variable [Scalar α] {policy : Policy α} {draws : Draws σ} {dataset : Dataset α} {source : σ}
variable {rows : List (List α)} {state : State α σ} {origins : List (Origin α)}

/-- A search finds one cut only. -/
theorem Node.Finds.unique {measure : Measure α} {width : Nat} {least : α} {node : Node α}
    {cut other : Cut α} (finds : node.Finds measure width least cut)
    (alsoFinds : node.Finds measure width least other) : cut = other := by
  obtain ⟨best, found, accepted⟩ := finds
  obtain ⟨same, alsoFound, alsoAccepted⟩ := alsoFinds
  obtain rfl := Except.ok.inj (found.symm.trans alsoFound)
  exact Option.some.inj (accepted.symm.trans alsoAccepted)

/-- The cut that was found is the one at which the node was divided. -/
theorem Verdict.of_finds {width : Nat} {least : α} {node : Node α} {slot : Slot α} {cut : Cut α}
    (verdict : Verdict policy width least node slot) (admits : policy.admits node = true)
    (finds : node.Finds policy.measure width least cut) :
    slot.node.cut = some cut ∧ ∃ left right, slot.children = some (left, right) := by
  cases verdict with
  | settled _ refused => exact absurd finds (refused cut admits)
  | divided other left right children cutEq _ alsoFinds =>
      obtain rfl := finds.unique alsoFinds
      exact ⟨cutEq, left, right, children⟩

/-- The root came into being with the columns of the dataset. -/
theorem Course.root_spec [Scalar.Ordered α] (fromRows : dataset.FromRows rows)
    (bounded : draws.Bounded) (course : Course policy draws dataset source state origins) :
    ∃ slot origin, state.forest.slots[0]? = some slot ∧ origins[0]? = some origin ∧
      dataset.columns = .ok origin.columns ∧ slot.node.depth = 0 := by
  induction course with
  | start started =>
      obtain ⟨columns, counts, columnsEq, -, rfl⟩ := start_eq started
      exact ⟨_, _, rfl, rfl, columnsEq, rfl⟩
  | level course grown ih =>
      obtain ⟨slot, origin, found, originFound, columnsEq, depth⟩ := ih
      have stepped := course.stepped fromRows bounded grown
      obtain ⟨changed, changedFound, statistics⟩ := stepped.exists_kept found
      have old := (List.getElem?_eq_some_iff.mp originFound).1
      exact ⟨changed, origin, changedFound, (Forest.getElem?_ledger old).trans originFound,
        columnsEq, (Node.depth_congr statistics).trans depth⟩

section Exact

variable {K : Type} [Field K] [LinearOrder K] [IsStrictOrderedRing K]

omit [IsStrictOrderedRing K] in
/-- A cut that lowers the impurity by enough is found if less is asked for. -/
theorem Node.Finds.mono {measure : Measure K} {width : Nat} {least larger : K} {node : Node K}
    {cut : Cut K} (finds : node.Finds measure width larger cut) (atMost : least ≤ larger) :
    node.Finds measure width least cut := by
  obtain ⟨best, found, accepted⟩ := finds
  obtain ⟨cutEq, enough⟩ := Option.filter_eq_some_iff.mp accepted
  refine ⟨best, found, Option.filter_eq_some_iff.mpr ⟨cutEq, ?_⟩⟩
  exact Exact.le_iff.mpr (le_trans atMost (Exact.le_iff.mp enough))

variable {policy : Policy K} {draws : Draws σ} {dataset : Dataset K} {source : σ}
variable {rows : List (List K)} {weight decrease : K}

omit [IsStrictOrderedRing K] in
/-- Stricter rules admit fewer nodes. -/
theorem Policy.admits_of_withLeast {node other : Node K} (heavier : policy.minWeight ≤ weight)
    (depth : other.depth = node.depth) (counts : other.counts = node.counts)
    (admits : (policy.withLeast weight decrease).admits other = true) :
    policy.admits node = true := by
  obtain ⟨above, heavy⟩ := Policy.admits_iff.mp admits
  rw [depth] at above
  rw [Node.weightSum, counts] at heavy
  exact Policy.admits_iff.mpr
    ⟨above, Exact.le_iff.mpr (le_trans heavier (Exact.le_iff.mp heavy))⟩

/-- Stricter rules ask for a larger decrease. -/
theorem leastDecrease_mono (fromRows : dataset.FromRows rows)
    (dearer : policy.minDecrease ≤ decrease) :
    leastDecrease policy dataset ≤ leastDecrease (policy.withLeast weight decrease) dataset :=
  mul_le_mul_of_nonneg_right dearer fromRows.weightSum_nonneg

section TwoRuns

variable (fromRows : dataset.FromRows rows) (bounded : draws.Bounded)
variable (thorough : policy.Thorough dataset.features.size)
variable (heavier : policy.minWeight ≤ weight) (dearer : policy.minDecrease ≤ decrease)
variable {final strict : State K σ} {origins ledger : List (Origin K)}
variable (course : Course policy draws dataset source final origins)
variable (strictCourse : Course (policy.withLeast weight decrease) draws dataset source strict
  ledger)
variable (ended : final.frontier = []) (strictEnded : strict.frontier = [])

include fromRows bounded thorough heavier dearer course strictCourse ended strictEnded

/-- Where the stricter rules divide a node, the others divide one that came into being like it, at
the same cut. -/
theorem divided_alike {id other left right : Nat} {slot : Slot K} {node : Node K} {cut : Cut K}
    {origin twin : Origin K} (found : final.forest.slots[id]? = some slot)
    (originFound : origins[id]? = some origin)
    (twinSlot : strict.forest.slots[other]? = some { node, children := some (left, right) })
    (twinFound : ledger[other]? = some twin) (cutEq : node.cut = some cut)
    (alike : slot.Alike { node, children := some (left, right) } origin twin) :
    slot.node.cut = some cut ∧ ∃ below above, slot.children = some (below, above) := by
  have strictThorough : (policy.withLeast weight decrease).Thorough dataset.features.size :=
    { thorough with }
  obtain ⟨visited, visit⟩ := course.exists_visit fromRows bounded thorough found originFound
    (ended ▸ List.not_mem_nil)
  obtain ⟨strictVisited, strictVisit⟩ := strictCourse.exists_visit fromRows bounded strictThorough
    twinSlot twinFound (strictEnded ▸ List.not_mem_nil)
  have counts : visited.counts = strictVisited.counts :=
    (Node.counts_congr visit.statistics_eq).symm.trans
      (alike.counts_eq.symm.trans (Node.counts_congr strictVisit.statistics_eq))
  have impurity : visited.impurity = strictVisited.impurity :=
    (Node.impurity_congr visit.statistics_eq).symm.trans
      (alike.impurity_eq.symm.trans (Node.impurity_congr strictVisit.statistics_eq))
  have depth : strictVisited.depth = visited.depth :=
    (Node.depth_congr strictVisit.statistics_eq).symm.trans
      (alike.depth_eq.trans (Node.depth_congr visit.statistics_eq))
  have columns : visited.columns = strictVisited.columns := by
    rw [visit.live, strictVisit.live, alike.columns_eq]
  cases strictVisit.verdict with
  | settled childless => cases childless
  | divided strictCut _ _ _ strictCutEq admits finds =>
      obtain rfl := Option.some.inj (cutEq.symm.trans strictCutEq)
      have nodeAlike : strictVisited.Alike visited := ⟨columns, counts, impurity⟩
      exact visit.verdict.of_finds (Policy.admits_of_withLeast heavier depth counts.symm admits)
        ((nodeAlike.finds finds).mono (leastDecrease_mono fromRows dearer))

omit [IsStrictOrderedRing K] thorough heavier dearer ended strictEnded in
/-- Nodes with the same columns and depth are alike, if both are roots or neither is: the root has
the histogram of the dataset, every other node that of its first column. -/
theorem alike_of_columns {id other : Nat} {slot twinSlot : Slot K} {origin twin : Origin K}
    (found : final.forest.slots[id]? = some slot) (originFound : origins[id]? = some origin)
    (twinSlotFound : strict.forest.slots[other]? = some twinSlot)
    (twinFound : ledger[other]? = some twin) (roots : other = 0 ↔ id = 0)
    (columns : twin.columns = origin.columns) (depth : twinSlot.node.depth = slot.node.depth) :
    slot.Alike twinSlot origin twin := by
  have slotSound := (course.sound fromRows bounded).forest_sound.slots id slot origin found
    originFound
  have twinSound := (strictCourse.sound fromRows bounded).forest_sound.slots other twinSlot twin
    twinSlotFound twinFound
  have counts : twinSlot.node.counts = slot.node.counts := by
    rw [slotSound.counts_eq, twinSound.counts_eq, Origin.counts, Origin.counts, columns]
    simp only [roots]
    rfl
  refine ⟨columns, counts, ?_, depth⟩
  rw [slotSound.impurity_eq, twinSound.impurity_eq, counts]
  rfl

omit [IsStrictOrderedRing K] thorough heavier dearer ended strictEnded in
/-- Children on the same side of the same cut of nodes that are alike are alike. -/
theorem children_alike {id other left right below above : Nat} {node own : Node K} {cut : Cut K}
    {origin twin : Origin K}
    (found : final.forest.slots[id]? = some { node := own, children := some (below, above) })
    (originFound : origins[id]? = some origin) (ownCut : own.cut = some cut)
    (twinSlot : strict.forest.slots[other]? = some { node, children := some (left, right) })
    (twinFound : ledger[other]? = some twin) (cutEq : node.cut = some cut)
    (columns : twin.columns = origin.columns) (depth : node.depth = own.depth) :
    ∀ goesLeft : Bool, ∃ slot child twinChild entry,
      final.forest.slots[if goesLeft then below else above]? = some slot ∧
      origins[if goesLeft then below else above]? = some child ∧
      strict.forest.slots[if goesLeft then left else right]? = some twinChild ∧
      ledger[if goesLeft then left else right]? = some entry ∧
      slot.Alike twinChild child entry := by
  have sound := (course.sound fromRows bounded).forest_sound
  have strictSound := (strictCourse.sound fromRows bounded).forest_sound
  obtain ⟨-, first, column, place, lower, upper, branching⟩ :=
    sound.exists_branching found originFound
  obtain ⟨-, second, otherColumn, otherPlace, otherLower, otherUpper, strictBranching⟩ :=
    strictSound.exists_branching twinSlot twinFound
  obtain rfl := Option.some.inj (ownCut.symm.trans branching.cut_eq)
  obtain rfl := Option.some.inj (cutEq.symm.trans strictBranching.cut_eq)
  obtain ⟨belowSlot, aboveSlot, belowFound, aboveFound, belowDepth, aboveDepth⟩ :=
    course.depth_children fromRows bounded found
  obtain ⟨leftSlot, rightSlot, leftFound, rightFound, leftDepth, rightDepth⟩ :=
    strictCourse.depth_children fromRows bounded twinSlot
  obtain ⟨belowChild, belowOrigin, belowColumns, -⟩ := branching.left_origin
  obtain ⟨aboveChild, aboveOrigin, aboveColumns, -⟩ := branching.right_origin
  obtain ⟨leftChild, leftOrigin, leftColumns, -⟩ := strictBranching.left_origin
  obtain ⟨rightChild, rightOrigin, rightColumns, -⟩ := strictBranching.right_origin
  have later := branching.left_gt
  have next := branching.right_eq
  have strictLater := strictBranching.left_gt
  have strictNext := strictBranching.right_eq
  intro goesLeft
  cases goesLeft with
  | true =>
      refine ⟨belowSlot, belowChild, leftSlot, leftChild, belowFound, belowOrigin, leftFound,
        leftOrigin, alike_of_columns fromRows bounded course strictCourse belowFound belowOrigin
          leftFound leftOrigin (by omega) ?_ (by rw [leftDepth, belowDepth, depth])⟩
      rw [leftColumns, belowColumns, columns]
      rfl
  | false =>
      refine ⟨aboveSlot, aboveChild, rightSlot, rightChild, aboveFound, aboveOrigin, rightFound,
        rightOrigin, alike_of_columns fromRows bounded course strictCourse aboveFound aboveOrigin
          rightFound rightOrigin (by omega) ?_ (by rw [rightDepth, aboveDepth, depth])⟩
      rw [rightColumns, aboveColumns, columns]
      rfl

omit [IsStrictOrderedRing K] thorough heavier dearer strictCourse ended strictEnded in
/-- The leaf of a node is obtained by pruning the tree below a node that came into being like it. -/
theorem leaf_prunes {labels : List Label} {steps id : Nat} {tree : Tree K} {leaf : Leaf K}
    {slot : Slot K} {node : Node K} {origin twin : Origin K}
    (converted : final.forest.treeWithin labels steps id = .ok tree)
    (found : final.forest.slots[id]? = some slot) (originFound : origins[id]? = some origin)
    (made : node.toLeaf labels = .ok leaf)
    (alike : slot.Alike { node, children := none } origin twin) :
    (Tree.leaf leaf).Prunes tree := by
  cases steps with
  | zero => cases converted
  | succ steps =>
  obtain ⟨own, children⟩ := slot
  cases children with
  | none =>
      obtain ⟨kept, madeAlso, rfl⟩ := (Forest.treeWithin_of_leaf found).mp converted
      rw [Node.toLeaf_congr alike.counts_eq alike.impurity_eq, madeAlso] at made
      obtain rfl := Except.ok.inj made
      exact .kept kept
  | some pair =>
      obtain ⟨below, above⟩ := pair
      obtain ⟨-, cut, _, _, _, _, branching⟩ :=
        (course.sound fromRows bounded).forest_sound.exists_branching found originFound
      obtain ⟨first, second, -, -, rfl⟩ :=
        (Forest.treeWithin_of_split found branching.cut_eq).mp converted
      have impurity : own.impurity = leaf.impurity :=
        alike.impurity_eq.symm.trans (Node.of_toLeaf made).1.symm
      rw [impurity]
      exact .replaced leaf cut.feature cut.threshold first second

/-- The trees below nodes that came into being alike: the one grown with the stricter rules is
obtained by pruning the other. -/
theorem treeWithin_prunes {labels : List Label} {steps more id other : Nat} {tree pruned : Tree K}
    {slot twinSlot : Slot K} {origin twin : Origin K}
    (converted : final.forest.treeWithin labels steps id = .ok tree)
    (strictConverted : strict.forest.treeWithin labels more other = .ok pruned)
    (found : final.forest.slots[id]? = some slot) (originFound : origins[id]? = some origin)
    (twinSlotFound : strict.forest.slots[other]? = some twinSlot)
    (twinFound : ledger[other]? = some twin) (alike : slot.Alike twinSlot origin twin) :
    pruned.Prunes tree := by
  have strictSound := (strictCourse.sound fromRows bounded).forest_sound
  induction more generalizing steps id other tree pruned slot twinSlot origin twin with
  | zero => cases strictConverted
  | succ more ih =>
      obtain ⟨node, twinChildren⟩ := twinSlot
      cases twinChildren with
      | none =>
          obtain ⟨leaf, made, rfl⟩ := (Forest.treeWithin_of_leaf twinSlotFound).mp strictConverted
          exact leaf_prunes fromRows bounded course converted found originFound made alike
      | some pair =>
          obtain ⟨left, right⟩ := pair
          obtain ⟨-, cut, _, _, _, _, branching⟩ :=
            strictSound.exists_branching twinSlotFound twinFound
          have cutEq := branching.cut_eq
          obtain ⟨own, children⟩ := slot
          obtain ⟨ownCut, below, above, divided⟩ := divided_alike fromRows bounded thorough heavier
            dearer course strictCourse ended strictEnded found originFound twinSlotFound twinFound
            cutEq alike
          obtain rfl : children = some (below, above) := divided
          cases steps with
          | zero => cases converted
          | succ steps =>
          obtain ⟨first, second, firstEq, secondEq, rfl⟩ :=
            (Forest.treeWithin_of_split found ownCut).mp converted
          obtain ⟨less, greater, lessEq, greaterEq, rfl⟩ :=
            (Forest.treeWithin_of_split twinSlotFound cutEq).mp strictConverted
          have sides := children_alike fromRows bounded course strictCourse found originFound ownCut
            twinSlotFound twinFound cutEq alike.columns_eq alike.depth_eq
          obtain ⟨_, _, _, _, belowSlot, belowOrigin, leftSlot, leftOrigin, leftAlike⟩ := sides true
          obtain ⟨_, _, _, _, aboveSlot, aboveOrigin, rightSlot, rightOrigin, rightAlike⟩ :=
            sides false
          have impurity : node.impurity = own.impurity := alike.impurity_eq
          rw [impurity]
          exact .split cut.feature cut.threshold own.impurity
            (ih firstEq lessEq belowSlot belowOrigin leftSlot leftOrigin leftAlike)
            (ih secondEq greaterEq aboveSlot aboveOrigin rightSlot rightOrigin rightAlike)

end TwoRuns

/-- Two trees are grown in exact arithmetic over an accepted table, whatever the measure and the
depth limit, with all boundaries of all features searched.  If the rules for one of them ask for at
least as much weight and at least as large a decrease, then it is obtained from the other one by
replacing some parts by leaves: every split of it is a split of the other one at the same path, with
the same feature, threshold and impurity, and at the path of every leaf of it the other one has a
part of the same impurity. -/
theorem stricter_rules_prune {values : Nested K} {labels : Nested Label}
    {weights : Option (Nested K)} {names : Option Setting} {table : Option LabelTable}
    {dataset : Dataset K}
    (accepted : Dataset.ofTable values labels weights names table = .ok dataset)
    (nonempty : dataset.examples ≠ []) {policy : Policy K}
    (thorough : policy.Thorough dataset.features.size) {draws : Draws σ} (bounded : draws.Bounded)
    (source : σ) {weight decrease : K} (heavier : policy.minWeight ≤ weight)
    (dearer : policy.minDecrease ≤ decrease) :
    (dataset.features.size ≤ 2 ^ 63 →
      ∃ state : State K σ, start policy.measure dataset source = .ok state) ∧
    ∀ state, start policy.measure dataset source = .ok state →
      ∃ final strict tree pruned, finish policy draws dataset state = .ok final ∧
        finish (policy.withLeast weight decrease) draws dataset state = .ok strict ∧
        final.forest.toTree dataset.labels.labels 0 = .ok tree ∧
        strict.forest.toTree dataset.labels.labels 0 = .ok pruned ∧
        pruned.Prunes tree ∧
        (∀ path feature threshold impurity left right,
          pruned.subtreeAt? path = some (.split feature threshold impurity left right) →
            ∃ below above,
              tree.subtreeAt? path = some (.split feature threshold impurity below above)) ∧
        ∀ path leaf, pruned.leafAt? path = some leaf →
          ∃ part, tree.subtreeAt? path = some part ∧ part.impurity = leaf.impurity := by
  obtain ⟨width, rows, -, fromRows⟩ := Dataset.fromRows_of_ofTable accepted
  refine ⟨fun narrow => exists_start fromRows narrow _ _, fun state started => ?_⟩
  have first : Course policy draws dataset source state _ := .start started
  have strictFirst : Course (policy.withLeast weight decrease) draws dataset source state _ :=
    .start started
  obtain ⟨final, origins, finished, course⟩ := first.exists_finish fromRows bounded
  obtain ⟨strict, ledger, strictFinished, strictCourse⟩ :=
    strictFirst.exists_finish fromRows bounded
  obtain ⟨tree, converted⟩ := course.exists_tree fromRows bounded nonempty
  obtain ⟨pruned, strictConverted⟩ := strictCourse.exists_tree fromRows bounded nonempty
  obtain ⟨-, -, ended⟩ := first.grow finished
  obtain ⟨-, -, strictEnded⟩ := strictFirst.grow strictFinished
  obtain ⟨slot, origin, found, originFound, columns, depth⟩ := course.root_spec fromRows bounded
  obtain ⟨twinSlot, twin, twinSlotFound, twinFound, twinColumns, twinDepth⟩ :=
    strictCourse.root_spec fromRows bounded
  have alike := alike_of_columns fromRows bounded course strictCourse found originFound
    twinSlotFound twinFound Iff.rfl (Except.ok.inj (twinColumns.symm.trans columns))
    (twinDepth.trans depth.symm)
  have prunes := treeWithin_prunes fromRows bounded thorough heavier dearer course strictCourse
    ended strictEnded converted strictConverted found originFound twinSlotFound twinFound alike
  refine ⟨final, strict, tree, pruned, finished, strictFinished, converted, strictConverted, prunes,
    ?_, ?_⟩
  · intro path feature threshold impurity left right splitFound
    obtain ⟨whole, wholeFound, partPrunes⟩ := prunes.subtreeAt? splitFound
    cases partPrunes with
    | split _ _ _ _ _ => exact ⟨_, _, wholeFound⟩
  · intro path leaf leafFound
    obtain ⟨whole, wholeFound, partPrunes⟩ :=
      prunes.subtreeAt? (Tree.subtreeAt?_of_leafAt? leafFound)
    exact ⟨whole, wholeFound, partPrunes.impurity_eq⟩

end Exact

/-- The split of the sample lowers its impurity by one half less three eighths; where more is asked
for, one leaf is left. -/
theorem stricter_rules_prune_sample :
    ∃ (dataset : Dataset ℚ) (state final strict : State ℚ Nat) (tree pruned : Tree ℚ),
      Dataset.ofTable (Sample.values 0 1) Sample.labels none none none = .ok dataset ∧
      dataset.examples ≠ [] ∧ (Sample.policy : Policy ℚ).Thorough dataset.features.size ∧
      (Sample.policy : Policy ℚ).minWeight ≤ 2 ∧ (Sample.policy : Policy ℚ).minDecrease ≤ 1 / 4 ∧
      start Sample.policy.measure dataset 0 = .ok state ∧
      finish Sample.policy (.repeating []) dataset state = .ok final ∧
      finish (Sample.policy.withLeast 2 (1 / 4)) (.repeating []) dataset state = .ok strict ∧
      final.forest.toTree dataset.labels.labels 0 = .ok tree ∧
      strict.forest.toTree dataset.labels.labels 0 = .ok pruned ∧
      tree.leafCount = 2 ∧ pruned.leafCount = 1 ∧ pruned.Prunes tree := by
  have passed : Outcome.passes (do
      let dataset ← Dataset.ofTable (Sample.values (0 : ℚ) 1) Sample.labels none none none
      let state ← start Sample.policy.measure dataset 0
      let final ← finish Sample.policy (.repeating []) dataset state
      let strict ← finish (Sample.policy.withLeast 2 (1 / 4)) (.repeating []) dataset state
      let tree ← final.forest.toTree dataset.labels.labels 0
      let pruned ← strict.forest.toTree dataset.labels.labels 0
      pure (dataset, tree, pruned)) (fun (dataset, tree, pruned) =>
        !dataset.examples.isEmpty && dataset.features.size == 1 && tree.leafCount == 2 &&
          pruned.leafCount == 1) = true := by
    decide +kernel
  obtain ⟨⟨dataset, tree, pruned⟩, computed, test⟩ := Outcome.exists_of_passes passed
  obtain ⟨other, accepted, computed⟩ := Outcome.bind_eq_ok.mp computed
  obtain ⟨state, started, computed⟩ := Outcome.bind_eq_ok.mp computed
  obtain ⟨final, finished, computed⟩ := Outcome.bind_eq_ok.mp computed
  obtain ⟨strict, strictFinished, computed⟩ := Outcome.bind_eq_ok.mp computed
  obtain ⟨found, converted, computed⟩ := Outcome.bind_eq_ok.mp computed
  obtain ⟨foundPruned, strictConverted, triple⟩ := Outcome.bind_eq_ok.mp computed
  obtain ⟨rfl, pair⟩ := Prod.mk.inj (Except.ok.inj triple)
  obtain ⟨rfl, rfl⟩ := Prod.mk.inj pair
  simp only [Bool.and_eq_true, beq_iff_eq, Bool.not_eq_true', List.isEmpty_eq_false_iff] at test
  obtain ⟨⟨⟨nonempty, features⟩, leaves⟩, prunedLeaves⟩ := test
  have thorough : (Sample.policy : Policy ℚ).Thorough other.features.size :=
    ⟨rfl, features.symm, Nat.zero_lt_one⟩
  have heavier : (Sample.policy : Policy ℚ).minWeight ≤ 2 := by decide +kernel
  have dearer : (Sample.policy : Policy ℚ).minDecrease ≤ 1 / 4 := by decide +kernel
  obtain ⟨-, prunes⟩ := stricter_rules_prune accepted nonempty thorough Draws.bounded_zeros 0
    heavier dearer
  obtain ⟨last, lastStrict, grown, grownPruned, lastEq, strictEq, treeEq, prunedEq, isPruned, -⟩ :=
    prunes state started
  obtain rfl := Except.ok.inj (finished.symm.trans lastEq)
  obtain rfl := Except.ok.inj (strictFinished.symm.trans strictEq)
  obtain rfl := Except.ok.inj (converted.symm.trans treeEq)
  obtain rfl := Except.ok.inj (strictConverted.symm.trans prunedEq)
  exact ⟨other, state, final, strict, found, foundPruned, accepted, nonempty, thorough, heavier,
    dearer, started, finished, strictFinished, converted, strictConverted, leaves, prunedLeaves,
    isPruned⟩

end Growth

end DecisionTree
