import DecisionTree.Classifier.Basic
import DecisionTree.Proofs.Growth.Purity
import DecisionTree.Proofs.Growth.Shape

/-!
# Nodes of a forest and parts of its tree

The path that leads to a part of a tree (`Tree.addresses`) also leads to a node of the forest that
the tree was made from, and every node has one such address
(`Forest.Sound.addresses_perm`).  So the tree has as many parts as the forest has nodes, its leaves
are the nodes without children, and its depth is the greatest depth of a node
(`grown_forest_is_tree`).
-/

namespace DecisionTree.Growth

variable {α σ : Type}

namespace Forest

variable {forest : Forest α} {start last id : Nat} {path rest : List Bool} {goesLeft : Bool}

theorem descend_append : forest.descend start (path ++ rest) =
    (forest.descend start path).bind fun middle => forest.descend middle rest := by
  induction path generalizing start with
  | nil => rfl
  | cons goesLeft path ih =>
      rw [List.cons_append, descend, descend]
      split
      next => exact ih
      next => rfl

/-- The last step of a path leads from a node to one of its children. -/
theorem descend_concat : forest.descend start (path ++ [goesLeft]) = some last ↔
    ∃ parent node left right, forest.descend start path = some parent ∧
      forest.slots[parent]? = some { node, children := some (left, right) } ∧
      last = if goesLeft then left else right := by
  rw [descend_append, Option.bind_eq_some_iff]
  constructor
  · rintro ⟨parent, reached, step⟩
    rw [descend] at step
    split at step
    next node left right found =>
      exact ⟨parent, node, left, right, reached, found, (Option.some.inj step).symm⟩
    next => cases step
  · rintro ⟨parent, node, left, right, reached, found, rfl⟩
    refine ⟨parent, reached, ?_⟩
    rw [descend, found]
    rfl

end Forest

/-- A node of a state at the end of a path is as much deeper as the path is long. -/
theorem State.Shaped.depth_descend {state : State α σ} {levels start last : Nat}
    (shaped : state.Shaped levels) {path : List Bool} {slot other : Slot α}
    (reached : state.forest.descend start path = some last)
    (found : state.forest.slots[start]? = some slot)
    (otherFound : state.forest.slots[last]? = some other) :
    other.node.depth = slot.node.depth + path.length := by
  induction path generalizing start slot with
  | nil =>
      obtain rfl := Option.some.inj reached
      obtain rfl := Option.some.inj (found.symm.trans otherFound)
      rfl
  | cons goesLeft path ih =>
      rw [Forest.descend, found] at reached
      split at reached
      next node left right same =>
        obtain rfl := Option.some.inj same
        obtain ⟨-, -, below, above, belowFound, aboveFound, belowDepth, aboveDepth⟩ :=
          shaped.children start node left right found
        rw [List.length_cons, Nat.add_comm path.length, ← Nat.add_assoc]
        cases goesLeft with
        | true => rw [ih reached belowFound, belowDepth]
        | false => rw [ih reached aboveFound, aboveDepth]
      next => cases reached

variable [Scalar α]

/-- What a slot of a forest becomes in the tree: a leaf if it has no children, or a split with the
same feature, threshold and impurity. -/
inductive Slot.Becomes (labels : List Label) (slot : Slot α) : Tree α → Prop where
  | leaf {made : Leaf α} (children_eq : slot.children = none)
      (made_eq : slot.node.toLeaf labels = .ok made)
      (impurity_eq : made.impurity = slot.node.impurity) : Becomes labels slot (.leaf made)
  | split {cut : Cut α} {left right : Tree α} (divided : slot.children.isSome = true)
      (cut_eq : slot.node.cut = some cut) :
      Becomes labels slot (.split cut.feature cut.threshold slot.node.impurity left right)

namespace Forest.Sound

variable {ground : Ground α} {forest : Forest α} {origins : List (Origin α)} {labels : List Label}
variable {id steps : Nat} {tree : Tree α}

/-- Every node is at the end of one path from the root. -/
theorem existsUnique_path (sound : forest.Sound ground origins) (inside : id < forest.size) :
    ∃! path, forest.descend 0 path = some id := by
  induction id using Nat.strongRecOn with
  | ind id ih =>
  -- the last step of a path is to a child, and the child has one parent
  have last_step : ∀ {path goesLeft}, forest.descend 0 (path ++ [goesLeft]) = some id →
      ∃ parent, forest.descend 0 path = some parent ∧ forest.IsChild parent id := by
    intro path goesLeft reached
    obtain ⟨parent, node, left, right, before, found, rfl⟩ := Forest.descend_concat.mp reached
    refine ⟨parent, before, node, left, right, found, ?_⟩
    cases goesLeft with
    | true => exact .inl rfl
    | false => exact .inr rfl
  by_cases root : id = 0
  · subst root
    refine ⟨[], rfl, fun path reached => ?_⟩
    rcases List.eq_nil_or_concat path with empty | ⟨init, goesLeft, rfl⟩
    · exact empty
    · rw [List.concat_eq_append] at reached
      obtain ⟨parent, -, isChild⟩ := last_step reached
      exact absurd (sound.lt_of_isChild isChild) (Nat.not_lt_zero parent)
  · obtain ⟨parent, isChild, onlyParent⟩ := sound.existsUnique_parent root inside
    have before := sound.lt_of_isChild isChild
    obtain ⟨node, left, right, found, side⟩ := isChild
    obtain ⟨path, reached, onlyPath⟩ := ih parent before (Forest.lt_size found)
    obtain ⟨origin, originFound⟩ := sound.exists_origin found
    obtain ⟨-, cut, column, place, lower, upper, branching⟩ :=
      sound.exists_branching found originFound
    have differ : left ≠ right := by
      have := branching.right_eq
      omega
    refine ⟨path ++ [decide (id = left)], ?_, fun other otherReached => ?_⟩
    · refine Forest.descend_concat.mpr ⟨parent, node, left, right, reached, found, ?_⟩
      rcases side with rfl | rfl
      · simp
      · simp [differ.symm]
    · rcases List.eq_nil_or_concat other with rfl | ⟨init, goesLeft, rfl⟩
      · exact absurd (Option.some.inj otherReached).symm root
      · rw [List.concat_eq_append] at otherReached ⊢
        obtain ⟨owner, ownerReached, ownerChild⟩ := last_step otherReached
        obtain rfl := onlyParent owner ownerChild
        obtain rfl := onlyPath init ownerReached
        obtain ⟨_, _, first, second, sameReached, sameFound, same⟩ :=
          Forest.descend_concat.mp otherReached
        obtain rfl := Option.some.inj (sameReached.symm.trans ownerReached)
        obtain ⟨-, pair⟩ := (Slot.mk.injEq ..).mp (Option.some.inj (sameFound.symm.trans found))
        obtain ⟨rfl, rfl⟩ := (Prod.mk.injEq ..).mp (Option.some.inj pair)
        cases goesLeft with
        | true => simp [same]
        | false => simp [same, differ.symm]

/-- A path leads to a part of a tree exactly if it leads to a node of the forest, and then the node
has become that part. -/
theorem part_becomes (sound : forest.Sound ground origins)
    (converted : forest.treeWithin labels steps id = .ok tree) (path : List Bool) :
    tree.subtreeAt? path = none ∧ forest.descend id path = none ∨
      ∃ part last slot, tree.subtreeAt? path = some part ∧ forest.descend id path = some last ∧
        forest.slots[last]? = some slot ∧ slot.Becomes labels part := by
  induction steps generalizing id tree path with
  | zero => cases converted
  | succ steps ih =>
      cases found : forest.slots[id]? with
      | none =>
          rw [Forest.treeWithin, Forest.slot_eq_error found] at converted
          cases converted
      | some slot =>
          obtain ⟨node, children⟩ := slot
          cases children with
          | none =>
              obtain ⟨made, madeEq, rfl⟩ := (Forest.treeWithin_of_leaf found).mp converted
              cases path with
              | nil =>
                  exact .inr ⟨_, id, _, rfl, rfl, found,
                    .leaf rfl madeEq (Node.of_toLeaf madeEq).1⟩
              | cons goesLeft path =>
                  rw [Tree.subtreeAt?, Forest.descend, found]
                  exact .inl ⟨rfl, rfl⟩
          | some pair =>
              obtain ⟨left, right⟩ := pair
              obtain ⟨origin, originFound⟩ := sound.exists_origin found
              obtain ⟨-, cut, column, place, lower, upper, branching⟩ :=
                sound.exists_branching found originFound
              obtain ⟨below, above, belowEq, aboveEq, rfl⟩ :=
                (Forest.treeWithin_of_split found branching.cut_eq).mp converted
              cases path with
              | nil => exact .inr ⟨_, id, _, rfl, rfl, found, .split rfl branching.cut_eq⟩
              | cons goesLeft path =>
                  rw [Forest.descend, found]
                  cases goesLeft with
                  | true => exact ih belowEq path
                  | false => exact ih aboveEq path

/-- A leaf of the tree is made from the node at the end of its path. -/
theorem leaf_made (sound : forest.Sound ground origins)
    (converted : forest.treeWithin labels steps id = .ok tree) {path : List Bool} {made : Leaf α}
    (leafFound : tree.leafAt? path = some made) :
    ∃ last node, forest.descend id path = some last ∧
      forest.slots[last]? = some { node, children := none } ∧ node.toLeaf labels = .ok made := by
  have isPart := Tree.subtreeAt?_of_leafAt? leafFound
  rcases sound.part_becomes converted path with
    ⟨absent, -⟩ | ⟨part, last, slot, partFound, reached, found, becomes⟩
  · rw [isPart] at absent
    cases absent
  · obtain rfl := Option.some.inj (isPart.symm.trans partFound)
    obtain ⟨node, children⟩ := slot
    cases becomes with
    | leaf children_eq made_eq impurity_eq =>
        obtain rfl := children_eq
        exact ⟨last, node, reached, found, made_eq⟩

/-- The addresses of a tree lead to all nodes of the forest, to each of them once. -/
theorem addresses_perm (sound : forest.Sound ground origins)
    (converted : forest.toTree labels 0 = .ok tree) :
    (tree.addresses.map (forest.descend 0)).Perm ((List.range forest.size).map some) := by
  have of_address : ∀ {path}, path ∈ tree.addresses →
      ∃ last slot, forest.descend 0 path = some last ∧ forest.slots[last]? = some slot := by
    intro path member
    rcases sound.part_becomes converted path with
      ⟨absent, -⟩ | ⟨_, last, slot, -, reached, found, -⟩
    · rw [Tree.mem_addresses, absent] at member
      cases member
    · exact ⟨last, slot, reached, found⟩
  refine (List.perm_ext_iff_of_nodup ?_ ?_).mpr fun place => ?_
  · refine List.Nodup.map_on (fun path member other _ same => ?_) tree.nodup_addresses
    obtain ⟨last, slot, reached, found⟩ := of_address member
    exact (sound.existsUnique_path (Forest.lt_size found)).unique reached (same ▸ reached)
  · exact List.nodup_range.map (Option.some_injective Nat)
  · rw [List.mem_map, List.mem_map]
    constructor
    · rintro ⟨path, member, rfl⟩
      obtain ⟨last, slot, reached, found⟩ := of_address member
      exact ⟨last, List.mem_range.mpr (Forest.lt_size found), reached.symm⟩
    · rintro ⟨id, inside, rfl⟩
      obtain ⟨path, reached, -⟩ := sound.existsUnique_path (List.mem_range.mp inside)
      refine ⟨path, Tree.mem_addresses.mpr ?_, reached⟩
      rcases sound.part_becomes converted path with ⟨-, absent⟩ | ⟨part, -, -, found, -⟩
      · rw [absent] at reached
        cases reached
      · rw [found]
        rfl

end Forest.Sound

variable [Scalar.Ordered α] {policy : Policy α} {draws : Draws σ} {dataset : Dataset α}
variable {source : σ} {rows : List (List α)} {state : State α σ} {origins : List (Origin α)}

/-- A tree has the leaves and the depth of the forest that it was made from. -/
theorem Course.tree_size (fromRows : dataset.FromRows rows) (bounded : draws.Bounded)
    (course : Course policy draws dataset source state origins) {labels : List Label}
    {tree : Tree α} (converted : state.forest.toTree labels 0 = .ok tree) :
    state.forest.size = 2 * tree.leafCount - 1 ∧
      (∀ (id : Nat) (slot : Slot α), state.forest.slots[id]? = some slot →
        slot.node.depth ≤ tree.depth) ∧
      (∃ (id : Nat) (slot : Slot α), state.forest.slots[id]? = some slot ∧
        slot.node.depth = tree.depth) ∧
      ∀ limit, policy.maxDepth = some limit → tree.depth ≤ limit := by
  have sound := (course.sound fromRows bounded).forest_sound
  obtain ⟨levels, reached⟩ := Course.iff_after.mp course
  have shaped := Course.shaped fromRows bounded reached
  obtain ⟨origin, originFound, -⟩ := course.root_origin
  obtain ⟨root, rootFound⟩ := sound.exists_slot originFound
  have perm := sound.addresses_perm converted
  -- an address is as long as its node is deep
  have length_eq : ∀ {path last} {slot : Slot α}, state.forest.descend 0 path = some last →
      state.forest.slots[last]? = some slot → slot.node.depth = path.length := by
    intro path last slot reached found
    rw [shaped.depth_descend reached rootFound found, shaped.root_depth root rootFound,
      Nat.zero_add]
  obtain ⟨deepest, member, deepestLength⟩ := tree.exists_deepest
  obtain ⟨last, inside, reachedDeepest⟩ :=
    List.mem_map.mp (perm.mem_iff.mp (List.mem_map_of_mem member))
  have found := List.getElem?_eq_getElem (List.mem_range.mp inside)
  have depth_eq := (length_eq reachedDeepest.symm found).trans deepestLength
  refine ⟨?_, ?_, ⟨last, _, found, depth_eq⟩, fun limit limited => ?_⟩
  · have lengths := perm.length_eq
    rw [List.length_map, List.length_map, List.length_range] at lengths
    have := tree.length_addresses
    omega
  · intro id slot slotFound
    have isNode := List.mem_map_of_mem (f := some) (List.mem_range.mpr (Forest.lt_size slotFound))
    obtain ⟨path, pathMember, reachedNode⟩ := List.mem_map.mp (perm.mem_iff.mpr isNode)
    rw [length_eq reachedNode slotFound]
    exact Tree.length_le_depth pathMember
  · rw [← depth_eq]
    exact course.depth_le_limit fromRows bounded limited found

end Growth

namespace Classifier

variable {classifier fitted : Classifier} {processors : Nat} {dataset : Dataset Float}

/-- What a fit does that succeeds. -/
theorem fitDataset_eq_ok (fit : classifier.fitDataset processors dataset = .ok fitted) :
    ∃ checked seed workers root grown tree, classifier.settings.check = .ok checked ∧
      let policy := checked.policy dataset.features.size workers
      Growth.start policy.measure dataset (Twister.ofSeed seed) = .ok root ∧
        Growth.finish policy Twister.draws dataset root = .ok grown ∧
        grown.forest.toTree dataset.labels.labels 0 = .ok tree ∧
        fitted.model = some {
          tree
          nodeCount := grown.forest.size
          classes := Atom.uniform dataset.labels.labels
          features := dataset.features
          labels := dataset.labels } := by
  obtain ⟨checked, checks, fit⟩ := Outcome.bind_eq_ok.mp fit
  split at fit
  next => cases fit
  next =>
  obtain ⟨seed, -, fit⟩ := Outcome.bind_eq_ok.mp fit
  obtain ⟨workers, -, fit⟩ := Outcome.bind_eq_ok.mp fit
  obtain ⟨root, started, fit⟩ := Outcome.bind_eq_ok.mp fit
  split at fit
  next => cases fit
  next =>
  obtain ⟨grown, finished, fit⟩ := Outcome.bind_eq_ok.mp fit
  obtain ⟨tree, converted, fit⟩ := Outcome.bind_eq_ok.mp fit
  obtain rfl := Except.ok.inj fit
  exact ⟨checked, seed, workers, root, grown, tree, checks, started, finished, converted, rfl⟩

/-- The depth limit that settings ask for is the one that was checked. -/
theorem depthLimit_eq {settings : Settings} {checked : Settings.Checked}
    (checks : settings.check = .ok checked) :
    Settings.depthLimit? settings.maxDepth = .ok checked.maxDepth := by
  obtain ⟨splitter, -, checks⟩ := Outcome.bind_eq_ok.mp checks
  obtain ⟨maxDepth, limited, checks⟩ := Outcome.bind_eq_ok.mp checks
  obtain ⟨minWeight, -, checks⟩ := Outcome.bind_eq_ok.mp checks
  obtain ⟨minDecrease, -, checks⟩ := Outcome.bind_eq_ok.mp checks
  obtain ⟨fraction, -, checks⟩ := Outcome.bind_eq_ok.mp checks
  split at checks
  next => cases checks
  next =>
  obtain ⟨measure, -, checks⟩ := Outcome.bind_eq_ok.mp checks
  obtain rfl := Except.ok.inj checks
  exact limited

end Classifier

namespace Growth

/-- Growth over an accepted table, whatever the rules, whatever is drawn and whatever the scores
are.  After any number of levels the forest has the shape that belongs to them, and the next level
consists of the nodes that are added.  At any time the forest can be converted unless there are no
examples: the addresses of the tree lead to all nodes, to each of them once, each part is what the
node at its address becomes, and the numbers of nodes and leaves, the depths and the depth limit
agree.  So they do in every fitted classifier. -/
theorem grown_forest_is_tree {values : Nested Float} {labels : Nested Label}
    {weights : Option (Nested Float)} {names : Option Setting} {table : Option LabelTable}
    {dataset : Dataset Float}
    (accepted : Dataset.ofTable values labels weights names table = .ok dataset) :
    (∀ {σ : Type} (policy : Policy Float) (draws : Draws σ) (source : σ) (levels : Nat)
        (state : State Float σ) (origins : List (Origin Float)), draws.Bounded →
      Course.after policy draws dataset source levels = .ok (state, origins) →
        state.Shaped levels ∧
        (∀ after, step policy draws dataset.features.size (leastDecrease policy dataset) state =
            .ok after →
          ∀ id, id ∈ after.frontier ↔ state.forest.size ≤ id ∧ id < after.forest.size) ∧
        (dataset.examples ≠ [] → ∃ tree,
          state.forest.toTree dataset.labels.labels 0 = .ok tree ∧
          (tree.addresses.map (state.forest.descend 0)).Perm
            ((List.range state.forest.size).map some) ∧
          (∀ path part, tree.subtreeAt? path = some part → ∃ id slot,
            state.forest.descend 0 path = some id ∧ state.forest.slots[id]? = some slot ∧
              slot.Becomes dataset.labels.labels part) ∧
          state.forest.size = 2 * tree.leafCount - 1 ∧
          (∀ (id : Nat) (slot : Slot Float), state.forest.slots[id]? = some slot →
            slot.node.depth ≤ tree.depth) ∧
          (∃ (id : Nat) (slot : Slot Float), state.forest.slots[id]? = some slot ∧
            slot.node.depth = tree.depth) ∧
          ∀ limit, policy.maxDepth = some limit → tree.depth ≤ limit)) ∧
    ∀ (classifier fitted : Classifier) (processors : Nat),
      classifier.fitDataset processors dataset = .ok fitted →
        ∃ model limit, fitted.model = some model ∧
          Classifier.Settings.depthLimit? classifier.settings.maxDepth = .ok limit ∧
          model.nodeCount = 2 * model.tree.leafCount - 1 ∧
          ∀ bound, limit = some bound → model.tree.depth ≤ bound := by
  obtain ⟨width, rows, -, fromRows⟩ := Dataset.fromRows_of_ofTable accepted
  constructor
  · intro σ policy draws source levels state origins bounded reached
    have course := Course.iff_after.mpr ⟨levels, reached⟩
    have sound := (course.sound fromRows bounded).forest_sound
    refine ⟨Course.shaped fromRows bounded reached, fun after grown id =>
      (course.stepped fromRows bounded grown).mem_frontier_iff, fun nonempty => ?_⟩
    obtain ⟨tree, converted⟩ := course.exists_tree fromRows bounded nonempty
    refine ⟨tree, converted, sound.addresses_perm converted, fun path part partFound => ?_,
      course.tree_size fromRows bounded converted⟩
    rcases sound.part_becomes converted path with ⟨absent, -⟩ | ⟨own, id, slot, ownFound, node⟩
    · cases partFound.symm.trans absent
    · obtain rfl := Option.some.inj (partFound.symm.trans ownFound)
      exact ⟨id, slot, node⟩
  · intro classifier fitted processors fit
    obtain ⟨checked, seed, workers, root, grown, tree, checks, started, finished, converted,
      model⟩ := Classifier.fitDataset_eq_ok fit
    obtain ⟨ledger, course, -⟩ := (Course.start started).grow finished
    obtain ⟨size, -, -, depth⟩ := course.tree_size fromRows Twister.draws_bounded converted
    exact ⟨_, checked.maxDepth, model, Classifier.depthLimit_eq checks, size, depth⟩

/-- After one level the sample has three nodes, and its tree has two leaves. -/
theorem grown_forest_is_tree_sample :
    ∃ (dataset : Dataset Float) (state : State Float Nat) (origins : List (Origin Float))
      (tree : Tree Float),
      Dataset.ofTable (Sample.values 0 1) Sample.labels none none none = .ok dataset ∧
      Course.after Sample.policy (.repeating []) dataset 0 1 = .ok (state, origins) ∧
      dataset.examples ≠ [] ∧ state.Shaped 1 ∧ state.frontier = [1, 2] ∧
      state.forest.toTree dataset.labels.labels 0 = .ok tree ∧
      (tree.addresses.map (state.forest.descend 0)).Perm [some 0, some 1, some 2] ∧
      state.forest.size = 2 * tree.leafCount - 1 := by
  have passed : Outcome.passes (do
      let dataset ← Dataset.ofTable (Sample.values (0 : Float) 1) Sample.labels none none none
      let reached ← Course.after Sample.policy (.repeating []) dataset 0 1
      pure (dataset, reached)) (fun (dataset, state, _) =>
        !dataset.examples.isEmpty && state.frontier == [1, 2] && state.forest.size == 3) =
      true := by
    decide +kernel
  obtain ⟨⟨dataset, state, origins⟩, computed, test⟩ := Outcome.exists_of_passes passed
  obtain ⟨other, accepted, computed⟩ := Outcome.bind_eq_ok.mp computed
  obtain ⟨pair, reached, triple⟩ := Outcome.bind_eq_ok.mp computed
  obtain ⟨rfl, rfl⟩ := Prod.mk.inj (Except.ok.inj triple)
  simp only [Bool.and_eq_true, beq_iff_eq, Bool.not_eq_true', List.isEmpty_eq_false_iff] at test
  obtain ⟨⟨nonempty, frontier⟩, size⟩ := test
  obtain ⟨shaped, -, converts⟩ := (grown_forest_is_tree accepted).1 Sample.policy (.repeating [])
    0 1 state origins Draws.bounded_zeros reached
  obtain ⟨tree, converted, perm, -, leaves, -⟩ := converts nonempty
  rw [size] at perm
  exact ⟨other, state, origins, tree, accepted, reached, nonempty, shaped, frontier, converted,
    perm, leaves⟩

end DecisionTree.Growth
