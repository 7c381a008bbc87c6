import DecisionTree.Proofs.Growth.Routing
import DecisionTree.Proofs.Paths

/-!
# From a forest to a tree

`Forest.descend` follows a path through the nodes of a forest.  A sound forest can be converted
(`Forest.Sound.exists_tree`).  If all its thresholds separate the values beside them, then the rows
that take the path to a leaf are the examples of the node that the leaf was made from
(`Forest.Sound.leaf_examples`).
-/

namespace DecisionTree

variable {α : Type} [Scalar α]

namespace Tree

/-- Those of some rows that take a path to its end. -/
def reaching (tree : Tree α) (rows : List (List α)) (ids : List Int) (path : List Bool) :
    List Int :=
  ids.filter fun index => tree.route? (rows.getD index.toNat []) == some path

end Tree

namespace Growth

namespace Node

theorem length_distribution (counts : List α) : (distribution counts).length = counts.length := by
  simp only [distribution]
  split <;> simp

theorem firstMaximumFrom_lt {best place : Nat} (seen : best < place) (value : α) (rest : List α) :
    firstMaximumFrom best value place rest < place + rest.length := by
  induction rest generalizing best value place with
  | nil => exact seen
  | cons next rest ih =>
      rw [firstMaximumFrom, List.length_cons, Nat.add_comm rest.length, ← Nat.add_assoc]
      split
      · exact ih (Nat.lt_succ_self place) next
      · exact ih (Nat.lt_succ_of_lt seen) value

/-- The first maximum of a list that is not empty is at one of its places. -/
theorem firstMaximum_lt {values : List α} (nonempty : values ≠ []) :
    firstMaximum values < values.length := by
  obtain ⟨first, rest, rfl⟩ := List.exists_cons_of_ne_nil nonempty
  rw [firstMaximum, List.length_cons, Nat.add_comm]
  exact firstMaximumFrom_lt Nat.zero_lt_one first rest

/-- A place holds the first of the largest values of a list.  What is no number is passed over, but
nothing is larger than what is no number in the first place. -/
def IsFirstLargest (values : List α) (place : Nat) : Prop :=
  ∃ value, values[place]? = some value ∧ (∀ other ∈ values, Scalar.lt value other = false) ∧
    ∀ earlier < place, ∀ other, values[earlier]? = some other →
      Scalar.lt other value = true ∨ Scalar.isNumber other = false

section FirstLargest

open Scalar (Ordered)

variable [Ordered α] {values rest : List α} {best place : Nat} {value : α}

/-- Going on with the search for the first maximum finds it. -/
theorem firstMaximumFrom_spec (left : values.drop place = rest) (found : values[best]? = some value)
    (seen : best < place)
    (earlier : ∀ before < best, ∀ other, values[before]? = some other →
      Scalar.lt other value = true ∨ Scalar.isNumber other = false)
    (largest : ∀ before < place, ∀ other, values[before]? = some other →
      Scalar.lt value other = false) :
    IsFirstLargest values (firstMaximumFrom best value place rest) := by
  induction rest generalizing best place value with
  | nil =>
      have short := List.drop_eq_nil_iff.mp left
      refine ⟨value, found, fun other member => ?_, earlier⟩
      obtain ⟨before, inside, rfl⟩ := List.getElem_of_mem member
      exact largest before (by omega) _ (List.getElem?_eq_getElem inside)
  | cons next rest ih =>
      have nextFound : values[place]? = some next := by
        rw [← Nat.add_zero place, ← List.getElem?_drop, left]
        rfl
      have restLeft : values.drop (place + 1) = rest := by
        rw [← List.drop_drop, left]
        rfl
      rw [firstMaximumFrom]
      split
      next greater =>
        have number := (Ordered.isNumber_of_lt greater).1
        refine ih restLeft nextFound (Nat.lt_succ_self _) ?_ ?_
        · intro before isBefore other otherFound
          cases otherNumber : Scalar.isNumber other with
          | false => exact .inr rfl
          | true =>
              have atMost : Scalar.le other value = true := by
                rw [Ordered.le_eq_not_lt otherNumber number,
                  largest before isBefore other otherFound, Bool.not_false]
              exact .inl (Ordered.lt_of_le_of_lt atMost greater)
        · intro before isBefore other otherFound
          rcases Nat.lt_succ_iff_lt_or_eq.mp isBefore with old | rfl
          · rw [Bool.eq_false_iff]
            intro further
            have beyond := Ordered.lt_trans greater further
            rw [largest before old other otherFound] at beyond
            cases beyond
          · rw [nextFound] at otherFound
            rw [Option.some.inj otherFound]
            exact Ordered.lt_irrefl other
      next notGreater =>
        refine ih restLeft found (by omega) earlier ?_
        intro before isBefore other otherFound
        rcases Nat.lt_succ_iff_lt_or_eq.mp isBefore with old | rfl
        · exact largest before old other otherFound
        · rw [nextFound] at otherFound
          obtain rfl := Option.some.inj otherFound
          exact Bool.eq_false_iff.mpr notGreater

theorem isFirstLargest_firstMaximum (nonempty : values ≠ []) :
    IsFirstLargest values (firstMaximum values) := by
  cases values with
  | nil => exact absurd rfl nonempty
  | cons first rest =>
      refine firstMaximumFrom_spec rfl rfl Nat.zero_lt_one ?_ ?_
      · intro before impossible
        cases impossible
      · intro before isFirst other found
        obtain rfl : before = 0 := by omega
        rw [Option.some.inj found]
        exact Ordered.lt_irrefl other

end FirstLargest

/-- A node that counts all labels can be made into a leaf. -/
theorem exists_toLeaf {node : Node α} {labels : List Label} (labelled : labels ≠ [])
    (length : node.counts.length = labels.length) : ∃ leaf, node.toLeaf labels = .ok leaf := by
  have sameLength := (length_distribution node.counts).trans length
  have inside : firstMaximum (distribution node.counts) < labels.length := by
    rw [← sameLength]
    apply firstMaximum_lt
    apply List.ne_nil_of_length_pos
    rw [sameLength]
    exact List.length_pos_iff.mpr labelled
  simp only [toLeaf, List.getElem?_eq_getElem inside]
  exact ⟨_, rfl⟩

/-- A leaf is made from the statistics of its node. -/
theorem toLeaf_congr {node other : Node α} (counts : other.counts = node.counts)
    (impurity : other.impurity = node.impurity) (labels : List Label) :
    other.toLeaf labels = node.toLeaf labels := by
  simp only [toLeaf, counts, impurity]

/-- What a leaf takes over from its node. -/
theorem of_toLeaf {node : Node α} {labels : List Label} {leaf : Leaf α}
    (made : node.toLeaf labels = .ok leaf) :
    leaf.impurity = node.impurity ∧ leaf.distribution = distribution node.counts ∧
      leaf.labelId = firstMaximum (distribution node.counts) := by
  simp only [toLeaf] at made
  split at made
  next => cases made
  next label found =>
    obtain rfl := Except.ok.inj made
    exact ⟨rfl, rfl, rfl⟩

end Node

namespace Forest

omit [Scalar α] in
/-- The node at the end of a path that starts at a node. -/
def descend (forest : Forest α) : Nat → List Bool → Option Nat
  | id, [] => some id
  | id, goesLeft :: path =>
      match forest.slots[id]? with
      | some { node := _, children := some (left, right) } =>
          forest.descend (if goesLeft then left else right) path
      | _ => none

variable {forest : Forest α} {labels : List Label} {id left right steps : Nat} {node : Node α}
variable {tree : Tree α}

/-- A node without children becomes a leaf. -/
theorem treeWithin_of_leaf (found : forest.slots[id]? = some { node, children := none }) :
    forest.treeWithin labels (steps + 1) id = .ok tree ↔
      ∃ leaf, node.toLeaf labels = .ok leaf ∧ tree = .leaf leaf := by
  rw [treeWithin, slot_eq found]
  simp only [bind, Except.bind]
  cases node.toLeaf labels with
  | error error =>
      constructor
      · intro impossible
        cases impossible
      · rintro ⟨leaf, impossible, -⟩
        cases impossible
  | ok leaf =>
      constructor
      · intro same
        exact ⟨leaf, rfl, (Except.ok.inj same).symm⟩
      · rintro ⟨other, same, rfl⟩
        rw [Except.ok.inj same]
        rfl

/-- A node with children becomes a split. -/
theorem treeWithin_of_split {cut : Cut α}
    (found : forest.slots[id]? = some { node, children := some (left, right) })
    (cutEq : node.cut = some cut) :
    forest.treeWithin labels (steps + 1) id = .ok tree ↔
      ∃ below above, forest.treeWithin labels steps left = .ok below ∧
        forest.treeWithin labels steps right = .ok above ∧
          tree = .split cut.feature cut.threshold node.impurity below above := by
  rw [treeWithin, slot_eq found]
  simp only [bind, Except.bind, cutEq]
  cases forest.treeWithin labels steps left with
  | error error =>
      constructor
      · intro impossible
        cases impossible
      · rintro ⟨below, above, impossible, -⟩
        cases impossible
  | ok below =>
      cases forest.treeWithin labels steps right with
      | error error =>
          constructor
          · intro impossible
            cases impossible
          · rintro ⟨below, above, -, impossible, -⟩
            cases impossible
      | ok above =>
          constructor
          · intro same
            exact ⟨below, above, rfl, rfl, (Except.ok.inj same).symm⟩
          · rintro ⟨first, second, firstEq, secondEq, rfl⟩
            obtain rfl := Except.ok.inj firstEq
            obtain rfl := Except.ok.inj secondEq
            rfl

end Forest

variable {ground : Ground α} {forest : Forest α} {origins : List (Origin α)} {labels : List Label}

/-- A sound forest can be converted if its nodes can be made into leaves. -/
theorem Forest.Sound.exists_tree (sound : forest.Sound ground origins)
    (leaves : ∀ (id : Nat) (slot : Slot α), forest.slots[id]? = some slot →
      ∃ leaf, slot.node.toLeaf labels = .ok leaf)
    {id steps : Nat} (inside : id < forest.size) (enough : forest.size ≤ id + steps) :
    ∃ tree, forest.treeWithin labels steps id = .ok tree := by
  induction steps generalizing id with
  | zero => omega
  | succ steps ih =>
      have found : forest.slots[id]? = some (forest.slots.get ⟨id, inside⟩) :=
        List.getElem?_eq_getElem inside
      generalize forest.slots.get ⟨id, inside⟩ = slot at found
      obtain ⟨origin, originFound⟩ := sound.exists_origin found
      obtain ⟨node, children⟩ := slot
      cases children with
      | none =>
          obtain ⟨leaf, leafEq⟩ := leaves id _ found
          exact ⟨.leaf leaf, (treeWithin_of_leaf found).mpr ⟨leaf, leafEq, rfl⟩⟩
      | some pair =>
          obtain ⟨left, right⟩ := pair
          obtain ⟨-, cut, column, place, lower, upper, branching⟩ :=
            sound.exists_branching found originFound
          obtain ⟨below, belowFound, -⟩ := branching.left_origin
          obtain ⟨above, aboveFound, -⟩ := branching.right_origin
          have leftInside := (List.getElem?_eq_some_iff.mp belowFound).1
          have rightInside := (List.getElem?_eq_some_iff.mp aboveFound).1
          rw [sound.length_eq] at leftInside rightInside
          have later := branching.left_gt
          have next := branching.right_eq
          obtain ⟨first, firstEq⟩ := ih leftInside (by omega)
          obtain ⟨second, secondEq⟩ := ih rightInside (by omega)
          exact ⟨_, (treeWithin_of_split found branching.cut_eq).mpr
            ⟨first, second, firstEq, secondEq, rfl⟩⟩

variable [Scalar.Ordered α] {policy : Policy α} {dataset : Dataset α} {rows : List (List α)}

omit [Scalar.Ordered α] in
/-- The value that a split asks a row for. -/
theorem get?_row (fromRows : dataset.FromRows rows) {feature : Int} (nonneg : 0 ≤ feature)
    (isFeature : feature.toNat < dataset.features.size) {index : Int}
    (inRange : 0 ≤ index ∧ index < dataset.size) :
    Position.get? (rows.getD index.toNat []) feature =
      some (Dataset.cell rows feature.toNat index) := by
  rw [fromRows.size_eq] at inRange
  have isRow : index.toNat < rows.length := by omega
  have width := fromRows.length_row _ (List.getElem_mem isRow)
  have isCell : feature.toNat < rows[index.toNat].length := by omega
  have looked := Position.get?_ofNat rows[index.toNat] feature.toNat
  rw [Int.toNat_of_nonneg nonneg] at looked
  simp [Dataset.cell, isRow, isCell, looked]

/-- The examples of the children of a node are those of its own that go to their side. -/
theorem Branching.side_iff {origins : List (Origin α)} {id left right place : Nat} {node : Node α}
    {origin : Origin α} {cut : Cut α} {column : Column α} {lower upper : Entry α}
    (fromRows : dataset.FromRows rows) (originSound : origin.Sound (groundOf policy dataset rows))
    (branching : Branching (groundOf policy dataset rows) origins id node origin left right cut
      column place lower upper)
    (separates : Scalar.Separates lower.value cut.threshold upper.value) :
    ∃ less greater, origins[left]? = some less ∧ origins[right]? = some greater ∧
      (less.ids ++ greater.ids).Perm origin.ids ∧
      ∀ (index : Int) (goesLeft : Bool), index ∈ (if goesLeft then less else greater).ids ↔
        index ∈ origin.ids ∧
          Scalar.le (Dataset.cell rows cut.feature.toNat index) cut.threshold = goesLeft := by
  obtain ⟨less, greater, lessFound, greaterFound, whole, coincide⟩ :=
    branching.coincide_iff fromRows originSound
  have coincide := coincide.mpr separates
  obtain ⟨-, -, apart⟩ := List.nodup_append.mp (whole.nodup_iff.mpr originSound.nodup)
  refine ⟨less, greater, lessFound, greaterFound, whole, fun index goesLeft => ?_⟩
  rw [← whole.mem_iff, List.mem_append]
  cases goesLeft with
  | true =>
      constructor
      · intro isLess
        exact ⟨.inl isLess, (coincide.routed index (.inl isLess)).mpr isLess⟩
      · rintro ⟨either, goes⟩
        exact (coincide.routed index either).mp goes
  | false =>
      constructor
      · intro isGreater
        refine ⟨.inr isGreater, Bool.eq_false_iff.mpr fun goes => ?_⟩
        exact apart index ((coincide.routed index (.inr isGreater)).mp goes) index isGreater rfl
      · rintro ⟨isLess | isGreater, stays⟩
        · rw [(coincide.routed index (.inl isLess)).mpr isLess] at stays
          cases stays
        · exact isGreater

omit [Scalar.Ordered α] in
/-- The value that a division asks its examples for. -/
theorem Branching.get?_row {origins : List (Origin α)} {id left right place : Nat} {node : Node α}
    {origin : Origin α} {cut : Cut α} {column : Column α} {lower upper : Entry α}
    (fromRows : dataset.FromRows rows) (originSound : origin.Sound (groundOf policy dataset rows))
    (branching : Branching (groundOf policy dataset rows) origins id node origin left right cut
      column place lower upper) {index : Int} (member : index ∈ origin.ids) :
    Position.get? (rows.getD index.toNat []) cut.feature =
      some (Dataset.cell rows cut.feature.toNat index) :=
  have between := branching.division.between
  Growth.get?_row fromRows between.nonneg (originSound.feature_lt between)
    (originSound.inRange index member)

/-- The rows that take a path through a split are those of the examples of a child that take the
rest of the path from there. -/
theorem Branching.route_iff {origins : List (Origin α)} {id left right place : Nat} {node : Node α}
    {origin : Origin α} {cut : Cut α} {column : Column α} {lower upper : Entry α}
    (fromRows : dataset.FromRows rows) (originSound : origin.Sound (groundOf policy dataset rows))
    (branching : Branching (groundOf policy dataset rows) origins id node origin left right cut
      column place lower upper)
    (separates : Scalar.Separates lower.value cut.threshold upper.value) (below above : Tree α) :
    ∃ less greater, origins[left]? = some less ∧ origins[right]? = some greater ∧
      (less.ids ++ greater.ids).Perm origin.ids ∧
      ∀ (index : Int) (goesLeft : Bool) (path : List Bool),
        index ∈ (if goesLeft then less else greater).ids ∧
            (if goesLeft then below else above).route? (rows.getD index.toNat []) = some path ↔
          index ∈ origin.ids ∧
            (Tree.split cut.feature cut.threshold node.impurity below above).route?
              (rows.getD index.toNat []) = some (goesLeft :: path) := by
  obtain ⟨less, greater, lessFound, greaterFound, whole, side⟩ :=
    branching.side_iff fromRows originSound separates
  refine ⟨less, greater, lessFound, greaterFound, whole, fun index goesLeft path => ?_⟩
  rw [side, and_assoc]
  refine and_congr_right fun member => ?_
  exact (Tree.route?_split (branching.get?_row fromRows originSound member) goesLeft path).symm

/-- What holds of leaves, and of a split if it holds of its two sides, holds of a tree and the node
that it was made from. -/
theorem Forest.Sound.tree_induction (sound : forest.Sound (groundOf policy dataset rows) origins)
    (fromRows : dataset.FromRows rows) (separated : (groundOf policy dataset rows).Separated)
    {motive : Nat → Origin α → Tree α → Prop}
    (leaf : ∀ {id : Nat} {node : Node α} {origin : Origin α} {made : Leaf α},
      forest.slots[id]? = some { node, children := none } → origins[id]? = some origin →
        node.toLeaf labels = .ok made → motive id origin (.leaf made))
    (split : ∀ {id left right place : Nat} {node : Node α} {origin less greater : Origin α}
      {cut : Cut α} {column : Column α} {lower upper : Entry α} {below above : Tree α},
      forest.slots[id]? = some { node, children := some (left, right) } →
      origins[id]? = some origin → origin.Sound (groundOf policy dataset rows) →
      Branching (groundOf policy dataset rows) origins id node origin left right cut column place
        lower upper →
      origins[left]? = some less → origins[right]? = some greater →
      (less.ids ++ greater.ids).Perm origin.ids →
      (∀ (index : Int) (goesLeft : Bool) (path : List Bool),
        index ∈ (if goesLeft then less else greater).ids ∧
            (if goesLeft then below else above).route? (rows.getD index.toNat []) = some path ↔
          index ∈ origin.ids ∧
            (Tree.split cut.feature cut.threshold node.impurity below above).route?
              (rows.getD index.toNat []) = some (goesLeft :: path)) →
      motive left less below → motive right greater above →
        motive id origin (.split cut.feature cut.threshold node.impurity below above))
    {id steps : Nat} {tree : Tree α} {origin : Origin α}
    (converted : forest.treeWithin labels steps id = .ok tree)
    (originFound : origins[id]? = some origin) : motive id origin tree := by
  induction steps generalizing id tree origin with
  | zero => cases converted
  | succ steps ih =>
      obtain ⟨⟨node, children⟩, found⟩ := sound.exists_slot originFound
      cases children with
      | none =>
          obtain ⟨made, madeEq, rfl⟩ := (treeWithin_of_leaf found).mp converted
          exact leaf found originFound madeEq
      | some pair =>
          obtain ⟨left, right⟩ := pair
          obtain ⟨originSound, cut, column, place, lower, upper, branching⟩ :=
            sound.exists_branching found originFound
          obtain ⟨below, above, belowEq, aboveEq, rfl⟩ :=
            (treeWithin_of_split found branching.cut_eq).mp converted
          obtain ⟨less, greater, lessFound, greaterFound, whole, route⟩ :=
            branching.route_iff fromRows originSound (separated originSound branching) below above
          exact split found originFound originSound branching lessFound greaterFound whole route
            (ih belowEq lessFound) (ih aboveEq greaterFound)

/-- The leaf at the end of a path is made from the node at the end of the path in the forest, and
the examples of that node are the rows that take the path. -/
theorem Forest.Sound.leaf_examples (sound : forest.Sound (groundOf policy dataset rows) origins)
    (fromRows : dataset.FromRows rows)
    (separated : (groundOf policy dataset rows).Separated)
    {path : List Bool} {id steps : Nat} {tree : Tree α} {leaf : Leaf α} {origin : Origin α}
    (converted : forest.treeWithin labels steps id = .ok tree)
    (originFound : origins[id]? = some origin) (leafFound : tree.leafAt? path = some leaf) :
    ∃ last node own, forest.descend id path = some last ∧
      forest.slots[last]? = some { node, children := none } ∧ origins[last]? = some own ∧
      node.toLeaf labels = .ok leaf ∧
      ∀ index, index ∈ own.ids ↔
        index ∈ origin.ids ∧ tree.route? (rows.getD index.toNat []) = some path := by
  revert path leaf
  apply sound.tree_induction fromRows separated ?_ ?_ converted originFound
  · intro id node origin made found originFound madeEq path leaf leafFound
    cases path with
    | cons goesLeft path => cases leafFound
    | nil =>
        obtain rfl := Option.some.inj leafFound
        refine ⟨id, node, origin, rfl, found, originFound, madeEq, fun index => ?_⟩
        exact ⟨fun member => ⟨member, rfl⟩, And.left⟩
  · intro id left right place node origin less greater cut column lower upper below above found _ _
      _ _ _ _ route leftIh rightIh path leaf leafFound
    cases path with
    | nil => cases leafFound
    | cons goesLeft path =>
        have own : ∃ last node own,
            forest.descend (if goesLeft then left else right) path = some last ∧
              forest.slots[last]? = some { node, children := none } ∧
              origins[last]? = some own ∧ node.toLeaf labels = .ok leaf ∧
              ∀ index, index ∈ own.ids ↔ index ∈ (if goesLeft then less else greater).ids ∧
                (if goesLeft then below else above).route? (rows.getD index.toNat []) =
                  some path := by
          cases goesLeft with
          | true => exact leftIh leafFound
          | false => exact rightIh leafFound
        obtain ⟨last, final, own, descends, ending, ownFound, leafEq, routed⟩ := own
        refine ⟨last, final, own, ?_, ending, ownFound, leafEq, fun index => ?_⟩
        · rw [descend, found]
          exact descends
        · rw [routed index, route index goesLeft path]

omit [Scalar.Ordered α] in
/-- The histogram of a node has a place for each label. -/
theorem Slot.Sound.length_counts {id : Nat} {slot : Slot α} {origin : Origin α}
    (sound : slot.Sound ground origins id origin) :
    slot.node.counts.length = ground.targets.labelCount := by
  rw [sound.counts_eq, Origin.counts]
  split
  · exact Targets.length_tally _ _
  next notRoot =>
    obtain ⟨column, rest, whole⟩ := List.exists_cons_of_ne_nil (sound.columns_ne_nil notRoot)
    rw [whole]
    exact (sound.origin_sound.columnsOf.describes 0 column (by rw [whole]; rfl)).length_counts

/-- The forest can be converted at any time. -/
theorem Course.exists_tree {σ : Type} {draws : Draws σ} {source : σ} {state : State α σ}
    (fromRows : dataset.FromRows rows) (bounded : draws.Bounded)
    (course : Course policy draws dataset source state origins)
    (nonempty : dataset.examples ≠ []) :
    ∃ tree, state.forest.toTree dataset.labels.labels 0 = .ok tree := by
  have sound := (course.sound fromRows bounded).forest_sound
  have leaves : ∀ (id : Nat) (slot : Slot α), state.forest.slots[id]? = some slot →
      ∃ leaf, slot.node.toLeaf dataset.labels.labels = .ok leaf := by
    intro id slot found
    obtain ⟨origin, originFound⟩ := sound.exists_origin found
    exact Node.exists_toLeaf (fromRows.labels_ne_nil nonempty)
      (sound.slots id slot origin found originFound).length_counts
  obtain ⟨root, rootFound, -⟩ := course.root_origin
  have inside := (List.getElem?_eq_some_iff.mp rootFound).1
  rw [sound.length_eq] at inside
  exact sound.exists_tree leaves inside (Nat.le_add_left _ _)

end Growth

end DecisionTree
