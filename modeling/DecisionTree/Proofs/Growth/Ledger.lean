import DecisionTree.Growth.Run
import DecisionTree.Proofs.Growth.Forest
import DecisionTree.Proofs.Growth.Split

/-!
# The ledger of a growing forest

A node releases its columns once it has been searched, so a forest does not remember which
examples its nodes stand for.  The ledger does: for every node it lists the columns that the
node came into being with, and the ids of its examples (`Origin`).

`Forest.Sound` says how the nodes of a forest fit their ledger.  It is kept when a node is released
(`Forest.Sound.release`) and when a node is divided at an accepted cut (`Forest.Sound.branch`),
and these are the only changes that growth makes.
-/

namespace DecisionTree.Growth

variable {α : Type} [Scalar α]

/-- What a forest is grown from: labels, weights and values of a number of examples, and the
rules by which a split is scored and accepted. -/
structure Ground (α : Type) where
  targets : Targets α
  /-- The value of a feature in an example. -/
  value : Nat → Int → α
  width : Nat
  count : Nat
  measure : Measure α
  least : α

namespace Ground

/-- The ids of all examples. -/
def ids (ground : Ground α) : List Int :=
  (List.range ground.count).map Int.ofNat

/-- Whether an example goes to the left at a cut. -/
def goesLeft (ground : Ground α) (cut : Cut α) : Int → Bool :=
  Growth.goesLeft cut.threshold (ground.value cut.feature.toNat)

end Ground

/-- What a node came into being with. -/
structure Origin (α : Type) where
  columns : List (Column α)
  ids : List Int

/-- The entry of a new node in the ledger; its examples are those of its first column. -/
def Slot.origin (slot : Slot α) : Origin α where
  columns := slot.node.columns.getD []
  ids := ((slot.node.columns.getD []).head?.map Column.indices).getD []

variable {ground : Ground α} {forest : Forest α} {origins : List (Origin α)}

/-- The columns of an entry of the ledger hold the same known examples, each once. -/
structure Origin.Sound (ground : Ground α) (origin : Origin α) : Prop where
  columnsOf : ColumnsOf ground.targets ground.value ground.width origin.ids origin.columns
  nodup : origin.ids.Nodup
  inRange : Targets.InRange ground.count origin.ids

/-- The histogram that a node came into being with: of the whole dataset for the root, and of
the first column for all others. -/
def Origin.counts (ground : Ground α) (id : Nat) (origin : Origin α) : List α :=
  if id = 0 then ground.targets.tally ground.ids
  else (origin.columns.head?.map Column.counts).getD []

/-- How a node with children was divided between them. -/
structure Branching (ground : Ground α) (origins : List (Origin α)) (id : Nat) (node : Node α)
    (origin : Origin α) (left right : Nat) (cut : Cut α) (column : Column α) (place : Nat)
    (lower upper : Entry α) : Prop where
  cut_eq : node.cut = some cut
  division : Division ground.measure ground.least node origin.columns cut column place lower upper
  rewarded : Rewarded ground.measure ground.least node column place
  left_gt : id < left
  right_eq : right = left + 1
  left_origin : ∃ child, origins[left]? = some child ∧
    child.columns = origin.columns.map (Column.keep (ground.goesLeft cut)) ∧
    child.ids.Perm (origin.ids.filter (ground.goesLeft cut))
  right_origin : ∃ child, origins[right]? = some child ∧
    child.columns = origin.columns.map (Column.keep fun index => !ground.goesLeft cut index) ∧
    child.ids.Perm (origin.ids.filter fun index => !ground.goesLeft cut index)

/-- A node fits its entry in the ledger, and its children fit theirs. -/
structure Slot.Sound (ground : Ground α) (origins : List (Origin α)) (id : Nat) (slot : Slot α)
    (origin : Origin α) : Prop where
  origin_sound : origin.Sound ground
  columns_eq : ∀ columns, slot.node.columns = some columns → columns = origin.columns
  columns_ne_nil : id ≠ 0 → origin.columns ≠ []
  exampleCount_eq : slot.node.exampleCount = origin.ids.length
  counts_eq : slot.node.counts = origin.counts ground id
  impurity_eq : slot.node.impurity = ground.measure.impurity slot.node.counts
  branching : ∀ left right, slot.children = some (left, right) →
    ∃ cut column place lower upper,
      Branching ground origins id slot.node origin left right cut column place lower upper

/-- A node without children and its entry in the ledger. -/
def IsLeaf (forest : Forest α) (origins : List (Origin α)) (id : Nat) (origin : Origin α) : Prop :=
  ∃ node, forest.slots[id]? = some { node, children := none } ∧ origins[id]? = some origin

/-- Every node fits its entry in the ledger, every node but the root is a child, and the leaves
share all examples among them. -/
structure Forest.Sound (ground : Ground α) (forest : Forest α) (origins : List (Origin α)) :
    Prop where
  length_eq : origins.length = forest.size
  slots : ∀ (id : Nat) (slot : Slot α) (origin : Origin α), forest.slots[id]? = some slot →
    origins[id]? = some origin → slot.Sound ground origins id origin
  size_eq : forest.size = 2 * forest.splitCount + 1
  child : ∀ id, id ≠ 0 → id < forest.size → ∃ (parent : Nat) (node : Node α) (left right : Nat),
    forest.slots[parent]? = some { node, children := some (left, right) } ∧
      (id = left ∨ id = right)
  disjoint : ∀ (first second : Nat) (origin other : Origin α),
    IsLeaf forest origins first origin → IsLeaf forest origins second other → first ≠ second →
      ∀ index ∈ origin.ids, index ∉ other.ids
  cover : ∀ index, index ∈ ground.ids ↔
    ∃ id origin, IsLeaf forest origins id origin ∧ index ∈ origin.ids

/-- An entry stays valid when the ledger grows. -/
theorem Slot.Sound.append {id : Nat} {slot : Slot α} {origin : Origin α}
    (sound : slot.Sound ground origins id origin) (more : List (Origin α)) :
    slot.Sound ground (origins ++ more) id origin := by
  refine { sound with branching := fun left right children => ?_ }
  obtain ⟨cut, column, place, lower, upper, branching⟩ := sound.branching left right children
  have grown : ∀ {place : Nat} {child : Origin α}, origins[place]? = some child →
      (origins ++ more)[place]? = some child := by
    intro place child found
    rw [List.getElem?_append_left (List.getElem?_eq_some_iff.mp found).1, found]
  obtain ⟨leftChild, leftFound, leftProperties⟩ := branching.left_origin
  obtain ⟨rightChild, rightFound, rightProperties⟩ := branching.right_origin
  exact ⟨cut, column, place, lower, upper, { branching with
    left_origin := ⟨leftChild, grown leftFound, leftProperties⟩
    right_origin := ⟨rightChild, grown rightFound, rightProperties⟩ }⟩

/-- A cut between two entries of a column is a cut of a feature. -/
theorem Origin.Sound.feature_lt {origin : Origin α} (sound : origin.Sound ground) {cut : Cut α}
    {column : Column α} {place : Nat} {lower upper : Entry α}
    (between : cut.Between origin.columns column place lower upper) :
    cut.feature.toNat < ground.width := by
  have inside := (List.getElem?_eq_some_iff.mp between.column_eq).1
  rwa [sound.columnsOf.length_eq] at inside

namespace Forest.Sound

variable {id : Nat} {slot : Slot α} {origin : Origin α} {node : Node α}

theorem exists_origin (sound : forest.Sound ground origins)
    (found : forest.slots[id]? = some slot) : ∃ origin, origins[id]? = some origin := by
  have inside := Forest.lt_size found
  rw [← sound.length_eq] at inside
  exact ⟨origins[id], List.getElem?_eq_getElem inside⟩

theorem exists_slot (sound : forest.Sound ground origins)
    (found : origins[id]? = some origin) : ∃ slot, forest.slots[id]? = some slot := by
  have inside := (List.getElem?_eq_some_iff.mp found).1
  rw [sound.length_eq] at inside
  exact ⟨_, List.getElem?_eq_getElem inside⟩

/-- Every node but the root has a parent, and so does its entry in the ledger. -/
theorem exists_parent (sound : forest.Sound ground origins) (found : origins[id]? = some origin)
    (notRoot : id ≠ 0) : ∃ (parent : Nat) (node : Node α) (left right : Nat) (own : Origin α),
      forest.slots[parent]? = some { node, children := some (left, right) } ∧
      origins[parent]? = some own ∧ (id = left ∨ id = right) := by
  obtain ⟨slot, slotFound⟩ := sound.exists_slot found
  obtain ⟨parent, node, left, right, parentFound, isChild⟩ :=
    sound.child id notRoot (Forest.lt_size slotFound)
  obtain ⟨own, ownFound⟩ := sound.exists_origin parentFound
  exact ⟨parent, node, left, right, own, parentFound, ownFound, isChild⟩

/-- A node with children was divided between them. -/
theorem exists_branching (sound : forest.Sound ground origins) {left right : Nat}
    (found : forest.slots[id]? = some { node, children := some (left, right) })
    (originFound : origins[id]? = some origin) :
    origin.Sound ground ∧ ∃ cut column place lower upper,
      Branching ground origins id node origin left right cut column place lower upper := by
  have slotSound := sound.slots id _ origin found originFound
  exact ⟨slotSound.origin_sound, slotSound.branching left right rfl⟩

/-- Releasing a node keeps a forest sound. -/
theorem release (sound : forest.Sound ground origins) (found : forest.slots[id]? = some slot) :
    (forest.setNode id slot.node.release).Sound ground origins := by
  have isLeaf : ∀ place origin, IsLeaf (forest.setNode id slot.node.release) origins place origin ↔
      IsLeaf forest origins place origin := by
    intro place origin
    simp only [IsLeaf, Forest.getElem?_setNode]
    by_cases own : id = place
    · subst own
      obtain ⟨node, children⟩ := slot
      simp [found]
    · simp [own]
  constructor
  · rw [sound.length_eq, Forest.size_setNode]
  · intro place other origin otherFound originFound
    rw [Forest.getElem?_setNode] at otherFound
    split at otherFound
    next own =>
      subst own
      rw [found] at otherFound
      obtain rfl := Option.some.inj otherFound
      have own := sound.slots id slot origin found originFound
      exact {
        origin_sound := own.origin_sound
        columns_eq := fun columns impossible => by cases impossible
        columns_ne_nil := own.columns_ne_nil
        exampleCount_eq := own.exampleCount_eq
        counts_eq := own.counts_eq
        impurity_eq := own.impurity_eq
        branching := fun left right children => by
          obtain ⟨cut, column, place, lower, upper, branching⟩ := own.branching left right children
          exact ⟨cut, column, place, lower, upper,
            { branching with
              division := branching.division.congr rfl rfl
              rewarded := branching.rewarded.congr rfl rfl }⟩ }
    next => exact sound.slots place other origin otherFound originFound
  · rw [Forest.size_setNode, sound.size_eq, Forest.splitCount_setNode]
  · intro place notRoot inside
    rw [Forest.size_setNode] at inside
    obtain ⟨parent, node, left, right, parentFound, isChild⟩ := sound.child place notRoot inside
    have children := forest.children_setNode id slot.node.release parent
    rw [parentFound] at children
    obtain ⟨⟨changed, _⟩, changedFound, rfl⟩ := Option.map_eq_some_iff.mp children
    exact ⟨parent, changed, left, right, changedFound, isChild⟩
  · intro first second origin other firstLeaf secondLeaf
    exact sound.disjoint first second origin other ((isLeaf _ _).mp firstLeaf)
      ((isLeaf _ _).mp secondLeaf)
  · intro index
    rw [sound.cover index]
    simp only [isLeaf]

/-- The child that holds some of the examples of a node fits its entry in the ledger. -/
theorem origin_part (originSound : origin.Sound ground) (columns : origin.columns ≠ [])
    (node : Node α) (chosen : Int → Bool) (count : Nat) :
    let child := (Slot.mk (node.part ground.measure origin.columns chosen count) none).origin
    child.columns = origin.columns.map (Column.keep chosen) ∧
      child.ids.Perm (origin.ids.filter chosen) ∧ child.Sound ground := by
  intro child
  have columnsEq : child.columns = origin.columns.map (Column.keep chosen) := rfl
  obtain ⟨column, rest, whole⟩ := List.exists_cons_of_ne_nil columns
  have idsEq : child.ids = column.indices.filter chosen := by
    simp only [child, Slot.origin, Node.part, Node.ofColumns, Node.ofCounts, Option.getD_some,
      whole, List.map_cons, List.head?_cons, Option.map_some, Column.indices_keep]
  have describes := originSound.columnsOf.describes 0 column (by rw [whole]; rfl)
  have perm : child.ids.Perm (origin.ids.filter chosen) := by
    rw [idsEq]
    exact describes.perm.filter chosen
  refine ⟨columnsEq, perm, ?_, ?_, ?_⟩
  · rw [columnsEq]
    exact (originSound.columnsOf.keep chosen).congr perm.symm
  · exact perm.nodup_iff.mpr (originSound.nodup.filter chosen)
  · exact originSound.inRange.of_subset fun index member =>
      List.mem_of_mem_filter (perm.mem_iff.mp member)

/-- The child that holds some of the examples of a node is a sound slot. -/
theorem slot_part (originSound : origin.Sound ground) (columns : origin.columns ≠ [])
    (node : Node α) (chosen : Int → Bool) {count place : Nat} (positive : place ≠ 0)
    (counted : count = (origin.ids.filter chosen).length) (ledger : List (Origin α)) :
    let slot := Slot.mk (node.part ground.measure origin.columns chosen count) none
    slot.Sound ground ledger place slot.origin := by
  intro slot
  obtain ⟨columnsEq, perm, sound⟩ := origin_part originSound columns node chosen count
  refine { origin_sound := sound, columns_eq := ?_, columns_ne_nil := ?_, exampleCount_eq := ?_,
           counts_eq := ?_, impurity_eq := rfl, branching := ?_ }
  · intro others found
    rw [columnsEq]
    exact (Option.some.inj found).symm
  · intro _ empty
    rw [columnsEq] at empty
    exact columns (List.map_eq_nil_iff.mp empty)
  · rw [perm.length_eq, ← counted]
    rfl
  · rw [Origin.counts, if_neg positive, columnsEq]
    rfl
  · intro left right impossible
    cases impossible

variable {cut : Cut α} {column : Column α} {place : Nat} {lower upper : Entry α}

/-- A divided node fits its entry still, and its children fit those that are added to the ledger. -/
theorem slot_divided {left right : Node α}
    (own : (Slot.mk node none).Sound ground origins id origin) (old : id < origins.length)
    (division : Division ground.measure ground.least node origin.columns cut column place
      lower upper)
    (rewarded : Rewarded ground.measure ground.least node column place)
    (leftColumns : (Slot.mk left none).origin.columns =
      origin.columns.map (Column.keep (ground.goesLeft cut)))
    (leftIds : (Slot.mk left none).origin.ids.Perm (origin.ids.filter (ground.goesLeft cut)))
    (rightColumns : (Slot.mk right none).origin.columns =
      origin.columns.map (Column.keep fun index => !ground.goesLeft cut index))
    (rightIds : (Slot.mk right none).origin.ids.Perm
      (origin.ids.filter fun index => !ground.goesLeft cut index)) :
    (Slot.mk { node with cut := some cut, columns := none }
        (some (origins.length, origins.length + 1))).Sound ground
      (origins ++ [(Slot.mk left none).origin, (Slot.mk right none).origin]) id origin := by
  refine { own with
    columns_eq := fun columns impossible => by cases impossible
    branching := fun first second children => ?_ }
  obtain ⟨rfl, rfl⟩ := (Prod.mk.injEq ..).mp (Option.some.inj children)
  refine ⟨cut, column, place, lower, upper, rfl, division.congr rfl rfl, rewarded.congr rfl rfl,
    old, rfl, ⟨_, ?_, leftColumns, leftIds⟩, ⟨_, ?_, rightColumns, rightIds⟩⟩
  · rw [getElem?_append_pair, if_pos rfl]
  · rw [getElem?_append_pair, if_neg (by omega), if_pos rfl]

/-- The leaves after a division: the children in place of the node. -/
theorem isLeaf_branch (sound : forest.Sound ground origins) (inside : id < forest.size)
    (after left right : Node α) {leaf : Nat} {child : Origin α} :
    IsLeaf (forest.branch id after left right)
        (origins ++ [(Slot.mk left none).origin, (Slot.mk right none).origin]) leaf child ↔
      (leaf ≠ id ∧ IsLeaf forest origins leaf child) ∨
        (leaf = forest.size ∧ child = (Slot.mk left none).origin) ∨
        (leaf = forest.size + 1 ∧ child = (Slot.mk right none).origin) := by
  have length : origins.length = forest.size := sound.length_eq
  simp only [IsLeaf, Forest.getElem?_branch inside, getElem?_append_pair, length]
  by_cases own : leaf = id
  · subst own
    have notFirst : leaf ≠ forest.size := by omega
    have notSecond : leaf ≠ forest.size + 1 := by omega
    simp [notFirst, notSecond]
  · by_cases first : leaf = forest.size
    · subst first
      have absent : forest.slots[forest.size]? = none := List.getElem?_eq_none (Nat.le_refl _)
      simp [own, absent, eq_comm]
    · by_cases second : leaf = forest.size + 1
      · subst second
        have absent : forest.slots[forest.size + 1]? = none :=
          List.getElem?_eq_none (Nat.le_succ _)
        simp [own, absent, eq_comm]
      · simp [own, first, second]

/-- After a division every node fits its entry, once the divided node and its children do. -/
theorem slots_branch (sound : forest.Sound ground origins) (inside : id < forest.size)
    (originFound : origins[id]? = some origin) {after left right : Node α}
    (own : (Slot.mk after (some (forest.size, forest.size + 1))).Sound ground
      (origins ++ [(Slot.mk left none).origin, (Slot.mk right none).origin]) id origin)
    (first : (Slot.mk left none).Sound ground
      (origins ++ [(Slot.mk left none).origin, (Slot.mk right none).origin]) forest.size
      (Slot.mk left none).origin)
    (second : (Slot.mk right none).Sound ground
      (origins ++ [(Slot.mk left none).origin, (Slot.mk right none).origin]) (forest.size + 1)
      (Slot.mk right none).origin)
    (other : Nat) (slot : Slot α) (entry : Origin α)
    (slotFound : (forest.branch id after left right).slots[other]? = some slot)
    (entryFound : (origins ++ [(Slot.mk left none).origin, (Slot.mk right none).origin])[other]? =
      some entry) :
    slot.Sound ground (origins ++ [(Slot.mk left none).origin, (Slot.mk right none).origin])
      other entry := by
  have length : origins.length = forest.size := sound.length_eq
  rw [Forest.getElem?_branch inside] at slotFound
  split at slotFound
  next isOwn =>
    subst isOwn
    rw [List.getElem?_append_left (by omega), originFound] at entryFound
    obtain rfl := Option.some.inj entryFound
    obtain rfl := Option.some.inj slotFound
    exact own
  next =>
  split at slotFound
  next isFirst =>
    subst isFirst
    rw [getElem?_append_pair, if_pos length.symm] at entryFound
    obtain rfl := Option.some.inj slotFound
    obtain rfl := Option.some.inj entryFound
    exact first
  next =>
  split at slotFound
  next isSecond =>
    subst isSecond
    rw [getElem?_append_pair, if_neg (by omega), if_pos (by omega)] at entryFound
    obtain rfl := Option.some.inj slotFound
    obtain rfl := Option.some.inj entryFound
    exact second
  next =>
    have old := Forest.lt_size slotFound
    rw [List.getElem?_append_left (by omega)] at entryFound
    exact (sound.slots other slot entry slotFound entryFound).append _

/-- After a division every node but the root is a child. -/
theorem child_branch (sound : forest.Sound ground origins)
    (found : forest.slots[id]? = some { node, children := none }) (after first second : Node α)
    (other : Nat) (notRoot : other ≠ 0)
    (otherInside : other < (forest.branch id after first second).size) :
    ∃ (parent : Nat) (node : Node α) (left right : Nat),
      (forest.branch id after first second).slots[parent]? =
          some { node, children := some (left, right) } ∧
        (other = left ∨ other = right) := by
  have inside := Forest.lt_size found
  rw [Forest.size_branch] at otherInside
  by_cases old : other < forest.size
  · obtain ⟨parent, parentNode, left, right, parentFound, isChild⟩ :=
      sound.child other notRoot old
    have parentInside := Forest.lt_size parentFound
    refine ⟨parent, parentNode, left, right, ?_, isChild⟩
    -- The divided node had no children, so it is not the parent.
    rw [Forest.getElem?_branch inside, if_neg, if_neg (by omega), if_neg (by omega), parentFound]
    rintro rfl
    rw [found] at parentFound
    cases parentFound
  · refine ⟨id, after, forest.size, forest.size + 1, ?_, by omega⟩
    rw [Forest.getElem?_branch inside, if_pos rfl]

section Divided

variable (sound : forest.Sound ground origins)
variable (found : forest.slots[id]? = some { node, children := none })
variable (originFound : origins[id]? = some origin) {left right : Node α} {chosen : Int → Bool}
variable (leftIds : (Slot.mk left none).origin.ids.Perm (origin.ids.filter chosen))
variable (rightIds : (Slot.mk right none).origin.ids.Perm
  (origin.ids.filter fun index => !chosen index))

include sound found originFound leftIds rightIds

/-- If the children share the examples of a leaf, no two leaves share an example. -/
theorem disjoint_branch (after : Node α) (first second : Nat) (entry other : Origin α)
    (firstLeaf : IsLeaf (forest.branch id after left right)
      (origins ++ [(Slot.mk left none).origin, (Slot.mk right none).origin]) first entry)
    (secondLeaf : IsLeaf (forest.branch id after left right)
      (origins ++ [(Slot.mk left none).origin, (Slot.mk right none).origin]) second other)
    (differ : first ≠ second) : ∀ index ∈ entry.ids, index ∉ other.ids := by
  intro index member otherMember
  have inside := Forest.lt_size found
  have leaf : IsLeaf forest origins id origin := ⟨node, found, originFound⟩
  have below : ∀ index ∈ (Slot.mk left none).origin.ids,
      index ∈ origin.ids ∧ chosen index = true := fun index member =>
    List.mem_filter.mp (leftIds.mem_iff.mp member)
  have above : ∀ index ∈ (Slot.mk right none).origin.ids,
      index ∈ origin.ids ∧ (!chosen index) = true := fun index member =>
    List.mem_filter.mp (rightIds.mem_iff.mp member)
  rcases (isLeaf_branch sound inside _ _ _).mp firstLeaf with
    ⟨firstOld, firstLeaf⟩ | ⟨rfl, rfl⟩ | ⟨rfl, rfl⟩ <;>
  rcases (isLeaf_branch sound inside _ _ _).mp secondLeaf with
    ⟨secondOld, secondLeaf⟩ | ⟨rfl, rfl⟩ | ⟨rfl, rfl⟩
  · exact sound.disjoint _ _ _ _ firstLeaf secondLeaf differ index member otherMember
  · exact sound.disjoint _ _ _ _ firstLeaf leaf firstOld index member (below index otherMember).1
  · exact sound.disjoint _ _ _ _ firstLeaf leaf firstOld index member (above index otherMember).1
  · exact sound.disjoint _ _ _ _ secondLeaf leaf secondOld index otherMember (below index member).1
  · exact differ rfl
  · simpa [(below index member).2] using (above index otherMember).2
  · exact sound.disjoint _ _ _ _ secondLeaf leaf secondOld index otherMember (above index member).1
  · simpa [(below index otherMember).2] using (above index member).2
  · exact differ rfl

/-- If the children share the examples of a leaf, the leaves hold the same examples as before. -/
theorem cover_branch (after : Node α) (index : Int) :
    index ∈ ground.ids ↔ ∃ leaf entry, IsLeaf (forest.branch id after left right)
      (origins ++ [(Slot.mk left none).origin, (Slot.mk right none).origin]) leaf entry ∧
        index ∈ entry.ids := by
  have inside := Forest.lt_size found
  rw [sound.cover index]
  constructor
  · rintro ⟨place, entry, entryLeaf, member⟩
    by_cases isOwn : place = id
    · subst isOwn
      obtain ⟨-, -, entryFound⟩ := entryLeaf
      rw [originFound] at entryFound
      obtain rfl := Option.some.inj entryFound
      cases goes : chosen index with
      | true =>
          refine ⟨_, _, (isLeaf_branch sound inside _ _ _).mpr (.inr (.inl ⟨rfl, rfl⟩)), ?_⟩
          exact leftIds.mem_iff.mpr (List.mem_filter.mpr ⟨member, goes⟩)
      | false =>
          refine ⟨_, _, (isLeaf_branch sound inside _ _ _).mpr (.inr (.inr ⟨rfl, rfl⟩)), ?_⟩
          exact rightIds.mem_iff.mpr (List.mem_filter.mpr ⟨member, by simp [goes]⟩)
    · exact ⟨place, entry, (isLeaf_branch sound inside _ _ _).mpr (.inl ⟨isOwn, entryLeaf⟩), member⟩
  · rintro ⟨place, entry, entryLeaf, member⟩
    rcases (isLeaf_branch sound inside _ _ _).mp entryLeaf with ⟨-, old⟩ | ⟨rfl, rfl⟩ | ⟨rfl, rfl⟩
    · exact ⟨place, entry, old, member⟩
    · exact ⟨id, origin, ⟨node, found, originFound⟩,
        List.mem_of_mem_filter (leftIds.mem_iff.mp member)⟩
    · exact ⟨id, origin, ⟨node, found, originFound⟩,
        List.mem_of_mem_filter (rightIds.mem_iff.mp member)⟩

end Divided

/-- Dividing a leaf at an accepted cut keeps a forest sound. -/
theorem branch (sound : forest.Sound ground origins)
    (found : forest.slots[id]? = some { node, children := none })
    (originFound : origins[id]? = some origin)
    (division : Division ground.measure ground.least node origin.columns cut column place
      lower upper)
    (rewarded : Rewarded ground.measure ground.least node column place) :
    let left := node.part ground.measure origin.columns (ground.goesLeft cut)
      (origin.ids.filter (ground.goesLeft cut)).length
    let right := node.part ground.measure origin.columns (fun index => !ground.goesLeft cut index)
      (node.exampleCount - (origin.ids.filter (ground.goesLeft cut)).length)
    (forest.branch id { node with cut := some cut, columns := none } left right).Sound ground
      (origins ++ [(Slot.mk left none).origin, (Slot.mk right none).origin]) := by
  intro left right
  have inside := Forest.lt_size found
  have length : origins.length = forest.size := sound.length_eq
  have own := sound.slots id _ origin found originFound
  have columns : origin.columns ≠ [] := by
    intro empty
    have columnFound := division.between.column_eq
    simp [empty] at columnFound
  obtain ⟨leftColumns, leftIds, -⟩ := origin_part own.origin_sound columns node
    (ground.goesLeft cut) (origin.ids.filter (ground.goesLeft cut)).length
  obtain ⟨rightColumns, rightIds, -⟩ := origin_part own.origin_sound columns node
    (fun index => !ground.goesLeft cut index)
    (node.exampleCount - (origin.ids.filter (ground.goesLeft cut)).length)
  have counted : node.exampleCount - (origin.ids.filter (ground.goesLeft cut)).length =
      (origin.ids.filter fun index => !ground.goesLeft cut index).length := by
    have whole := own.exampleCount_eq
    have parts := List.length_eq_length_filter_add (l := origin.ids) (ground.goesLeft cut)
    simp only at whole
    omega
  refine {
    length_eq := ?length_eq
    slots := slots_branch sound inside originFound ?own ?first ?second
    size_eq := ?size_eq
    child := child_branch sound found _ _ _
    disjoint := disjoint_branch sound found originFound leftIds rightIds _
    cover := cover_branch sound found originFound leftIds rightIds _ }
  case length_eq =>
    rw [List.length_append, length, Forest.size_branch]
    rfl
  case own =>
    rw [← length]
    exact slot_divided own (by omega) division rewarded leftColumns leftIds rightColumns rightIds
  case first => exact slot_part own.origin_sound columns node _ (by omega) rfl _
  case second => exact slot_part own.origin_sound columns node _ (Nat.succ_ne_zero _) counted _
  case size_eq =>
    rw [Forest.size_branch, sound.size_eq, Forest.splitCount_branch found rfl]
    omega

end Forest.Sound

end DecisionTree.Growth
