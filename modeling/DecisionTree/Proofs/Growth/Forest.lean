import DecisionTree.Growth.Forest

/-!
# What the slots of a forest hold after a change

Growth changes a forest in two ways only: a node is replaced in its slot, or a node without
children is replaced and gets two of them (`branch`), which become the last two slots.
-/

namespace DecisionTree.Growth

/-- What stands in a list to which two elements were added. -/
theorem getElem?_append_pair {β : Type} (values : List β) (first second : β) (place : Nat) :
    (values ++ [first, second])[place]? =
      if place = values.length then some first
      else if place = values.length + 1 then some second
      else values[place]? := by
  by_cases old : place < values.length
  · have notFirst : place ≠ values.length := by omega
    have notSecond : place ≠ values.length + 1 := by omega
    rw [List.getElem?_append_left old, if_neg notFirst, if_neg notSecond]
  · rw [List.getElem?_append_right (Nat.le_of_not_lt old)]
    by_cases isFirst : place = values.length
    · rw [if_pos isFirst, isFirst, Nat.sub_self]
      rfl
    · by_cases isSecond : place = values.length + 1
      · rw [if_neg isFirst, if_pos isSecond, isSecond, Nat.add_sub_cancel_left]
        rfl
      · rw [if_neg isFirst, if_neg isSecond, List.getElem?_eq_none (Nat.le_of_not_lt old)]
        apply List.getElem?_eq_none
        simp only [List.length_cons, List.length_nil]
        omega

namespace Forest

variable {α : Type} {forest : Forest α} {id place : Nat} {slot : Slot α} {node left right : Node α}

theorem lt_size (found : forest.slots[id]? = some slot) : id < forest.size :=
  (List.getElem?_eq_some_iff.mp found).1

theorem slot_eq (found : forest.slots[id]? = some slot) : forest.slot id = .ok slot := by
  rw [Forest.slot, Position.get?_ofNat, found]

theorem slot_eq_error (absent : forest.slots[id]? = none) :
    forest.slot id = .error .outOfRange := by
  rw [Forest.slot, Position.get?_ofNat, absent]

theorem slots_modify (forest : Forest α) (id : Nat) (change : Slot α → Slot α) :
    (forest.modify id change).slots = forest.slots.modify id change := by
  unfold modify
  by_cases inside : id < forest.size
  · rw [Position.resolve_ofNat inside]
  · have outside : Position.resolve forest.size (id : Int) = none := by
      simp [Position.resolve, inside]
    rw [outside, List.modify_eq_self (Nat.le_of_not_lt inside)]

/-- Replacing a node changes its own slot only. -/
theorem getElem?_setNode (forest : Forest α) (id : Nat) (node : Node α) (place : Nat) :
    (forest.setNode id node).slots[place]? =
      if id = place then forest.slots[place]?.map fun slot => { slot with node }
      else forest.slots[place]? := by
  rw [setNode, slots_modify, List.getElem?_modify]
  split
  · rfl
  · cases forest.slots[place]? <;> rfl

theorem getElem?_setNode_ne (forest : Forest α) {id place : Nat} (differs : id ≠ place)
    (node : Node α) : (forest.setNode id node).slots[place]? = forest.slots[place]? := by
  rw [getElem?_setNode, if_neg differs]

@[simp] theorem size_setNode (forest : Forest α) (id : Nat) (node : Node α) :
    (forest.setNode id node).size = forest.size := by
  rw [size, setNode, slots_modify, List.length_modify, size]

theorem children_setNode (forest : Forest α) (id : Nat) (node : Node α) (place : Nat) :
    (forest.setNode id node).slots[place]?.map Slot.children =
      forest.slots[place]?.map Slot.children := by
  rw [getElem?_setNode]
  split
  · rw [Option.map_map]
    rfl
  · rfl

/-- The children of all nodes. -/
def shape (forest : Forest α) : List (Option (Nat × Nat)) :=
  forest.slots.map Slot.children

@[simp] theorem length_shape (forest : Forest α) : forest.shape.length = forest.size :=
  List.length_map _

theorem shape_getElem? (forest : Forest α) (place : Nat) :
    forest.shape[place]? = forest.slots[place]?.map Slot.children :=
  List.getElem?_map

/-- A change of a slot changes the shape there. -/
theorem shape_modify (forest : Forest α) (id : Nat) {change : Slot α → Slot α}
    (changeShape : Option (Nat × Nat) → Option (Nat × Nat))
    (same : ∀ slot, (change slot).children = changeShape slot.children) :
    (forest.modify id change).shape = forest.shape.modify id changeShape := by
  apply List.ext_getElem?
  intro place
  rw [shape_getElem?, slots_modify, List.getElem?_modify, List.getElem?_modify, shape_getElem?]
  cases forest.slots[place]? with
  | none => rfl
  | some slot =>
      by_cases own : id = place
      · simp [own, same]
      · simp [own]

@[simp] theorem shape_setNode (forest : Forest α) (id : Nat) (node : Node α) :
    (forest.setNode id node).shape = forest.shape := by
  have unchanged : (forest.setNode id node).shape = forest.shape.modify id fun pair => pair :=
    forest.shape_modify id (fun pair => pair) fun _ => rfl
  rw [unchanged]
  exact List.modify_id id forest.shape

/-- Children that are attached to a node are the next two nodes. -/
theorem of_attach_pair {ids : List Nat} {after : Forest α}
    (attached : forest.attach id [left, right] = .ok (ids, after)) :
    ids = [forest.size, forest.size + 1] ∧
      after.shape = (forest.shape ++ [none, none]).modify id
        fun _ => some (forest.size, forest.size + 1) := by
  simp only [attach, bind, Except.bind] at attached
  split at attached
  · cases attached
  split at attached
  · cases attached
  obtain ⟨rfl, rfl⟩ := Prod.mk.inj (Except.ok.inj attached)
  refine ⟨rfl, ?_⟩
  rw [shape_modify _ id (fun _ => some (forest.size, forest.size + 1)) fun _ => rfl, shape,
    List.map_append]
  rfl

/-- A forest in which a node is replaced and gets two children. -/
def branch (forest : Forest α) (id : Nat) (node left right : Node α) : Forest α where
  slots := forest.slots.set id { node, children := some (forest.size, forest.size + 1) } ++
    [{ node := left, children := none }, { node := right, children := none }]

@[simp] theorem size_branch (forest : Forest α) (id : Nat) (node left right : Node α) :
    (forest.branch id node left right).size = forest.size + 2 := by
  simp [size, branch]

/-- Two children are attached to a node that has none. -/
theorem attach_eq (found : forest.slots[id]? = some slot) (childless : slot.children = none)
    (node left right : Node α) :
    (forest.setNode id node).attach id [left, right] =
      .ok ([forest.size, forest.size + 1], forest.branch id node left right) := by
  have inside := lt_size found
  have own : (forest.setNode id node).slots[id]? = some { slot with node } := by
    rw [getElem?_setNode, if_pos rfl, found]
    rfl
  have slots : ((forest.setNode id node).slots ++
      [Slot.mk left none, Slot.mk right none]).modify id
        (fun slot => { slot with children := some (forest.size, forest.size + 1) }) =
      (forest.branch id node left right).slots := by
    apply List.ext_getElem?
    intro place
    simp only [branch, List.getElem?_modify, List.getElem?_append, List.length_set,
      getElem?_setNode, List.getElem?_set]
    have length : (forest.setNode id node).slots.length = forest.slots.length :=
      size_setNode forest id node
    rw [length]
    by_cases same : id = place
    · subst same
      have bounded : id < forest.slots.length := inside
      simp [bounded]
    · simp [same]
  simp only [attach, slot_eq own, childless, size_setNode, bind, Except.bind]
  rw [if_neg (by simp)]
  simp only [pure, Except.pure]
  congr 2
  exact congrArg Forest.mk ((slots_modify _ _ _).trans slots)

/-- The number of nodes with children. -/
def splitCount (forest : Forest α) : Nat :=
  forest.slots.countP fun slot => slot.children.isSome

@[simp] theorem splitCount_setNode (forest : Forest α) (id : Nat) (node : Node α) :
    (forest.setNode id node).splitCount = forest.splitCount := by
  have counted := congrArg (List.countP Option.isSome) (forest.shape_setNode id node)
  rwa [shape, shape, List.countP_map, List.countP_map] at counted

/-- A node that gets children is one more node with children. -/
theorem splitCount_branch (found : forest.slots[id]? = some slot) (childless : slot.children = none)
    (node left right : Node α) :
    (forest.branch id node left right).splitCount = forest.splitCount + 1 := by
  obtain ⟨inside, rfl⟩ := List.getElem?_eq_some_iff.mp found
  rw [splitCount, branch, List.countP_append, List.countP_set inside, childless]
  simp [splitCount]

/-- The slots after a node has got children. -/
theorem getElem?_branch (inside : id < forest.size) (node left right : Node α) (place : Nat) :
    (forest.branch id node left right).slots[place]? =
      if place = id then some { node, children := some (forest.size, forest.size + 1) }
      else if place = forest.size then some { node := left, children := none }
      else if place = forest.size + 1 then some { node := right, children := none }
      else forest.slots[place]? := by
  rw [branch, getElem?_append_pair, List.length_set, List.getElem?_set]
  have length : forest.slots.length = forest.size := rfl
  rw [length]
  by_cases own : place = id
  · subst own
    have notFirst : place ≠ forest.size := by omega
    have notSecond : place ≠ forest.size + 1 := by omega
    simp [notFirst, notSecond, inside]
  · have other : ¬ id = place := fun same => own same.symm
    simp only [own, other, if_false]

end Forest

end DecisionTree.Growth
