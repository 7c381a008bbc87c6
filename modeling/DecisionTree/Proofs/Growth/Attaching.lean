import DecisionTree.Proofs.Exact
import DecisionTree.Proofs.Growth.Shape
import Mathlib.Data.List.Induction

/-!
# Attaching children to whatever node

`Forest.attach` may be called by anyone, in any order and with ids that count from the end.
`Forest.attachInPlace` takes its steps one after another in a forest that changes meanwhile: the
parent's place is looked at first, then the children are appended one by one, and then the pair is
noted at the parent's place, which is looked up again in the longer list.  A call that fails leaves
no trace (`Forest.attachInPlace_eq`), and every id is the child of one node at most
(`Forest.Paired`).

An id that counts from the end names another place once the children are there.  For the last two
nodes that place is one of the children: `Forest.Slips`.  A run of calls keeps children after their
parents, and every conversion finite, exactly if none of them slips
(`Forest.attachments_sound_iff`).
-/

namespace DecisionTree

/-- A place that is named in a list is named in one with two more elements, too: from the front it
is the same, from the end it is two places later. -/
theorem Position.resolve_add_two {length place : Nat} {position : Int}
    (named : resolve length position = some place) :
    resolve (length + 2) position = some (if 0 ≤ position then place else place + 2) := by
  unfold resolve at *
  split at named
  · next front =>
    split at named
    · obtain rfl := Option.some.inj named
      rw [if_pos front, if_pos (by omega), if_pos front]
    · cases named
  · next back =>
    split at named
    · obtain rfl := Option.some.inj named
      rw [if_neg back, if_pos (by omega), if_neg back]
      congr 1
      omega
    · cases named

namespace Growth

/-- A call that attaches children to a node. -/
structure Attachment (α : Type) where
  parent : Int
  children : List (Node α)

namespace Forest

variable {α : Type}

/-- Refuses a parent that there is not or that has children. -/
def checkParent (forest : Forest α) (parent : Int) : Except Error Unit := do
  let slot ← forest.slot parent
  if slot.children.isSome then
    throw (.alreadySplit parent)

/-- Appends a node without children. -/
def push (forest : Forest α) (node : Node α) : Forest α where
  slots := forest.slots ++ [{ node, children := none }]

/-- Notes a pair of children in the slot of a node. -/
def record (forest : Forest α) (parent : Int) (pair : Nat × Nat) : Except Error (Forest α) :=
  match Position.resolve forest.size parent with
  | some place =>
      .ok { slots := forest.slots.modify place fun slot => { slot with children := some pair } }
  | none => .error .outOfRange

/-- Attaches children step by step: the ids or the failure, and the forest that is left.  A
failure to record the pair would leave the children behind. -/
def attachInPlace (forest : Forest α) (call : Attachment α) : Except Error (List Nat) × Forest α :=
  match call.children with
  | [] => (.ok [], forest)
  | [left, right] =>
      match forest.checkParent call.parent with
      | .error error => (.error error, forest)
      | .ok () =>
          let withLeft := forest.push left
          let withBoth := withLeft.push right
          match withBoth.record call.parent (forest.size, withLeft.size) with
          | .error error => (.error error, withBoth)
          | .ok after => (.ok [forest.size, withLeft.size], after)
  | _ => (.error .notTwoChildren, forest)

/-- The forest after a run of calls; failures do not end the run. -/
def attachAll (forest : Forest α) (calls : List (Attachment α)) : Forest α :=
  calls.foldl (fun forest call => (forest.attachInPlace call).2) forest

/-- A forest with two more nodes, which are the children of the node at a place. -/
def extend (forest : Forest α) (place : Nat) (left right : Node α) : Forest α where
  slots := (forest.slots ++ [Slot.mk left none, Slot.mk right none]).modify place
    fun slot => { slot with children := some (forest.size, forest.size + 1) }

/-- The conversion of a node comes to an end: there is no such node, or it has no children, or the
conversions of both children end. -/
inductive Ends (forest : Forest α) : Int → Prop
  | missing {id : Int} {error : Error} (absent : forest.slot id = .error error) : Ends forest id
  | leaf {id : Int} {slot : Slot α} (found : forest.slot id = .ok slot)
      (childless : slot.children = none) : Ends forest id
  | split {id : Int} {slot : Slot α} {left right : Nat} (found : forest.slot id = .ok slot)
      (pair : slot.children = some (left, right)) (leftEnds : Ends forest left)
      (rightEnds : Ends forest right) : Ends forest id

/-- Children come after their parent, the left before the right one. -/
def Ascending (forest : Forest α) : Prop :=
  ∀ parent left right : Nat, forest.shape[parent]? = some (some (left, right)) →
    parent < left ∧ left < right ∧ right < forest.size

/-- A call that gives children to one of the last two nodes, counted from the end. -/
def Slips (forest : Forest α) (call : Attachment α) : Prop :=
  (call.parent = -1 ∨ call.parent = -2) ∧ forest.size < (forest.attachInPlace call).2.size

/-- No call of a run slips. -/
def Careful (forest : Forest α) (calls : List (Attachment α)) : Prop :=
  ∀ earlier call, earlier ++ [call] <+: calls → ¬ (forest.attachAll earlier).Slips call

variable {forest : Forest α} {call : Attachment α} {calls : List (Attachment α)}
variable {parent id : Int} {place left right : Nat} {first second : Node α} {slot : Slot α}

theorem slot_of_resolve (named : Position.resolve forest.size id = some place)
    (found : forest.slots[place]? = some slot) : forest.slot id = .ok slot := by
  have resolved : Position.resolve forest.slots.length id = some place := named
  rw [Forest.slot, Position.get?, resolved, Option.bind_some, found]

/-- An id names a slot or nothing. -/
theorem slot_cases (forest : Forest α) (id : Int) :
    forest.slot id = .error .outOfRange ∨
      ∃ (place : Nat) (slot : Slot α), forest.slots[place]? = some slot ∧
        Position.resolve forest.size id = some place ∧ forest.slot id = .ok slot := by
  cases named : Position.resolve forest.size id with
  | none =>
      left
      have unnamed : Position.resolve forest.slots.length id = none := named
      rw [Forest.slot, Position.get?, unnamed, Option.bind_none]
  | some place =>
      right
      have inside : place < forest.slots.length := Position.resolve_lt named
      have found := List.getElem?_eq_getElem inside
      exact ⟨place, forest.slots[place], found, rfl, slot_of_resolve named found⟩

theorem checkParent_eq_ok_iff : forest.checkParent parent = .ok () ↔
    ∃ slot, forest.slot parent = .ok slot ∧ slot.children = none := by
  rw [checkParent]
  cases forest.slot parent with
  | error error => simp [bind, Except.bind]
  | ok slot => cases slot.children <;> simp [bind, Except.bind, pure, Except.pure, throw, throwThe,
      MonadExceptOf.throw]

/-- The pair that the steps record stands where the parent's id points in the longer list. -/
theorem record_push_push (named : Position.resolve forest.size parent = some place) :
    ((forest.push first).push second).record parent (forest.size, (forest.push first).size) =
      .ok (forest.extend (if 0 ≤ parent then place else place + 2) first second) := by
  have size : (forest.push first).size = forest.size + 1 := by simp [push, Forest.size]
  have sizeBoth : ((forest.push first).push second).size = forest.size + 2 := by
    simp [push, Forest.size]
  have slots : ((forest.push first).push second).slots =
      forest.slots ++ [Slot.mk first none, Slot.mk second none] :=
    List.append_assoc ..
  rw [record, sizeBoth, Position.resolve_add_two named, size, slots]
  rfl

/-- What a call does: nothing, or two more nodes. -/
theorem attachInPlace_cases (forest : Forest α) (call : Attachment α) :
    (forest.attachInPlace call).2 = forest ∨
      ∃ place slot first second, Position.resolve forest.size call.parent = some place ∧
        forest.slots[place]? = some slot ∧ slot.children = none ∧
        call.children = [first, second] ∧
        forest.attachInPlace call = (.ok [forest.size, forest.size + 1],
          forest.extend (if 0 ≤ call.parent then place else place + 2) first second) := by
  obtain ⟨parent, children⟩ := call
  match children with
  | [] | [_] | _ :: _ :: _ :: _ => exact .inl rfl
  | [first, second] =>
      cases checked : forest.checkParent parent with
      | error error => exact .inl (by simp only [attachInPlace, checked])
      | ok _ =>
          right
          obtain ⟨slot, slotEq, childless⟩ := checkParent_eq_ok_iff.mp checked
          rcases forest.slot_cases parent with absent | ⟨place, own, found, named, ownEq⟩
          · cases absent.symm.trans slotEq
          · obtain rfl := Except.ok.inj (ownEq.symm.trans slotEq)
            refine ⟨place, own, first, second, named, found, childless, rfl, ?_⟩
            simp only [attachInPlace, checked, record_push_push named]
            simp [push, size]

/-- A call that fails leaves the forest as it was; one that succeeds gives the forest that
`attach` gives. -/
theorem attachInPlace_eq (forest : Forest α) (call : Attachment α) :
    forest.attachInPlace call =
      match forest.attach call.parent call.children with
      | .ok (ids, after) => (.ok ids, after)
      | .error error => (.error error, forest) := by
  obtain ⟨parent, children⟩ := call
  match children with
  | [] | [_] | _ :: _ :: _ :: _ => rfl
  | [first, second] =>
      rcases forest.slot_cases parent with absent | ⟨place, slot, found, named, slotEq⟩
      · simp only [attachInPlace, attach, checkParent, absent, bind, Except.bind]
      · cases pair : slot.children with
        | some pair =>
            simp only [attachInPlace, attach, checkParent, slotEq, pair, bind, Except.bind,
              Option.isSome_some, if_true]
            rfl
        | none =>
            have checked : forest.checkParent parent = .ok () :=
              checkParent_eq_ok_iff.mpr ⟨slot, slotEq, pair⟩
            simp only [attachInPlace, checked, record_push_push named, attach, slotEq, pair, bind,
              Except.bind]
            have longer : ({ slots := forest.slots ++ [Slot.mk first none, Slot.mk second none] } :
                Forest α).size = forest.size + 2 := by simp [size]
            have added : (forest.push first).size = forest.size + 1 := by simp [push, size]
            simp only [pure, Except.pure, modify, longer, Position.resolve_add_two named, added]
            rfl

theorem unchanged_of_error {error : Error} (failed : (forest.attachInPlace call).1 = .error error) :
    (forest.attachInPlace call).2 = forest := by
  rw [attachInPlace_eq] at failed ⊢
  split at failed
  · cases failed
  · rfl

theorem size_extend (forest : Forest α) (place : Nat) (first second : Node α) :
    (forest.extend place first second).size = forest.size + 2 := by
  simp [size, extend]

theorem shape_extend (forest : Forest α) (place : Nat) (first second : Node α) :
    (forest.extend place first second).shape =
      (forest.shape ++ [none, none]).modify place fun _ => some (forest.size, forest.size + 1) := by
  apply List.ext_getElem?
  intro other
  have appended : (forest.shape ++ [none, none])[other]? =
      ((forest.slots ++ [Slot.mk first none, Slot.mk second none])[other]?).map Slot.children := by
    rw [← List.getElem?_map, List.map_append]
    rfl
  rw [shape_getElem?, extend, List.getElem?_modify, List.getElem?_modify, appended]
  cases (forest.slots ++ [Slot.mk first none, Slot.mk second none])[other]? with
  | none => rfl
  | some slot => by_cases own : place = other <;> simp [own]

/-- The new pair stands in its slot. -/
theorem pair_extend (inside : place < forest.size + 2) :
    (forest.extend place first second).shape[place]? =
      some (some (forest.size, forest.size + 1)) := by
  have present : place < (forest.shape ++ [none, none]).length := by
    rw [List.length_append, length_shape]
    exact inside
  rw [shape_extend, List.getElem?_modify_eq, List.getElem?_eq_getElem present]
  rfl

/-- Every other pair was there before. -/
theorem pair_of_extend {other : Nat}
    (pair : (forest.extend place first second).shape[other]? = some (some (left, right))) :
    (other = place ∧ left = forest.size ∧ right = forest.size + 1) ∨
      forest.shape[other]? = some (some (left, right)) := by
  rw [shape_extend] at pair
  by_cases own : place = other
  · left
    rw [own, List.getElem?_modify_eq] at pair
    obtain ⟨old, -, new⟩ := Option.map_eq_some_iff.mp pair
    obtain ⟨rfl, rfl⟩ := Prod.mk.inj (Option.some.inj new)
    exact ⟨own.symm, rfl, rfl⟩
  · right
    rw [List.getElem?_modify_ne _ _ own, getElem?_append_pair, length_shape] at pair
    split at pair
    · cases pair
    split at pair
    · cases pair
    exact pair

/-! ## One parent for each child -/

/-- The children of a node are two nodes in a row, and those of different nodes are different. -/
structure Paired (forest : Forest α) : Prop where
  consecutive : ∀ parent left right : Nat, forest.shape[parent]? = some (some (left, right)) →
    right = left + 1 ∧ right < forest.size
  apart : ∀ parent other left right less greater : Nat,
    forest.shape[parent]? = some (some (left, right)) →
      forest.shape[other]? = some (some (less, greater)) →
        parent ≠ other → right < less ∨ greater < left

theorem ofRoot_paired (root : Node α) : (ofRoot root).Paired := by
  have none (parent left right : Nat) :
      (ofRoot root).shape[parent]? ≠ some (some (left, right)) := by
    cases parent <;> simp [ofRoot, shape]
  exact {
    consecutive := fun parent left right pair => absurd pair (none parent left right)
    apart := fun parent _ left right _ _ pair => absurd pair (none parent left right) }

theorem Paired.extend (paired : forest.Paired) (place : Nat) (first second : Node α) :
    (forest.extend place first second).Paired where
  consecutive := by
    intro parent left right pair
    rw [size_extend]
    rcases pair_of_extend pair with ⟨-, rfl, rfl⟩ | old
    · omega
    · have := paired.consecutive parent left right old
      omega
  apart := by
    intro parent other left right less greater pair otherPair differ
    rcases pair_of_extend pair with ⟨rfl, rfl, rfl⟩ | old <;>
      rcases pair_of_extend otherPair with ⟨rfl, rfl, rfl⟩ | otherOld
    · exact absurd rfl differ
    · right
      exact (paired.consecutive other less greater otherOld).2
    · left
      exact (paired.consecutive parent left right old).2
    · exact paired.apart parent other left right less greater old otherOld differ

theorem Paired.attachInPlace (paired : forest.Paired) (call : Attachment α) :
    (forest.attachInPlace call).2.Paired := by
  rcases forest.attachInPlace_cases call with
    same | ⟨place, slot, first, second, -, -, -, -, extended⟩
  · rwa [same]
  · rw [extended]
    exact paired.extend _ first second

theorem Paired.attachAll (paired : forest.Paired) (calls : List (Attachment α)) :
    (forest.attachAll calls).Paired := by
  induction calls generalizing forest with
  | nil => exact paired
  | cons call calls ih => exact ih (paired.attachInPlace call)

/-- A node is a child of one node at most. -/
theorem Paired.parent_unique (paired : forest.Paired) {parent other child : Nat}
    (isChild : forest.IsChild parent child) (otherChild : forest.IsChild other child) :
    parent = other := by
  obtain ⟨node, left, right, found, side⟩ := isChild
  obtain ⟨otherNode, less, greater, otherFound, otherSide⟩ := otherChild
  have pair : forest.shape[parent]? = some (some (left, right)) := by
    rw [shape_getElem?, found, Option.map_some]
  have otherPair : forest.shape[other]? = some (some (less, greater)) := by
    rw [shape_getElem?, otherFound, Option.map_some]
  by_cases same : parent = other
  · exact same
  · have := paired.consecutive parent left right pair
    have := paired.consecutive other less greater otherPair
    have := paired.apart parent other left right less greater pair otherPair same
    omega

/-! ## Conversions that end, and one that does not -/

section Conversion

theorem slot_eq_of_shape {pair : Option (Nat × Nat)} (found : forest.shape[place]? = some pair) :
    ∃ slot, forest.slot place = .ok slot ∧ slot.children = pair := by
  rw [shape_getElem?] at found
  obtain ⟨slot, slotFound, same⟩ := Option.map_eq_some_iff.mp found
  exact ⟨slot, slot_eq slotFound, same⟩

/-- If children come after their parents, every conversion ends. -/
theorem Ascending.ends (ascending : forest.Ascending) (id : Int) : forest.Ends id := by
  have ends_of_place (gap : Nat) :
      ∀ place : Nat, forest.size ≤ place + gap → forest.Ends place := by
    induction gap with
    | zero =>
        intro place outside
        have beyond : forest.slots[place]? = none := List.getElem?_eq_none outside
        exact .missing (slot_eq_error beyond)
    | succ gap ih =>
        intro place inside
        cases found : forest.slots[place]? with
        | none => exact .missing (slot_eq_error found)
        | some slot =>
            cases pair : slot.children with
            | none => exact .leaf (slot_eq found) pair
            | some children =>
                have shaped : forest.shape[place]? = some (some children) := by
                  rw [shape_getElem?, found, Option.map_some, pair]
                have := ascending place children.1 children.2 shaped
                exact .split (slot_eq found) pair (ih _ (by omega)) (ih _ (by omega))
  rcases forest.slot_cases id with absent | ⟨place, slot, found, -, slotEq⟩
  · exact .missing absent
  · have ends := ends_of_place forest.size place (by omega)
    cases pair : slot.children with
    | none => exact .leaf slotEq pair
    | some children =>
        exact .split slotEq pair (ends_of_place forest.size _ (by omega))
          (ends_of_place forest.size _ (by omega))

/-- A node that is its own child has no end. -/
theorem not_ends_of_own_child (pair : forest.shape[place]? = some (some (left, right)))
    (own : place = left ∨ place = right) : ¬ forest.Ends place := by
  obtain ⟨slot, slotEq, children⟩ := slot_eq_of_shape pair
  suffices never : ∀ id, forest.Ends id → id ≠ place from fun ends => never place ends rfl
  intro id ends
  induction ends with
  | missing absent =>
      rintro rfl
      cases absent.symm.trans slotEq
  | leaf found childless =>
      rintro rfl
      obtain rfl := Except.ok.inj (found.symm.trans slotEq)
      cases childless.symm.trans children
  | split found pair leftEnds rightEnds leftNot rightNot =>
      rintro rfl
      obtain rfl := Except.ok.inj (found.symm.trans slotEq)
      obtain ⟨rfl, rfl⟩ := Prod.mk.inj (Option.some.inj (pair.symm.trans children))
      rcases own with rfl | rfl
      · exact leftNot rfl
      · exact rightNot rfl

variable [Scalar α] {labels : List Label}

theorem toLeaf_ne_pathUnfinished (node : Node α) :
    node.toLeaf labels ≠ .error .pathUnfinished := by
  rw [Node.toLeaf]
  split <;> simp

/-- If children come after their parents, no path is longer than there are nodes. -/
theorem Ascending.treeWithin_ne (ascending : forest.Ascending) {steps : Nat}
    (positive : 0 < steps) : ∀ place : Nat, forest.size ≤ place + steps →
      forest.treeWithin labels steps place ≠ .error .pathUnfinished := by
  induction steps with
  | zero => cases positive
  | succ steps ih =>
      intro place inside
      rw [treeWithin]
      cases found : forest.slots[place]? with
      | none =>
          rw [slot_eq_error found]
          exact fun other => nomatch other
      | some slot =>
          rw [slot_eq found]
          refine Outcome.bind_ne_error (fun other => nomatch other) fun own same => ?_
          obtain rfl := Except.ok.inj same
          split
          · refine Outcome.bind_ne_error (toLeaf_ne_pathUnfinished slot.node) fun _ _ => ?_
            exact fun other => nomatch other
          · next left right pair =>
            have shaped : forest.shape[place]? = some (some (left, right)) := by
              rw [shape_getElem?, found, Option.map_some, pair]
            have := ascending place left right shaped
            refine Outcome.bind_ne_error (ih (by omega) left (by omega)) fun _ _ => ?_
            refine Outcome.bind_ne_error (ih (by omega) right (by omega)) fun _ _ => ?_
            cases slot.node.cut <;> exact fun other => nomatch other

/-- If children come after their parents, the conversion of a node is finished within its bound. -/
theorem Ascending.toTree_ne (ascending : forest.Ascending) (occupied : 0 < forest.size) (id : Int) :
    forest.toTree labels id ≠ .error .pathUnfinished := by
  rw [toTree]
  rcases forest.slot_cases id with absent | ⟨place, slot, found, -, slotEq⟩
  · obtain ⟨steps, size⟩ := Nat.exists_eq_succ_of_ne_zero (Nat.ne_of_gt occupied)
    rw [size, treeWithin, absent]
    exact fun other => nomatch other
  · have same : forest.treeWithin labels forest.size id =
        forest.treeWithin labels forest.size place := by
      cases forest.size with
      | zero => rfl
      | succ steps => rw [treeWithin, treeWithin, slotEq, slot_eq found]
    rw [same]
    exact ascending.treeWithin_ne occupied place (Nat.le_add_left ..)

end Conversion

/-! ## Calls that slip -/

/-- The pair is noted at one of the children exactly if the parent was one of the last two. -/
theorem size_le_place_iff (named : Position.resolve forest.size parent = some place) :
    forest.size ≤ (if 0 ≤ parent then place else place + 2) ↔ parent = -1 ∨ parent = -2 := by
  unfold Position.resolve at named
  split at named
  · next front =>
    split at named
    · obtain rfl := Option.some.inj named
      rw [if_pos front]
      omega
    · cases named
  · next back =>
    split at named
    · obtain rfl := Option.some.inj named
      rw [if_neg back]
      omega
    · cases named

/-- What a call does that does not slip: nothing, or two children for a node that was there. -/
theorem attachInPlace_of_not_slips (careful : ¬ forest.Slips call) :
    (forest.attachInPlace call).2 = forest ∨ ∃ place first second, place < forest.size ∧
      (forest.attachInPlace call).2 = forest.extend place first second := by
  rcases forest.attachInPlace_cases call with
    same | ⟨place, slot, first, second, named, -, -, -, extended⟩
  · exact .inl same
  · have after := congrArg Prod.snd extended
    have larger : forest.size < (forest.attachInPlace call).2.size := by
      rw [after, size_extend]
      omega
    have notLast := mt (size_le_place_iff named).mp fun last => careful ⟨last, larger⟩
    exact .inr ⟨_, first, second, Nat.lt_of_not_le notLast, after⟩

theorem Ascending.extend (ascending : forest.Ascending) (inside : place < forest.size)
    (first second : Node α) : (forest.extend place first second).Ascending := by
  intro parent left right pair
  rw [size_extend]
  rcases pair_of_extend pair with ⟨rfl, rfl, rfl⟩ | old
  · omega
  · have := ascending parent left right old
    omega

theorem Ascending.attachInPlace (ascending : forest.Ascending) (careful : ¬ forest.Slips call) :
    (forest.attachInPlace call).2.Ascending := by
  rcases attachInPlace_of_not_slips careful with same | ⟨place, first, second, inside, extended⟩
  · rwa [same]
  · rw [extended]
    exact ascending.extend inside first second

/-- After a slip a node is its own child. -/
theorem Slips.own_child (slips : forest.Slips call) :
    ∃ place left right : Nat, (place = left ∨ place = right) ∧
      (forest.attachInPlace call).2.shape[place]? = some (some (left, right)) := by
  obtain ⟨last, larger⟩ := slips
  rcases forest.attachInPlace_cases call with
    same | ⟨place, slot, first, second, named, found, -, -, extended⟩
  · rw [same] at larger
    exact absurd larger (Nat.lt_irrefl _)
  · have isNew := (size_le_place_iff named).mpr last
    have old := lt_size found
    have inside : (if 0 ≤ call.parent then place else place + 2) < forest.size + 2 := by
      split <;> omega
    refine ⟨if 0 ≤ call.parent then place else place + 2, forest.size, forest.size + 1,
      by omega, ?_⟩
    rw [extended]
    exact pair_extend inside

theorem attachAll_append (forest : Forest α) (calls : List (Attachment α)) (call : Attachment α) :
    forest.attachAll (calls ++ [call]) = ((forest.attachAll calls).attachInPlace call).2 := by
  rw [attachAll, List.foldl_append]
  rfl

/-- A property that holds at first and that calls keep which do not slip holds all along a
careful run. -/
theorem Careful.attachAll (careful : forest.Careful calls) (property : Forest α → Prop)
    (atFirst : property forest)
    (kept : ∀ (before : Forest α) (call : Attachment α), property before → ¬ before.Slips call →
      property (before.attachInPlace call).2) {earlier : List (Attachment α)}
    (reached : earlier <+: calls) : property (forest.attachAll earlier) := by
  induction earlier using List.reverseRecOn with
  | nil => exact atFirst
  | append_singleton earlier call ih =>
      rw [attachAll_append]
      exact kept _ call (ih ((List.prefix_append earlier [call]).trans reached))
        (careful earlier call reached)

theorem ofRoot_ascending (root : Node α) : (ofRoot root).Ascending := by
  intro parent left right pair
  cases parent <;> simp [ofRoot, shape] at pair

theorem size_attachInPlace (forest : Forest α) (call : Attachment α) :
    forest.size ≤ (forest.attachInPlace call).2.size := by
  rcases forest.attachInPlace_cases call with same | ⟨_, _, first, second, -, -, -, -, extended⟩
  · rw [same]
  · rw [extended, size_extend]
    exact Nat.le_add_right ..

/-- Whatever is attached to whatever node, no node is the child of two others, and a call that
fails changes nothing.  All along a run of calls children come after their parents exactly if no
call gives children to one of the last two nodes counted from the end; and exactly then every
conversion comes to an end. -/
theorem attachments_sound_iff [Scalar α] (root : Node α) (calls : List (Attachment α)) :
    (∀ earlier, earlier <+: calls →
      (∀ parent other child, ((ofRoot root).attachAll earlier).IsChild parent child →
        ((ofRoot root).attachAll earlier).IsChild other child → parent = other) ∧
      ∀ call error, (((ofRoot root).attachAll earlier).attachInPlace call).1 = .error error →
        (((ofRoot root).attachAll earlier).attachInPlace call).2 =
          (ofRoot root).attachAll earlier) ∧
    ((∀ earlier, earlier <+: calls → ((ofRoot root).attachAll earlier).Ascending) ↔
      (ofRoot root).Careful calls) ∧
    ((∀ earlier, earlier <+: calls → ∀ id, ((ofRoot root).attachAll earlier).Ends id) ↔
      (ofRoot root).Careful calls) ∧
    ((ofRoot root).Careful calls → ∀ earlier, earlier <+: calls → ∀ labels id,
      ((ofRoot root).attachAll earlier).toTree labels id ≠ .error .pathUnfinished) := by
  have ascending_of_careful (careful : (ofRoot root).Careful calls) (earlier)
      (reached : earlier <+: calls) : ((ofRoot root).attachAll earlier).Ascending :=
    careful.attachAll Ascending (ofRoot_ascending root)
      (fun _ _ ascending careful => ascending.attachInPlace careful) reached
  refine ⟨?_, ⟨?_, ascending_of_careful⟩, ⟨?_, ?_⟩, ?_⟩
  · intro earlier _
    exact ⟨fun _ _ _ => ((ofRoot_paired root).attachAll earlier).parent_unique,
      fun _ _ => unchanged_of_error⟩
  · intro ascending earlier call reached slips
    obtain ⟨place, left, right, own, pair⟩ := slips.own_child
    rw [← attachAll_append] at pair
    have := ascending (earlier ++ [call]) reached place left right pair
    omega
  · intro ends earlier call reached slips
    obtain ⟨place, left, right, own, pair⟩ := slips.own_child
    rw [← attachAll_append] at pair
    exact not_ends_of_own_child pair own (ends (earlier ++ [call]) reached place)
  · intro careful earlier reached
    exact (ascending_of_careful careful earlier reached).ends
  · intro careful earlier reached labels id
    have occupied : 0 < ((ofRoot root).attachAll earlier).size :=
      careful.attachAll (fun forest => 0 < forest.size) Nat.zero_lt_one
        (fun before call occupied _ => Nat.lt_of_lt_of_le occupied (before.size_attachInPlace call))
        reached
    exact (ascending_of_careful careful earlier reached).toTree_ne occupied id

/-- A node over nothing. -/
def Sample.lone : Node ℚ where
  columns := none
  exampleCount := 0
  depth := 0
  counts := []
  impurity := 0
  cut := none

/-- The first node gets children and cannot get others; then the second child gets children.  No
call names its parent by one of the last two ids, so children come after their parents, and no
conversion is left unfinished. -/
theorem attachments_sound_iff_sample :
    let calls : List (Attachment ℚ) :=
      [{ parent := 0, children := [Sample.lone, Sample.lone] },
        { parent := 0, children := [Sample.lone, Sample.lone] },
        { parent := 2, children := [Sample.lone, Sample.lone] }]
    let after := (ofRoot Sample.lone).attachAll calls
    (ofRoot Sample.lone).Careful calls ∧
      after.shape = [some (1, 2), none, some (3, 4), none, none] ∧ after.Ascending ∧
      (∀ parent other child, after.IsChild parent child → after.IsChild other child →
        parent = other) ∧
      (∀ id, after.Ends id) ∧ ∀ labels, after.toTree labels 0 ≠ .error .pathUnfinished := by
  intro calls after
  have careful : (ofRoot Sample.lone).Careful calls := by
    intro earlier call reached slips
    have member : call ∈ calls := reached.subset (List.mem_append_right _ List.mem_cons_self)
    have named : ∀ call ∈ calls, call.parent ≠ -1 ∧ call.parent ≠ -2 := by decide
    exact slips.1.elim (named call member).1 (named call member).2
  obtain ⟨always, ascending, ends, finished⟩ := attachments_sound_iff Sample.lone calls
  exact ⟨careful, by decide +kernel, ascending.mpr careful calls List.prefix_rfl,
    (always calls List.prefix_rfl).1, ends.mpr careful calls List.prefix_rfl,
    fun labels => finished careful calls List.prefix_rfl labels 0⟩

/-- The only node, called the last one, gets two children: its own pair stays empty, and the second
child becomes a child of itself. -/
theorem child_of_itself :
    let after := (ofRoot Sample.lone).attachAll
      [{ parent := -1, children := [Sample.lone, Sample.lone] }]
    after.shape = [none, none, some (1, 2)] ∧ ¬ after.Ascending ∧ ¬ after.Ends 2 := by
  intro after
  have shape : after.shape = [none, none, some (1, 2)] := by decide +kernel
  have pair : after.shape[2]? = some (some (1, 2)) := by rw [shape]; rfl
  refine ⟨shape, ?_, not_ends_of_own_child pair (.inr rfl)⟩
  intro ascending
  have := ascending 2 1 2 pair
  omega

end Forest

end Growth

end DecisionTree
