import DecisionTree.Buffer.Marks
import DecisionTree.Proofs.Buffer.Storage
import DecisionTree.Proofs.Outcome

/-!
# The table of marks

Between splits every cell of the table is zero.  Marking some ids in a clean table makes
exactly these ids look marked (`isMarked?_mark`), and marking the same ids with zero
cleans the table again (`Clean.unmark`), whatever its capacity.
-/

namespace DecisionTree.Buffer

/-- Every cell of a table is zero. -/
def Clean (marks : Buffer) : Prop :=
  ∀ (place : Nat) (value : Int), marks.storage[place]? = some value → value = 0

/-- All ids name cells of a table, counted from its front. -/
def Spans (marks : Buffer) (ids : List Int) : Prop :=
  ∀ id ∈ ids, 0 ≤ id ∧ id < marks.capacity

variable {marks : Buffer} {ids : List Int}

theorem clean_ofCapacity (capacity : Int) : (ofCapacity capacity).Clean :=
  fun _ _ found => getElem?_replicate_zero found

theorem Clean.grow (clean : marks.Clean) (least : Nat) : (marks.grow least).Clean := by
  intro place value found
  rcases getElem?_of_grow found with old | zero
  · exact clean place value old
  · exact zero

theorem resolve_of_spans {id : Int} {length : Nat} (nonneg : 0 ≤ id) (inside : id < length) :
    Position.resolve length id = some id.toNat := by
  simp [Position.resolve, nonneg, inside]

theorem mapM_resolve_of_spans (spans : marks.Spans ids) :
    ids.mapM (Position.resolve marks.capacity) = some (ids.map Int.toNat) :=
  Outcome.mapM_eq_some_map fun id member =>
    resolve_of_spans (spans id member).1 (spans id member).2

/-- Ids that name cells can all be written. -/
theorem assign?_of_spans (spans : marks.Spans ids) (value : Int) :
    marks.assign? ids value =
      some (marks.writeAll ((ids.map Int.toNat).map fun place => (place, value))) := by
  rw [assign?, mapM_resolve_of_spans spans]
  rfl

/-- The table with some ids marked. -/
def mark (marks : Buffer) (ids : List Int) (value : Int) : Buffer :=
  marks.writeAll ((ids.map Int.toNat).map fun place => (place, value))

@[simp] theorem capacity_mark (marks : Buffer) (ids : List Int) (value : Int) :
    (marks.mark ids value).capacity = marks.capacity :=
  capacity_writeAll _ _

theorem mark_getElem?_of_mem {id value : Int} (spans : marks.Spans ids) (member : id ∈ ids) :
    (marks.mark ids value).storage[id.toNat]? = some value := by
  have inside : id.toNat < marks.capacity := by
    have := spans id member
    omega
  exact writeAll_getElem?_of_const (List.mem_map.mpr ⟨id, member, rfl⟩) inside

theorem mark_getElem?_of_not_mem {place : Nat} {value : Int}
    (untouched : place ∉ ids.map Int.toNat) :
    (marks.mark ids value).storage[place]? = marks.storage[place]? := by
  apply writeAll_getElem?_of_not_mem
  simpa using untouched

/-- In a clean table exactly the marked ids look marked. -/
theorem isMarked?_mark {id : Int} (clean : marks.Clean) (spans : marks.Spans ids)
    (nonneg : 0 ≤ id) (inside : id < marks.capacity) :
    (marks.mark ids 1).isMarked? id = some (decide (id ∈ ids)) := by
  have resolved : Position.resolve (marks.mark ids 1).capacity id = some id.toNat := by
    rw [capacity_mark]
    exact resolve_of_spans nonneg inside
  simp only [isMarked?, resolved, Option.bind_eq_bind, Option.bind_some]
  by_cases member : id ∈ ids
  · simp [mark_getElem?_of_mem spans member, member]
  · have untouched : id.toNat ∉ ids.map Int.toNat := by
      simp only [List.mem_map, not_exists, not_and]
      intro other otherMember same
      have := spans other otherMember
      have equal : other = id := by omega
      exact member (equal ▸ otherMember)
    have stored : id.toNat < marks.storage.size := by
      have : (id.toNat : Int) < marks.capacity := by omega
      exact Int.ofNat_lt.mp this
    rw [mark_getElem?_of_not_mem untouched, Array.getElem?_eq_getElem stored]
    have zero := clean id.toNat _ (Array.getElem?_eq_getElem stored)
    simp [zero, member]

theorem mapM_isMarked?_mark {looked : List Int} (clean : marks.Clean) (spans : marks.Spans ids)
    (inside : marks.Spans looked) :
    looked.mapM (marks.mark ids 1).isMarked? = some (looked.map fun id => decide (id ∈ ids)) :=
  Outcome.mapM_eq_some_map fun id member =>
    isMarked?_mark clean spans (inside id member).1 (inside id member).2

/-- Taking the marks back leaves a clean table clean. -/
theorem Clean.unmark (clean : marks.Clean) (spans : marks.Spans ids) :
    ((marks.mark ids 1).mark ids 0).Clean := by
  intro place value found
  by_cases touched : place ∈ ids.map Int.toNat
  · obtain ⟨id, member, rfl⟩ := List.mem_map.mp touched
    have stillSpans : (marks.mark ids 1).Spans ids := by
      intro other otherMember
      rw [capacity_mark]
      exact spans other otherMember
    rw [mark_getElem?_of_mem stillSpans member] at found
    exact (Option.some.inj found).symm
  · rw [mark_getElem?_of_not_mem touched, mark_getElem?_of_not_mem touched] at found
    exact clean place value found

/-- The table is made large enough for the ids to be looked up. -/
theorem lt_tableSize_of_mem_looked {looked : List Int} {id : Int} (marked : List Int)
    (member : id ∈ looked) : id < tableSize looked marked := by
  cases largest : looked.max? with
  | none => simp [List.max?_eq_none_iff.mp largest] at member
  | some top =>
      have atMost : id ≤ top := (List.max?_eq_some_iff.mp largest).2 id member
      unfold tableSize
      simp only [largest, Option.map_some, Option.getD_some]
      cases marked.getLast? <;> simp <;> omega

/-- The table is made large enough for ascending ids to be marked. -/
theorem lt_tableSize_of_mem_marked {marked : List Int} {id : Int} (looked : List Int)
    (member : id ∈ marked) (ascending : marked.Pairwise (· ≤ ·)) :
    id < tableSize looked marked := by
  have nonempty : marked ≠ [] := List.ne_nil_of_mem member
  have atMost : id ≤ marked.getLast nonempty := by
    rw [← List.dropLast_concat_getLast nonempty] at member ascending
    rcases List.mem_append.mp member with earlier | last
    · have := (List.pairwise_append.mp ascending).2.2 id earlier _ List.mem_cons_self
      omega
    · simp at last
      omega
  unfold tableSize
  rw [List.getLast?_eq_some_getLast nonempty]
  simp
  omega

end DecisionTree.Buffer
