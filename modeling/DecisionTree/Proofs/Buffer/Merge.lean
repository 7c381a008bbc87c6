import DecisionTree.Proofs.Buffer.Storage
import DecisionTree.Workspace
import Mathlib.Data.List.Nodup
import Mathlib.Data.List.Perm.Subperm

/-!
# Merging is exact

The rank of a key in a list is the number of elements below it.  Bisection finds it in an ascending
list, so a merge writes an element of one list at its own place plus its rank in the other list.  If
no element stands in both lists, that is a place at which the ascending list of all elements holds
it (`union_of_mem_mergeWrites`), and the places number the union (`places_perm`).  So the merged
buffer's view is the union, whatever its storage held before (`view_mergeInto`).

Collecting pairwise disjoint ascending lists one after the other, with the two buffers taking turns,
therefore ends with all of their elements in ascending order (`collectAll_ascending`).
-/

namespace DecisionTree

/-- The number of elements below a key. -/
def rank (values : List Int) (key : Int) : Nat :=
  values.countP fun value => value < key

section Rank

variable {values others : List Int} {key : Int}

theorem rank_append (values others : List Int) (key : Int) :
    rank (values ++ others) key = rank values key + rank others key := by
  simp [rank]

theorem rank_congr (perm : values.Perm others) (key : Int) : rank values key = rank others key :=
  perm.countP_eq _

theorem rank_le_length (values : List Int) (key : Int) : rank values key ≤ values.length :=
  List.countP_le_length

theorem rank_mono (values : List Int) {smaller larger : Int} (atMost : smaller ≤ larger) :
    rank values smaller ≤ rank values larger := by
  apply List.countP_mono_left
  intro value _ below
  simp only [decide_eq_true_eq] at below ⊢
  exact Int.lt_of_lt_of_le below atMost

/-- Only a key of the list raises the rank of its successor. -/
theorem rank_succ_of_not_mem (absent : key ∉ values) : rank values (key + 1) = rank values key := by
  apply List.countP_congr
  intro value member
  have differ : value ≠ key := fun same => absent (same ▸ member)
  simp only [decide_eq_true_eq]
  omega

/-- In an ascending list the elements below a key are the first ones. -/
theorem getElem_lt_iff_lt_rank (ascending : values.Pairwise (· ≤ ·)) (key : Int) {place : Nat}
    (inside : place < values.length) : values[place] < key ↔ place < rank values key := by
  induction values generalizing place with
  | nil => simp at inside
  | cons first rest ih =>
      have ⟨above, restAscending⟩ := List.pairwise_cons.mp ascending
      by_cases below : first < key
      · cases place with
        | zero => simp [rank, below]
        | succ place =>
            have step := ih restAscending (Nat.lt_of_succ_lt_succ inside)
            simpa [rank, below] using step
      · have noneBelow : rank rest key = 0 := by
          apply List.countP_eq_zero.mpr
          intro value member
          have := above value member
          simp only [decide_eq_true_eq]
          omega
        cases place with
        | zero => simpa [rank, below] using noneBelow
        | succ place =>
            have bounded : place < rest.length := Nat.lt_of_succ_lt_succ inside
            have later := above rest[place] (List.getElem_mem bounded)
            simp only [rank] at noneBelow
            simp only [List.getElem_cons_succ, rank, List.countP_cons, noneBelow, below]
            simp only [decide_false, Bool.false_eq_true, if_false, Nat.add_zero, Nat.not_lt_zero,
              iff_false]
            omega

/-- The elements equal to a key stand between those below it and those above it. -/
theorem getElem_eq_iff (ascending : values.Pairwise (· ≤ ·)) (key : Int) {place : Nat}
    (inside : place < values.length) :
    values[place] = key ↔ rank values key ≤ place ∧ place < rank values (key + 1) := by
  have below := getElem_lt_iff_lt_rank ascending key inside
  have atMost := getElem_lt_iff_lt_rank ascending (key + 1) inside
  omega

/-- An element's own place and its rank in a list without it make up a place of it in the union. -/
theorem getElem?_union {union : List Int} (unionAscending : union.Pairwise (· ≤ ·))
    (perm : union.Perm (values ++ others)) (ascending : values.Pairwise (· ≤ ·)) {place : Nat}
    (inside : place < values.length) (absent : values[place] ∉ others) :
    union[rank others values[place] + place]? = some values[place] := by
  obtain ⟨fromBelow, toAbove⟩ := (getElem_eq_iff ascending values[place] inside).mp rfl
  have ranks : ∀ key, rank union key = rank values key + rank others key := fun key =>
    (rank_congr perm key).trans (rank_append values others key)
  have least := ranks values[place]
  have most := ranks (values[place] + 1)
  rw [rank_succ_of_not_mem absent] at most
  have bounded : rank others values[place] + place < union.length := by
    have := rank_le_length union (values[place] + 1)
    omega
  rw [List.getElem?_eq_getElem bounded, Option.some.injEq, getElem_eq_iff unionAscending _ bounded]
  omega

end Rank

namespace Bisection

variable {values : Array Int}

/-- Bisection finds the rank of a key if it starts from an interval that holds it. -/
theorem lowerBound_eq_rank (ascending : values.toList.Pairwise (· ≤ ·)) (key : Int)
    {low high : Nat} (above : low ≤ rank values.toList key)
    (below : rank values.toList key ≤ high) (inside : high ≤ values.size) :
    lowerBound values key low high = rank values.toList key := by
  fun_induction lowerBound values key low high with
  | case1 low high proper middle smaller ih =>
      have stored : middle < values.toList.length := by
        rw [Array.length_toList]; omega
      rw [Array.getD_eq_getD_getElem?, ← Array.getElem?_toList,
        List.getElem?_eq_getElem stored] at smaller
      have passed := (getElem_lt_iff_lt_rank ascending key stored).mp smaller
      exact ih passed below inside
  | case2 low high proper middle notSmaller ih =>
      have stored : middle < values.toList.length := by
        rw [Array.length_toList]; omega
      rw [Array.getD_eq_getD_getElem?, ← Array.getElem?_toList,
        List.getElem?_eq_getElem stored] at notSmaller
      have reached := (getElem_lt_iff_lt_rank ascending key stored).not.mp notSmaller
      exact ih above (Nat.le_of_not_lt reached) (by omega)
  | case3 low high empty => omega

/-- Searching on from the rank of the previous key finds the ranks of ascending keys. -/
theorem lowerBoundsFrom_eq_ranks (ascending : values.toList.Pairwise (· ≤ ·)) {previous : Int}
    {keys : List Int} (larger : ∀ key ∈ keys, previous ≤ key) (sorted : keys.Pairwise (· ≤ ·)) :
    lowerBoundsFrom values previous (rank values.toList previous) keys =
      keys.map (rank values.toList) := by
  induction keys generalizing previous with
  | nil => rfl
  | cons key rest ih =>
      have ⟨above, restSorted⟩ := List.pairwise_cons.mp sorted
      have bounded : rank values.toList key ≤ values.size := by
        simpa using rank_le_length values.toList key
      have notBelow : previous ≤ key := larger key List.mem_cons_self
      -- a key that comes again is searched for downwards, just behind its place
      have found : (if previous < key then
            lowerBound values key (rank values.toList previous) values.size
          else lowerBound values key 0 (min (rank values.toList previous + 1) values.size)) =
          rank values.toList key := by
        split
        next less =>
          exact lowerBound_eq_rank ascending key (rank_mono _ notBelow) bounded Nat.le.refl
        next notLess =>
          obtain rfl : previous = key := by omega
          exact lowerBound_eq_rank ascending previous (Nat.zero_le _) (by omega) (by omega)
      simp only [lowerBoundsFrom, found, List.map_cons]
      rw [ih above restSorted]

theorem lowerBounds_eq_ranks (ascending : values.toList.Pairwise (· ≤ ·)) {keys : List Int}
    (sorted : keys.Pairwise (· ≤ ·)) :
    lowerBounds values keys = keys.map (rank values.toList) := by
  cases keys with
  | nil => rfl
  | cons key rest =>
      have ⟨above, restSorted⟩ := List.pairwise_cons.mp sorted
      have bounded : rank values.toList key ≤ values.size := by
        simpa using rank_le_length values.toList key
      have found : lowerBound values key 0 (min (values.size + 1) values.size) =
          rank values.toList key := by
        apply lowerBound_eq_rank ascending key (Nat.zero_le _)
        · omega
        · omega
      simp only [lowerBounds, lowerBoundsFrom, Int.lt_irrefl, if_false, found, List.map_cons]
      rw [lowerBoundsFrom_eq_ranks ascending above restSorted]

end Bisection

namespace Buffer

variable {left ids union : List Int}

/-- The cells that a merge writes, one after the other, with what it writes there. -/
def mergeWrites (left ids : List Int) : List (Nat × Int) :=
  (places left ids).zip left ++ (places ids left).zip ids

/-- A merge makes room for all elements, writes them and puts their cells into use. -/
theorem mergeInto_eq_writeAll (buffer out : Buffer) (ids : List Int) :
    buffer.mergeInto ids out =
      { (out.grow (buffer.view.length + ids.length)).writeAll (mergeWrites buffer.view ids) with
        size := buffer.view.length + ids.length } := by
  rw [mergeWrites, writeAll_append]
  rfl

/-- The place of an element is its rank in the other list behind its own place. -/
theorem places_eq (idsAscending : ids.Pairwise (· ≤ ·)) {others : List Int}
    (othersAscending : others.Pairwise (· ≤ ·)) :
    places ids others = ids.zipIdx.map fun (id, place) => rank others id + place := by
  have bounds := Bisection.lowerBounds_eq_ranks
    (show others.toArray.toList.Pairwise (· ≤ ·) from othersAscending) idsAscending
  rw [places, bounds, List.zipIdx_map, List.map_map]
  rfl

theorem length_places (idsAscending : ids.Pairwise (· ≤ ·)) {others : List Int}
    (othersAscending : others.Pairwise (· ≤ ·)) : (places ids others).length = ids.length := by
  rw [places_eq idsAscending othersAscending, List.length_map, List.length_zipIdx]

/-- The places of the elements of one list ascend. -/
theorem pairwise_places (idsAscending : ids.Pairwise (· ≤ ·)) {others : List Int}
    (othersAscending : others.Pairwise (· ≤ ·)) : (places ids others).Pairwise (· < ·) := by
  rw [places_eq idsAscending othersAscending, List.pairwise_iff_getElem]
  intro first second firstInside secondInside less
  have firstBounded : first < ids.length := by simpa using firstInside
  have secondBounded : second < ids.length := by simpa using secondInside
  have ordered := List.pairwise_iff_getElem.mp idsAscending first second firstBounded secondBounded
    less
  have ranks := rank_mono others ordered
  simp only [List.getElem_map, List.getElem_zipIdx, Nat.zero_add]
  omega

/-- One half of a merge writes each element at a place that the union holds it. -/
theorem union_of_mem_zip_places (idsAscending : ids.Pairwise (· ≤ ·)) {others : List Int}
    (othersAscending : others.Pairwise (· ≤ ·)) (unionAscending : union.Pairwise (· ≤ ·))
    (perm : union.Perm (ids ++ others)) (disjoint : ids.Disjoint others) {item : Nat × Int}
    (written : item ∈ (places ids others).zip ids) :
    union[item.1]? = some item.2 := by
  rw [places_eq idsAscending othersAscending] at written
  obtain ⟨place, inside, rfl⟩ := List.mem_iff_getElem.mp written
  have bounded : place < ids.length := by simpa using inside
  simp only [List.getElem_zip, List.getElem_map, List.getElem_zipIdx, Nat.zero_add]
  exact getElem?_union unionAscending perm idsAscending bounded
    fun other => disjoint (List.getElem_mem bounded) other

/-- Two ascending lists without a common element, and the ascending list of all their elements. -/
structure Merges (left ids union : List Int) : Prop where
  left_ascending : left.Pairwise (· ≤ ·)
  ids_ascending : ids.Pairwise (· ≤ ·)
  disjoint : left.Disjoint ids
  union_ascending : union.Pairwise (· ≤ ·)
  perm : union.Perm (left ++ ids)

namespace Merges

variable (merges : Merges left ids union)

include merges

theorem length_eq : union.length = left.length + ids.length := by
  rw [merges.perm.length_eq, List.length_append]

theorem union_of_mem_mergeWrites {item : Nat × Int} (written : item ∈ mergeWrites left ids) :
    union[item.1]? = some item.2 := by
  rcases List.mem_append.mp written with first | second
  · exact union_of_mem_zip_places merges.left_ascending merges.ids_ascending
      merges.union_ascending merges.perm merges.disjoint first
  · exact union_of_mem_zip_places merges.ids_ascending merges.left_ascending
      merges.union_ascending (merges.perm.trans List.perm_append_comm)
      (List.disjoint_symm merges.disjoint) second

theorem map_fst_mergeWrites :
    (mergeWrites left ids).map Prod.fst = places left ids ++ places ids left := by
  have leftLength := length_places merges.left_ascending merges.ids_ascending
  have idsLength := length_places merges.ids_ascending merges.left_ascending
  rw [mergeWrites, List.map_append, List.map_fst_zip (Nat.le_of_eq leftLength),
    List.map_fst_zip (Nat.le_of_eq idsLength)]

/-- The two lists are written to different places: a common place would hold an element of both. -/
theorem disjoint_places : (places left ids).Disjoint (places ids left) := by
  intro place isLeft isOther
  have leftLength := length_places merges.left_ascending merges.ids_ascending
  have idsLength := length_places merges.ids_ascending merges.left_ascending
  rw [← List.map_fst_zip (Nat.le_of_eq leftLength)] at isLeft
  rw [← List.map_fst_zip (Nat.le_of_eq idsLength)] at isOther
  obtain ⟨first, firstWritten, firstPlace⟩ := List.mem_map.mp isLeft
  obtain ⟨second, secondWritten, secondPlace⟩ := List.mem_map.mp isOther
  have firstHeld := merges.union_of_mem_mergeWrites (List.mem_append_left _ firstWritten)
  have secondHeld := merges.union_of_mem_mergeWrites (List.mem_append_right _ secondWritten)
  rw [firstPlace] at firstHeld
  rw [secondPlace, firstHeld] at secondHeld
  have same : first.2 = second.2 := Option.some.inj secondHeld
  exact merges.disjoint (List.of_mem_zip firstWritten).2 (same ▸ (List.of_mem_zip secondWritten).2)

/-- Every cell of the merged part is written exactly once. -/
theorem places_perm :
    ((mergeWrites left ids).map Prod.fst).Perm (List.range (left.length + ids.length)) := by
  have distinct : ((mergeWrites left ids).map Prod.fst).Nodup := by
    rw [merges.map_fst_mergeWrites, List.nodup_append']
    exact ⟨(pairwise_places merges.left_ascending merges.ids_ascending).imp Nat.ne_of_lt,
      (pairwise_places merges.ids_ascending merges.left_ascending).imp Nat.ne_of_lt,
      merges.disjoint_places⟩
  have inRange : (mergeWrites left ids).map Prod.fst ⊆
      List.range (left.length + ids.length) := by
    intro place member
    obtain ⟨item, written, rfl⟩ := List.mem_map.mp member
    obtain ⟨inside, -⟩ :=
      List.getElem?_eq_some_iff.mp (merges.union_of_mem_mergeWrites written)
    rw [List.mem_range, ← merges.length_eq]
    exact inside
  have length : (List.range (left.length + ids.length)).length =
      ((mergeWrites left ids).map Prod.fst).length := by
    rw [merges.map_fst_mergeWrites, List.length_append, List.length_range,
      length_places merges.left_ascending merges.ids_ascending,
      length_places merges.ids_ascending merges.left_ascending]
  exact (List.subperm_of_subset distinct inRange).perm_of_length_le (Nat.le_of_eq length)

/-- Merging two ascending lists without a common element gives the ascending list of all
their elements, whatever the storage held before. -/
theorem view_mergeInto {buffer : Buffer} (view : buffer.view = left) (out : Buffer) :
    (buffer.mergeInto ids out).view = union := by
  have room := out.le_capacity_grow (left.length + ids.length)
  rw [mergeInto_eq_writeAll, view]
  apply List.ext_getElem?
  intro place
  rw [view_getElem?]
  split
  next inUse =>
    obtain ⟨item, written, rfl⟩ :=
      List.mem_map.mp (merges.places_perm.mem_iff.mpr (List.mem_range.mpr inUse))
    rw [merges.union_of_mem_mergeWrites written]
    exact writeAll_getElem?_of_mem (merges.places_perm.nodup_iff.mpr List.nodup_range) written
      (Nat.lt_of_lt_of_le inUse room)
  next beyond =>
    rw [List.getElem?_eq_none]
    rw [merges.length_eq]
    exact Nat.le_of_not_lt beyond

end Merges

end Buffer

/-- Every list has an ascending arrangement. -/
theorem exists_ascending (values : List Int) :
    ∃ union : List Int, union.Pairwise (· ≤ ·) ∧ union.Perm values := by
  refine ⟨values.mergeSort fun left right => left ≤ right, ?_, List.mergeSort_perm _ _⟩
  have sorted : (values.mergeSort fun left right => left ≤ right).Pairwise
      fun left right => decide (left ≤ right) = true :=
    List.pairwise_mergeSort (fun left middle right => by simpa using Int.le_trans)
      (fun left right => by simpa using Int.le_total left right) _
  exact sorted.imp of_decide_eq_true

/-- An ascending arrangement without repetition ascends strictly. -/
theorem pairwise_lt_of_perm {union values : List Int} (ascending : union.Pairwise (· ≤ ·))
    (perm : union.Perm values) (distinct : values.Nodup) : union.Pairwise (· < ·) :=
  (ascending.and (perm.nodup_iff.mpr distinct)).imp fun ⟨atMost, differ⟩ =>
    Int.lt_iff_le_and_ne.mpr ⟨atMost, differ⟩

/-- Two lists without a repeated element between them have an ascending union. -/
theorem exists_ascending_perm {values : List Int} (distinct : values.Nodup) :
    ∃ union : List Int, union.Pairwise (· < ·) ∧ union.Perm values := by
  obtain ⟨union, ascending, perm⟩ := exists_ascending values
  exact ⟨union, pairwise_lt_of_perm ascending perm distinct, perm⟩

namespace Workspace

variable {workspace : Workspace} {lists : List (List Int)}

/-- Collecting an ascending list adds its elements to an ascending collection. -/
theorem collect_spec {ids : List Int} (ascending : workspace.below.view.Pairwise (· ≤ ·))
    (idsAscending : ids.Pairwise (· ≤ ·)) (disjoint : workspace.below.view.Disjoint ids) :
    (workspace.collect ids).below.view.Pairwise (· ≤ ·) ∧
      (workspace.collect ids).below.view.Perm (workspace.below.view ++ ids) := by
  obtain ⟨union, unionAscending, perm⟩ := exists_ascending (workspace.below.view ++ ids)
  have merges : Buffer.Merges workspace.below.view ids union :=
    ⟨ascending, idsAscending, disjoint, unionAscending, perm⟩
  rw [collect, merges.view_mergeInto rfl]
  exact ⟨unionAscending, perm⟩

theorem foldl_collect_spec (workspace : Workspace)
    (ascending : workspace.below.view.Pairwise (· ≤ ·))
    (sorted : ∀ ids ∈ lists, ids.Pairwise (· ≤ ·))
    (disjoint : (workspace.below.view :: lists).Pairwise List.Disjoint)
    (full : workspace.below.size = workspace.below.view.length) :
    let collected := lists.foldl collect workspace
    collected.below.view.Pairwise (· ≤ ·) ∧
      collected.below.view.Perm (workspace.below.view ++ lists.flatten) ∧
      collected.below.size = collected.below.view.length ∧
      collected.marks = workspace.marks := by
  induction lists generalizing workspace with
  | nil => simpa using ⟨ascending, full⟩
  | cons ids rest ih =>
      obtain ⟨fromView, fromLists⟩ := List.pairwise_cons.mp disjoint
      obtain ⟨fromIds, restDisjoint⟩ := List.pairwise_cons.mp fromLists
      obtain ⟨nextAscending, nextPerm⟩ := collect_spec ascending
        (sorted ids List.mem_cons_self) (fromView ids List.mem_cons_self)
      have nextFull : (workspace.collect ids).below.size =
          (workspace.collect ids).below.view.length := by
        rw [nextPerm.length_eq, List.length_append]
        rfl
      have nextDisjoint : ((workspace.collect ids).below.view :: rest).Pairwise List.Disjoint := by
        refine .cons (fun other member id collected isOther => ?_) restDisjoint
        rcases List.mem_append.mp (nextPerm.mem_iff.mp collected) with before | added
        · exact fromView other (List.mem_cons_of_mem _ member) before isOther
        · exact fromIds other member added isOther
      obtain ⟨restAscending, restPerm, restFull, restMarks⟩ := ih _ nextAscending
        (fun other member => sorted other (List.mem_cons_of_mem _ member)) nextDisjoint nextFull
      refine ⟨restAscending, ?_, restFull, restMarks⟩
      rw [List.flatten_cons, ← List.append_assoc]
      exact restPerm.trans (nextPerm.append_right _)

/-- Collecting pairwise disjoint ascending lists ends with the ascending list of all their
elements, whatever the buffers held before. -/
theorem collectAll_ascending (workspace : Workspace) (sorted : ∀ ids ∈ lists, ids.Pairwise (· ≤ ·))
    (disjoint : lists.Pairwise List.Disjoint) :
    let collected := workspace.collectAll lists
    collected.below.view.Pairwise (· ≤ ·) ∧ collected.below.view.Perm lists.flatten ∧
      collected.below.size = lists.flatten.length ∧ collected.marks = workspace.marks := by
  have empty : workspace.reset.below.view = [] := Buffer.view_clear _
  obtain ⟨ascending, perm, full, marks⟩ := foldl_collect_spec workspace.reset
    (by rw [empty]; exact .nil) sorted
    (by rw [empty]; exact .cons (fun other _ => List.disjoint_nil_left other) disjoint)
    (by rw [empty]; rfl)
  rw [empty, List.nil_append] at perm
  exact ⟨ascending, perm, full.trans perm.length_eq, marks⟩

/-- If no element is repeated, the collected ones ascend strictly. -/
theorem collectAll_spec (workspace : Workspace) (sorted : ∀ ids ∈ lists, ids.Pairwise (· < ·))
    (distinct : lists.flatten.Nodup) :
    let collected := workspace.collectAll lists
    collected.below.view.Pairwise (· < ·) ∧ collected.below.view.Perm lists.flatten ∧
      collected.below.size = lists.flatten.length ∧ collected.marks = workspace.marks := by
  obtain ⟨ascending, perm, size, marks⟩ := workspace.collectAll_ascending
    (fun ids member => (sorted ids member).imp Int.le_of_lt) (List.nodup_flatten.mp distinct).2
  exact ⟨pairwise_lt_of_perm ascending perm distinct, perm, size, marks⟩

end Workspace

end DecisionTree
