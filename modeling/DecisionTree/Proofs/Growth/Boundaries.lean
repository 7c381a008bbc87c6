import DecisionTree.Proofs.Growth.Kinds

/-!
# The boundaries among some examples

In exact arithmetic the boundaries of a column are the pairs of consecutive values of its examples,
in ascending order (`Column.Groups.exists_boundary`, `Column.Groups.pairwise_boundaries`).  The
histograms beside a boundary are those of the examples up to its lower value and from its upper
value on (`Column.Groups.sides`).  For all that, the ids in an entry need not be in order.
-/

namespace DecisionTree

namespace Growth

variable {α : Type} [Scalar α]

theorem map_lower_boundariesFrom (index : Nat) (less greater : List α) (entries : List (Entry α)) :
    (boundariesFrom index less greater entries).map Boundary.lower =
      (entries.map Entry.value).dropLast := by
  induction entries generalizing index less greater with
  | nil => rfl
  | cons entry rest ih =>
      cases rest with
      | nil => rfl
      | cons next others =>
          rw [boundariesFrom, List.map_cons, ih]
          rfl

/-- The boundaries depend on the values and histograms of the entries only. -/
theorem boundariesFrom_map (change : Entry α → Entry α)
    (value : ∀ entry, (change entry).value = entry.value)
    (counts : ∀ entry, (change entry).counts = entry.counts) (index : Nat) (less greater : List α)
    (entries : List (Entry α)) :
    boundariesFrom index less greater (entries.map change) =
      boundariesFrom index less greater entries := by
  induction entries generalizing index less greater with
  | nil => rfl
  | cons entry rest ih =>
      cases rest with
      | nil => rfl
      | cons next others =>
          simp only [List.map_cons, boundariesFrom, value, counts] at ih ⊢
          rw [ih]

end Growth

open Growth

variable {K : Type} [Field K] [LinearOrder K]

namespace Consecutive

variable {value : Int → K} {ids : List Int} {lower upper : K}

omit [Field K] in
/-- What has at least the upper one of two consecutive values has not at most the lower one. -/
theorem upper_le_iff (consecutive : Consecutive value ids lower upper) {index : Int}
    (isId : index ∈ ids) : upper ≤ value index ↔ ¬ value index ≤ lower := by
  rcases consecutive.beside index isId with atMost | atLeast
  · exact iff_of_false (not_le.mpr (atMost.trans_lt consecutive.less)) (not_not.mpr atMost)
  · exact iff_of_true atLeast (not_le.mpr (consecutive.less.trans_le atLeast))

omit [Field K] in
/-- Two consecutive values divide the examples. -/
theorem perm_sides (consecutive : Consecutive value ids lower upper) :
    ((ids.filter fun index => decide (value index ≤ lower)) ++
      ids.filter fun index => decide (upper ≤ value index)).Perm ids := by
  have above : (ids.filter fun index => decide (upper ≤ value index)) =
      ids.filter fun index => !decide (value index ≤ lower) := by
    refine List.filter_congr fun index isId => ?_
    rw [← decide_not, decide_eq_decide]
    exact consecutive.upper_le_iff isId
  rw [above]
  exact List.filter_append_perm _ ids

end Consecutive

namespace Column

/-- A column lists each of some examples once, grouped by strictly ascending value, with the
histograms of the groups. -/
structure Groups (targets : Targets K) (value : Int → K) (ids : List Int) (column : Column K) :
    Prop where
  ascending : column.entries.Pairwise fun left right => left.value < right.value
  nonempty : ∀ entry ∈ column.entries, entry.indices ≠ []
  valued : ∀ entry ∈ column.entries, ∀ index ∈ entry.indices, value index = entry.value
  counted : ∀ entry ∈ column.entries, entry.counts = targets.tally entry.indices
  perm : column.indices.Perm ids
  nodup : ids.Nodup

/-- A column that describes different examples groups them. -/
theorem Describes.groups {targets : Targets K} {value : Int → K} {ids : List Int}
    {column : Column K} (describes : column.Describes targets value ids) (distinct : ids.Nodup) :
    column.Groups targets value ids where
  ascending := describes.ascending.imp Exact.lt_iff.mp
  nonempty := fun entry member => (describes.settled entry member).nonempty
  valued := fun _ member _ held => describes.value_eq member held
  counted := fun entry member => (describes.settled entry member).counted
  perm := describes.perm
  nodup := distinct

/-- The same entry with its ids in ascending order. -/
def settleEntry (entry : Entry K) : Entry K :=
  { entry with indices := Sorting.sort (fun left right => decide (left ≤ right)) entry.indices }

/-- The same column with the ids of every entry in ascending order. -/
def settle (targets : Targets K) (column : Column K) : Column K :=
  { column with targets, pending := [], entries := column.entries.map settleEntry }

namespace Groups

variable {targets : Targets K} {value : Int → K} {ids : List Int} {column : Column K}
variable {lower upper : K}

omit [Field K] [LinearOrder K] in
theorem perm_settleEntry (entry : Entry K) : (settleEntry entry).indices.Perm entry.indices :=
  Sorting.perm_sort _ _

omit [Field K] [LinearOrder K] in
theorem pairwise_settleEntry {entry : Entry K} (distinct : entry.indices.Nodup) :
    (settleEntry entry).indices.Pairwise (· < ·) := by
  have ascending : (settleEntry entry).indices.Pairwise
      fun left right => decide (left ≤ right) = true :=
    Sorting.pairwise_sort (by simpa using Int.le_total) (by simpa using fun _ _ _ => Int.le_trans)
      entry.indices
  have different := (perm_settleEntry entry).nodup_iff.mpr distinct
  refine (ascending.and different).imp fun {left right} ⟨atMost, differ⟩ => ?_
  exact lt_of_le_of_ne (of_decide_eq_true atMost) differ

/-- With ids in order, a column that groups examples describes them. -/
theorem settle_describes (groups : column.Groups targets value ids) :
    (column.settle targets).Describes targets value ids where
  targets_eq := rfl
  pending_eq := rfl
  ascending := List.pairwise_map.mpr (groups.ascending.imp Exact.lt_iff.mpr)
  settled := by
    intro settled member
    obtain ⟨entry, entryMember, rfl⟩ := List.mem_map.mp member
    have perm := perm_settleEntry entry
    constructor
    · intro empty
      rw [empty] at perm
      exact groups.nonempty entry entryMember perm.nil_eq.symm
    · have distinct := (List.nodup_flatMap.mp (groups.perm.nodup_iff.mpr groups.nodup)).1
      exact pairwise_settleEntry (distinct entry entryMember)
    · exact (groups.counted entry entryMember).trans (Targets.tally_perm perm.symm)
  valued := by
    intro settled member index held
    obtain ⟨entry, entryMember, rfl⟩ := List.mem_map.mp member
    exact Exact.eq_iff.mpr
      (groups.valued entry entryMember index ((perm_settleEntry entry).mem_iff.mp held))
  perm := by
    refine List.Perm.trans ?_ groups.perm
    rw [Column.indices, settle, List.flatMap_map]
    exact List.Perm.flatMap_left column.entries fun entry _ => perm_settleEntry entry

theorem boundaries_settle (targets : Targets K) (column : Column K) (total : List K) :
    boundaries (column.settle targets) total = boundaries column total :=
  boundariesFrom_map settleEntry (fun _ => rfl) (fun _ => rfl) _ _ _ _

section Searched

variable {boundary : Boundary K}

/-- The boundaries ascend. -/
theorem pairwise_boundaries (groups : column.Groups targets value ids) (total : List K) :
    (boundaries column total).Pairwise fun first second => first.lower < second.lower := by
  have values : (column.entries.map Entry.value).Pairwise (· < ·) :=
    List.pairwise_map.mpr groups.ascending
  have lowers := values.sublist (List.dropLast_sublist _)
  rw [← map_lower_boundariesFrom 0 (Histogram.zero total.length) total column.entries] at lowers
  exact List.pairwise_map.mp lowers

/-- Two values that follow each other have a boundary between them. -/
theorem exists_boundary (groups : column.Groups targets value ids)
    (consecutive : Consecutive value ids lower upper) (total : List K) :
    ∃ boundary ∈ boundaries column total, boundary.lower = lower ∧ boundary.upper = upper := by
  rw [← boundaries_settle targets]
  have describes := groups.settle_describes
  generalize column.settle targets = settled at describes
  obtain ⟨lowerEntry, lowerMember, rfl⟩ :=
    List.mem_map.mp (describes.mem_values.mpr consecutive.lower_mem)
  obtain ⟨upperEntry, upperMember, rfl⟩ :=
    List.mem_map.mp (describes.mem_values.mpr consecutive.upper_mem)
  obtain ⟨place, lowerEq⟩ := List.getElem?_of_mem lowerMember
  obtain ⟨last, upperEq⟩ := List.getElem?_of_mem upperMember
  have before : place < last := by
    refine lt_of_not_ge fun notBefore => absurd consecutive.less (not_lt.mpr ?_)
    rcases notBefore.lt_or_eq with after | rfl
    · exact (Exact.lt_iff.mp (describes.lt_of_place_lt upperEq lowerEq after)).le
    · rw [Option.some.inj (lowerEq.symm.trans upperEq)]
  have inside : place + 1 < settled.entries.length :=
    Nat.lt_of_le_of_lt before (List.getElem?_eq_some_iff.mp upperEq).1
  have nextEq := List.getElem?_eq_getElem inside
  have above := Exact.lt_iff.mp (describes.lt_of_place_lt lowerEq nextEq place.lt_succ_self)
  -- the next value is that of an example, so it is not below the upper one
  obtain ⟨index, isId, valueEq⟩ :=
    describes.mem_values.mp (List.mem_map_of_mem (List.mem_of_getElem? nextEq))
  have adjacent : place + 1 = last := by
    refine (Nat.lt_or_eq_of_le before).resolve_left fun less => ?_
    have below := Exact.lt_iff.mp (describes.lt_of_place_lt nextEq upperEq less)
    rcases consecutive.beside index isId with atMost | atLeast
    · exact absurd above (not_lt.mpr (valueEq ▸ atMost))
    · exact absurd below (not_lt.mpr (valueEq ▸ atLeast))
  subst adjacent
  have found := boundariesFrom_getElem? 0 (Histogram.zero total.length) total settled.entries place
  rw [lowerEq, upperEq] at found
  exact ⟨_, List.mem_of_getElem? found, rfl, rfl⟩

/-- A boundary lies between two values that follow each other, and the histograms beside it are
those of the examples up to the lower one and from the upper one on. -/
theorem sides [IsStrictOrderedRing K] (groups : column.Groups targets value ids)
    (member : boundary ∈ boundaries column (targets.tally ids)) :
    Consecutive value ids boundary.lower boundary.upper ∧
      boundary.less =
        targets.tally (ids.filter fun index => decide (value index ≤ boundary.lower)) ∧
      boundary.greater =
        targets.tally (ids.filter fun index => decide (boundary.upper ≤ value index)) := by
  rw [← boundaries_settle targets] at member
  have describes := groups.settle_describes
  generalize column.settle targets = settled at describes member
  obtain ⟨place, lower, upper, lowerEq, upperEq, lowerValue, upperValue, lessEq, greaterEq⟩ :=
    mem_boundariesFrom member
  have consecutive := describes.consecutive lowerEq upperEq
  have separates := Exact.separates_midpoint (Exact.lt_iff.mpr consecutive.less)
  obtain ⟨before, after⟩ := describes.filter_goesLeft lowerEq upperEq separates
  rw [lowerValue, upperValue]
  refine ⟨consecutive, ?_, ?_⟩
  · rw [lessEq]
    refine (describes.lessAt_eq (Targets.length_tally _ _) place).trans ?_
    rw [← Targets.tally_perm before]
    exact congrArg targets.tally
      (List.filter_congr fun index isId => consecutive.goesLeft_eq separates isId)
  · rw [greaterEq, describes.greaterAt_eq .oneByOne, ← Targets.tally_perm after]
    refine congrArg targets.tally (List.filter_congr fun index isId => ?_)
    rw [consecutive.goesLeft_eq separates isId, ← decide_not, decide_eq_decide,
      consecutive.upper_le_iff isId]

end Searched

end Groups

end Column

end DecisionTree
