import DecisionTree.Dataset.Dense
import DecisionTree.Proofs.Buffer.Marks
import Mathlib.Algebra.Ring.Int.Defs
import Mathlib.Algebra.Ring.Nat
import Mathlib.Data.List.Nodup
import Mathlib.Data.List.Pairwise

/-!
# Sparse examples and the rows they come from

An example stores values for some features (`Example.valueAt`).  Spreading it out gives the row of
these values (`Example.Fits.row_eq`), unless the ids are refused.  They are not refused as long as
differences of ids fit 64 bits (`Example.Fits.checkIds_eq`).

The example of a row lists the values of the row that are not zero, so it stores what the row holds,
with positive zeros in place of all zeros (`Dataset.valueAt_exampleOfRow`).
-/

namespace DecisionTree

variable {α : Type} [Scalar α]

namespace Dataset

/-- A value with positive zero in place of every zero. -/
def clearZero (value : α) : α :=
  if Scalar.eq value 0 then 0 else value

/-- The values of a row that are not zero, for places counted from a first one. -/
def sparseFrom (first : Nat) (row : List α) : List (Int × α) :=
  ((row.zipIdx first).filter fun (value, _) => !Scalar.eq value 0).map
    fun (value, id) => ((id : Int), value)

theorem sparseFrom_cons (first : Nat) (value : α) (rest : List α) :
    sparseFrom first (value :: rest) =
      if Scalar.eq value 0 then sparseFrom (first + 1) rest
      else ((first : Int), value) :: sparseFrom (first + 1) rest := by
  cases zero : Scalar.eq value 0 <;> simp [sparseFrom, List.zipIdx_cons, zero]

/-- All ids of a sparse row are places of the row. -/
theorem bounds_of_mem_sparseFrom {first : Nat} {row : List α} {item : Int × α}
    (member : item ∈ sparseFrom first row) :
    (first : Int) ≤ item.1 ∧ item.1 < ((first + row.length : Nat) : Int) := by
  induction row generalizing first with
  | nil => simp [sparseFrom] at member
  | cons value rest ih =>
      rw [sparseFrom_cons] at member
      have later : item ∈ sparseFrom (first + 1) rest →
          (first : Int) ≤ item.1 ∧ item.1 < ((first + (value :: rest).length : Nat) : Int) := by
        intro member
        have := ih member
        rw [List.length_cons]
        omega
      split at member
      · exact later member
      · rcases List.mem_cons.mp member with rfl | member
        · rw [List.length_cons]
          constructor
          · exact Int.le_refl _
          · simp only
            omega
        · exact later member

/-- The ids of a sparse row ascend. -/
theorem pairwise_sparseFrom (first : Nat) (row : List α) :
    (sparseFrom first row).Pairwise fun left right => left.1 < right.1 := by
  induction row generalizing first with
  | nil => exact .nil
  | cons value rest ih =>
      rw [sparseFrom_cons]
      split
      · exact ih (first + 1)
      · refine .cons (fun item member => ?_) (ih (first + 1))
        have := bounds_of_mem_sparseFrom member
        simp only
        omega

theorem mem_sparse {row : List α} {id : Int} {value : α} :
    (id, value) ∈ sparse row ↔
      ∃ place : Nat, id = place ∧ row[place]? = some value ∧ Scalar.eq value 0 = false := by
  simp only [sparse, List.mem_map, List.mem_filter, Prod.exists, Bool.not_eq_true',
    List.mem_zipIdx_iff_getElem?, Prod.mk.injEq]
  constructor
  · rintro ⟨_, place, ⟨found, nonzero⟩, rfl, rfl⟩
    exact ⟨place, rfl, found, nonzero⟩
  · rintro ⟨place, rfl, found, nonzero⟩
    exact ⟨value, place, ⟨found, nonzero⟩, rfl, rfl⟩

end Dataset

namespace Example

/-- Going from an id to the next looks like going up in 64 bits: it is a step up, or such a long way
down that the difference wraps around. -/
def Climbs (previous next : Int) : Prop :=
  previous < next ∧ next - previous < 2 ^ 63 ∨ 2 ^ 63 < previous - next

/-- The difference of two ids of 64 bits is positive exactly if going from one to the other looks
like going up. -/
theorem stepBetween_pos_iff {previous next : Int}
    (near : -2 ^ 64 < next - previous ∧ next - previous < 2 ^ 64) :
    0 < stepBetween previous next ↔ Climbs previous next := by
  have modulus : ((1 <<< 64 : Nat) : Int) = 2 ^ 64 := rfl
  rw [stepBetween, Climbs, Int.bmod_def, modulus]
  split <;> omega

/-- The differences of neighbours are positive exactly along a chain of such neighbours. -/
theorem forall_steps {ids : List Int} : (∀ step ∈ steps ids, 0 < step.2.2) ↔
    ids.IsChain fun previous next => 0 < stepBetween previous next := by
  induction ids with
  | nil => simp [steps]
  | cons first rest ih =>
      cases rest with
      | nil => simp [steps]
      | cons second others =>
          have split : steps (first :: second :: others) =
              (first, second, stepBetween first second) :: steps (second :: others) := rfl
          rw [split, List.forall_mem_cons, List.isChain_cons_cons, ih]

/-- Ids are accepted exactly if there is a value for each, the differences of neighbours are
positive, and the first and the last one lie in the range. -/
theorem checkIds_eq_ok {ids : List Int} {count : Nat} {width : Int} :
    checkIds ids count width = .ok () ↔ ids.length = count ∧
      ids.IsChain (fun previous next => 0 < stepBetween previous next) ∧
      (∀ first, ids.head? = some first → 0 ≤ first) ∧
      ∀ last, ids.getLast? = some last → last < width := by
  rw [← forall_steps]
  by_cases paired : ids.length = count
  case neg =>
    simp only [checkIds, ne_eq, paired, not_false_eq_true, if_true, false_and, iff_false]
    rintro ⟨⟩
  simp only [checkIds, ne_eq, paired, not_true_eq_false, if_false, true_and]
  cases back : (steps ids).find? fun step => decide (step.2.2 < 0) with
  | some step =>
      have negative : step.2.2 < 0 := by simpa using List.find?_some back
      have refused : ¬ ∀ step ∈ steps ids, 0 < step.2.2 := fun positive =>
        Int.lt_asymm negative (positive step (List.mem_of_find?_eq_some back))
      simp only [refused, false_and, iff_false]
      rintro ⟨⟩
  | none =>
  cases same : (steps ids).find? fun step => decide (step.2.2 = 0) with
  | some step =>
      have zero : step.2.2 = 0 := by simpa using List.find?_some same
      have refused : ¬ ∀ step ∈ steps ids, 0 < step.2.2 := fun positive =>
        Int.ne_of_gt (positive step (List.mem_of_find?_eq_some same)) zero
      simp only [refused, false_and, iff_false]
      rintro ⟨⟩
  | none =>
  have positive : ∀ step ∈ steps ids, 0 < step.2.2 := by
    intro step member
    have notBack := List.find?_eq_none.mp back step member
    have notSame := List.find?_eq_none.mp same step member
    simp only [decide_eq_true_eq] at notBack notSame
    omega
  rw [and_iff_right positive]
  cases ids with
  | nil => simp [pure, Except.pure]
  | cons first rest =>
      rw [List.head?_cons, List.getLast?_eq_some_getLast (List.cons_ne_nil first rest)]
      simp only [Option.some.injEq, forall_eq']
      split
      next outside =>
        constructor
        · rintro ⟨⟩
        · rintro ⟨firstInside, lastInside⟩
          omega
      next inside =>
        rw [not_or, Int.not_lt, Int.not_le] at inside
        exact ⟨fun _ => inside, fun _ => rfl⟩

/-- Ascending ids of a row are accepted, as long as they fit 64 bits. -/
theorem checkIds_of_pairwise {ids : List Int} {width : Int} (ascending : ids.Pairwise (· < ·))
    (inside : ∀ id ∈ ids, 0 ≤ id ∧ id < width) (near : ∀ id ∈ ids, id < 2 ^ 63) :
    checkIds ids ids.length width = .ok () := by
  have climbing : ids.Pairwise fun previous next => 0 < stepBetween previous next := by
    refine ascending.imp_of_mem fun {previous next} isPrevious isNext above => ?_
    have previousInside := inside previous isPrevious
    have nextNear := near next isNext
    exact (stepBetween_pos_iff (by omega)).mpr (.inl (by omega))
  exact checkIds_eq_ok.mpr ⟨rfl, climbing.isChain,
    fun first found => (inside first (List.mem_of_head? found)).1,
    fun last found => (inside last (List.mem_of_getLast? found)).2⟩

/-- The value that an example stores for a feature; zero if it stores none. -/
def valueAt (e : Example α) (feature : Nat) : α :=
  ((e.ids.zip e.values).lookup (feature : Int)).getD 0

/-- The ids of an example ascend and are those of features, and each comes with a value. -/
structure Fits (e : Example α) (width : Nat) : Prop where
  ascending : e.ids.Pairwise (· < ·)
  inside : ∀ id ∈ e.ids, 0 ≤ id ∧ id < width
  length_eq : e.values.length = e.ids.length

omit [Scalar α] in
/-- Among pairs with different keys, looking up a key finds its pair. -/
theorem lookup_eq_some_iff {κ : Type} [BEq κ] [LawfulBEq κ] {pairs : List (κ × α)}
    (distinct : (pairs.map Prod.fst).Nodup) {key : κ} {value : α} :
    pairs.lookup key = some value ↔ (key, value) ∈ pairs := by
  induction pairs with
  | nil => simp
  | cons pair rest ih =>
      obtain ⟨first, own⟩ := pair
      rw [List.map_cons, List.nodup_cons] at distinct
      rw [List.lookup_cons, List.mem_cons, Prod.mk.injEq]
      cases same : key == first with
      | true =>
          obtain rfl := eq_of_beq same
          have absent : (key, value) ∉ rest := fun member =>
            distinct.1 (List.mem_map.mpr ⟨_, member, rfl⟩)
          simp [absent, eq_comm]
      | false =>
          have differ : key ≠ first := ne_of_beq_false same
          simp only [differ, false_and, false_or]
          exact ih distinct.2

omit [Scalar α] in
/-- Writing values at different places of a row. -/
theorem getElem?_foldl_set {pairs : List (Nat × α)} (distinct : (pairs.map Prod.fst).Nodup)
    (row : List α) (place : Nat) :
    (pairs.foldl (fun cells (place, value) => cells.set place value) row)[place]? =
      row[place]?.map fun old => (pairs.lookup place).getD old := by
  induction pairs generalizing row with
  | nil => simp
  | cons pair rest ih =>
      obtain ⟨first, value⟩ := pair
      rw [List.map_cons, List.nodup_cons] at distinct
      rw [List.foldl_cons, ih distinct.2, List.lookup_cons, List.getElem?_set]
      by_cases own : first = place
      · subst own
        have absent : rest.lookup first = none := by
          refine Option.eq_none_iff_forall_ne_some.mpr fun other found => ?_
          have member := (lookup_eq_some_iff distinct.2).mp found
          exact distinct.1 (List.mem_map.mpr ⟨_, member, rfl⟩)
        by_cases inside : first < row.length
        · simp [absent, inside]
        · simp [inside]
      · have differ : (place == first) = false := beq_false_of_ne (Ne.symm own)
        rw [if_neg own, differ]

omit [Scalar α] in
/-- Ids that are not negative can be looked up as places. -/
theorem lookup_toNat {pairs : List (Int × α)} (nonneg : ∀ pair ∈ pairs, 0 ≤ pair.1) (place : Nat) :
    (pairs.map fun pair => (pair.1.toNat, pair.2)).lookup place = pairs.lookup (place : Int) := by
  induction pairs with
  | nil => rfl
  | cons pair rest ih =>
      have own := nonneg pair List.mem_cons_self
      have same : (place == pair.1.toNat) = ((place : Int) == pair.1) := by
        rw [Bool.eq_iff_iff, beq_iff_eq, beq_iff_eq]
        omega
      rw [List.map_cons, List.lookup_cons, List.lookup_cons, same,
        ih fun other member => nonneg other (List.mem_cons_of_mem _ member)]

namespace Fits

variable {e : Example α} {width : Nat} (fits : e.Fits width)

include fits

omit [Scalar α] in
/-- Ids are accepted if they fit 64 bits. -/
theorem checkIds_eq (near : ∀ id ∈ e.ids, id < 2 ^ 63) :
    checkIds e.ids e.values.length width = .ok () := by
  rw [fits.length_eq]
  exact checkIds_of_pairwise fits.ascending fits.inside near

omit [Scalar α] in
theorem keys_eq : (e.ids.zip e.values).map Prod.fst = e.ids :=
  List.map_fst_zip (Nat.le_of_eq fits.length_eq.symm)

omit [Scalar α] in
theorem nodup_ids : e.ids.Nodup :=
  fits.ascending.imp Int.ne_of_lt

theorem write?_eq :
    write? (List.replicate width 0) e.ids e.values = some ((List.range width).map e.valueAt) := by
  have places : e.ids.mapM (Position.resolve (List.replicate width (0 : α)).length) =
      some (e.ids.map Int.toNat) := by
    rw [List.length_replicate]
    exact Outcome.mapM_eq_some_map fun id member =>
      Buffer.resolve_of_spans (fits.inside id member).1 (fits.inside id member).2
  have zipped : (e.ids.map Int.toNat).zip e.values =
      (e.ids.zip e.values).map fun pair => (pair.1.toNat, pair.2) := by
    rw [List.zip_map_left]
    rfl
  have nonneg : ∀ pair ∈ e.ids.zip e.values, 0 ≤ pair.1 := fun pair member =>
    (fits.inside pair.1 (List.of_mem_zip member).1).1
  have distinct : (((e.ids.zip e.values).map fun pair => (pair.1.toNat, pair.2)).map
      Prod.fst).Nodup := by
    have keys : ((e.ids.zip e.values).map fun pair => (pair.1.toNat, pair.2)).map Prod.fst =
        e.ids.map Int.toNat := by
      conv_rhs => rw [← fits.keys_eq, List.map_map]
      rw [List.map_map]
      rfl
    rw [keys]
    refine List.Nodup.map_on (fun id member other otherMember same => ?_) fits.nodup_ids
    have own := (fits.inside id member).1
    have others := (fits.inside other otherMember).1
    omega
  rw [write?, places, Option.map_some, zipped]
  congr 1
  apply List.ext_getElem?
  intro place
  rw [getElem?_foldl_set distinct, lookup_toNat nonneg, List.getElem?_map]
  by_cases inside : place < width
  · simp [inside, valueAt]
  · simp [inside]

/-- If its ids are accepted, an example is spread to the row of its values. -/
theorem row_eq : Example.row e.ids e.values width =
    (checkIds e.ids e.values.length width).map fun _ => (List.range width).map e.valueAt := by
  simp only [Example.row, Int.toNat_natCast, fits.write?_eq]
  cases checkIds e.ids e.values.length width with
  | error error => rfl
  | ok accepted =>
      have nonneg : ¬ (width : Int) < 0 := by omega
      simp only [bind, Except.bind, if_neg nonneg]
      rfl

end Fits

end Example

namespace Dataset

variable {row : List α} {label : Nat} {weight : α}

theorem zip_sparse (row : List α) :
    ((sparse row).map Prod.fst).zip ((sparse row).map Prod.snd) = sparse row := by
  rw [List.zip_map']
  exact List.map_id _

theorem pairwise_keys_sparse (row : List α) : ((sparse row).map Prod.fst).Pairwise (· < ·) :=
  List.pairwise_map.mpr (pairwise_sparseFrom 0 row)

/-- The ids of the example of a row fit the row. -/
theorem fits_exampleOfRow : (exampleOfRow row label weight).Fits row.length where
  ascending := pairwise_keys_sparse row
  inside := by
    intro id member
    obtain ⟨item, itemMember, rfl⟩ := List.mem_map.mp member
    have := bounds_of_mem_sparseFrom itemMember
    omega
  length_eq := by simp only [exampleOfRow, List.length_map]

/-- The example of a row stores the values of the row. -/
theorem valueAt_exampleOfRow (feature : Nat) :
    (exampleOfRow row label weight).valueAt feature = clearZero (row.getD feature 0) := by
  have distinct : ((sparse row).map Prod.fst).Nodup :=
    (pairwise_keys_sparse row).imp Int.ne_of_lt
  rw [Example.valueAt, exampleOfRow, zip_sparse, List.getD_eq_getElem?_getD]
  cases found : (sparse row).lookup (feature : Int) with
  | some value =>
      obtain ⟨place, same, placeFound, nonzero⟩ :=
        mem_sparse.mp ((Example.lookup_eq_some_iff distinct).mp found)
      obtain rfl := Int.ofNat.inj same
      rw [placeFound, Option.getD_some, clearZero, nonzero]
      rfl
  | none =>
      cases held : row[feature]? with
      | none => rw [Option.getD_none, clearZero, ite_self]
      | some value =>
          cases zero : Scalar.eq value 0 with
          | true =>
              rw [clearZero, Option.getD_some, zero]
              rfl
          | false =>
              have stored := (Example.lookup_eq_some_iff distinct).mpr
                (mem_sparse.mpr ⟨feature, rfl, held, zero⟩)
              rw [found] at stored
              cases stored

end Dataset

end DecisionTree
