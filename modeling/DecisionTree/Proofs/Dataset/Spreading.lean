import DecisionTree.Proofs.Dataset.Rows
import Mathlib.Data.List.Chain

/-!
# Which examples are spread out

Ids are 64-bit integers, and their order is read off wrapped differences, so ids that fall far
enough look ascending (`Example.Wraps`).  In a row of less than `2 ^ 62` values such ids cannot all
name places, even counted from the end: the row is cleared and the writing fails.  Every other
example either fits and is spread out, or is refused and leaves the row alone
(`Example.fill_cases`).
-/

namespace DecisionTree.Example

variable {α : Type} [Scalar α] {e : Example α} {width : Nat}

/-- An id that 64 bits can hold. -/
def IsWord (id : Int) : Prop :=
  -2 ^ 63 ≤ id ∧ id < 2 ^ 63

/-- A row holds the values of an example at its ids, and zero everywhere else. -/
structure Spread (e : Example α) (width : Nat) (row : List α) : Prop where
  length_eq : row.length = width
  stored : ∀ (place : Nat) (id : Int) (value : α), e.ids[place]? = some id →
    e.values[place]? = some value → row[id.toNat]? = some value
  absent : ∀ id : Nat, id < width → (id : Int) ∉ e.ids → row[id]? = some 0

/-- The ids of an example pass every check, but only because the difference of some wraps around. -/
structure Wraps (e : Example α) (width : Nat) : Prop where
  length_eq : e.values.length = e.ids.length
  climbing : e.ids.IsChain Climbs
  first_nonneg : ∀ first, e.ids.head? = some first → 0 ≤ first
  last_inside : ∀ last, e.ids.getLast? = some last → last < width
  falls : ¬ e.ids.Pairwise (· < ·)

section Checks

omit [Scalar α]

/-- Ids are only refused because they break a rule. -/
theorem category_of_checkIds {ids : List Int} {count : Nat} {width : Int} {error : Error}
    (refused : checkIds ids count width = .error error) : error.category = .invariant := by
  simp only [checkIds] at refused
  split at refused
  next =>
    cases refused
    rfl
  split at refused
  next =>
    cases refused
    rfl
  split at refused
  next =>
    cases refused
    rfl
  split at refused
  next =>
    split at refused
    next =>
      cases refused
      rfl
    next => cases refused
  next => cases refused

/-- The first and the last of ascending ids enclose the others. -/
theorem inside_of_ends {ids : List Int} {width : Int} (ascending : ids.Pairwise (· < ·))
    (firstNonneg : ∀ first, ids.head? = some first → 0 ≤ first)
    (lastInside : ∀ last, ids.getLast? = some last → last < width) :
    ∀ id ∈ ids, 0 ≤ id ∧ id < width := by
  intro id member
  have weakly := ascending.imp Int.le_of_lt
  have first := firstNonneg _ (List.head?_eq_some_head (List.ne_nil_of_mem member))
  have last := lastInside _ (List.getLast?_eq_some_getLast (List.ne_nil_of_mem member))
  exact ⟨Int.le_trans first (weakly.rel_head member),
    Int.lt_of_le_of_lt (weakly.rel_getLast member) last⟩

/-- Neighbours of 64 bits have a positive difference exactly if they look like going up. -/
theorem isChain_climbs {ids : List Int} (words : ∀ id ∈ ids, IsWord id) :
    ids.IsChain (fun previous next => 0 < stepBetween previous next) ↔ ids.IsChain Climbs := by
  refine List.IsChain.iff_of_mem_imp fun previous next isPrevious isNext => ?_
  have previousWord := words previous isPrevious
  have nextWord := words next isNext
  unfold IsWord at previousWord nextWord
  exact stepBetween_pos_iff (by omega)

/-- Ids of 64 bits are accepted exactly if they fit, or a difference of them wraps around. -/
theorem checkIds_eq_ok_iff (words : ∀ id ∈ e.ids, IsWord id) :
    checkIds e.ids e.values.length width = .ok () ↔ e.Fits width ∨ e.Wraps width := by
  constructor
  · intro accepted
    obtain ⟨length, climbing, first, last⟩ := checkIds_eq_ok.mp accepted
    by_cases ascending : e.ids.Pairwise (· < ·)
    · exact .inl ⟨ascending, inside_of_ends ascending first last, length.symm⟩
    · exact .inr ⟨length.symm, (isChain_climbs words).mp climbing, first, last, ascending⟩
  · rintro (fits | wraps)
    · exact fits.checkIds_eq fun id member => (words id member).2
    · exact checkIds_eq_ok.mpr ⟨wraps.length_eq.symm, (isChain_climbs words).mpr wraps.climbing,
        wraps.first_nonneg, wraps.last_inside⟩

theorem Fits.not_wraps (fits : e.Fits width) : ¬ e.Wraps width :=
  fun wraps => wraps.falls fits.ascending

/-- Ids that all name places of a small row lie too close together for their differences to wrap
around, so some id of an example that wraps names no place. -/
theorem Wraps.not_resolved (wraps : e.Wraps width) (small : width < 2 ^ 62) :
    e.ids.mapM (Position.resolve width) = none := by
  rw [Outcome.mapM_eq_none]
  by_contra named
  push Not at named
  have near : ∀ id ∈ e.ids, -(width : Int) ≤ id ∧ id < width := by
    intro id member
    have place := named id member
    rw [ne_eq, Position.resolve_eq_none] at place
    omega
  have ascending : e.ids.IsChain (· < ·) := by
    refine wraps.climbing.imp_of_mem_imp fun previous next isPrevious isNext climbs => ?_
    have previousNear := near previous isPrevious
    have nextNear := near next isNext
    unfold Climbs at climbs
    omega
  exact wraps.falls (List.isChain_iff_pairwise.mp ascending)

end Checks

/-- The row of the values of an example that fits holds them. -/
theorem Fits.spread (fits : e.Fits width) : e.Spread width ((List.range width).map e.valueAt) := by
  have distinct : ((e.ids.zip e.values).map Prod.fst).Nodup := by
    rw [fits.keys_eq]
    exact fits.nodup_ids
  refine ⟨by rw [List.length_map, List.length_range], ?_, ?_⟩
  · intro place id value idFound valueFound
    obtain ⟨nonneg, inside⟩ := fits.inside id (List.mem_of_getElem? idFound)
    have own : (e.ids.zip e.values).lookup (id.toNat : Int) = some value := by
      rw [Int.toNat_of_nonneg nonneg, lookup_eq_some_iff distinct]
      exact List.mem_of_getElem? (List.getElem?_zip_eq_some.mpr ⟨idFound, valueFound⟩)
    have isPlace : id.toNat < width := by omega
    rw [List.getElem?_map, List.getElem?_range isPlace, Option.map_some, valueAt, own,
      Option.getD_some]
  · intro id inside isAbsent
    have none : (e.ids.zip e.values).lookup (id : Int) = none := by
      refine List.lookup_eq_none_iff.mpr fun pair member => bne_iff_ne.mpr ?_
      intro same
      rw [same] at isAbsent
      exact isAbsent (List.of_mem_zip member).1
    rw [List.getElem?_map, List.getElem?_range inside, Option.map_some, valueAt, none,
      Option.getD_none]

/-- An example fits and is spread over the row, or its ids wrap around and the row is cleared, or it
is refused and the row is left alone. -/
theorem fill_cases (words : ∀ id ∈ e.ids, IsWord id) (small : width < 2 ^ 62) {row : List α}
    (length : row.length = width) :
    (e.Fits width ∧ fill row e.ids e.values width =
      (.ok ((List.range width).map e.valueAt), (List.range width).map e.valueAt)) ∨
    (e.Wraps width ∧ fill row e.ids e.values width = (.error .outOfRange, row.map fun _ => 0)) ∨
    (¬ e.Fits width ∧ ¬ e.Wraps width ∧ ∃ error : Error, error.category = .invariant ∧
      fill row e.ids e.values width = (.error error, row)) := by
  have cleared : (row.map fun _ => (0 : α)) = List.replicate width 0 := by
    rw [List.map_const', length]
  have accepted : checkIds e.ids e.values.length width = .ok () ↔ e.Fits width ∨ e.Wraps width :=
    checkIds_eq_ok_iff words
  cases checked : checkIds e.ids e.values.length width with
  | error error =>
      rw [checked] at accepted
      have refused : ¬ (e.Fits width ∨ e.Wraps width) := fun either => by
        cases accepted.mpr either
      rw [not_or] at refused
      exact .inr (.inr ⟨refused.1, refused.2, error, category_of_checkIds checked,
        by simp only [fill, checked]⟩)
  | ok =>
      rcases accepted.mp checked with fits | wraps
      · exact .inl ⟨fits, by simp only [fill, checked, cleared, fits.write?_eq]⟩
      · have unwritten : write? (List.replicate width (0 : α)) e.ids e.values = none := by
          rw [write?, List.length_replicate, wraps.not_resolved small, Option.map_none]
        exact .inr (.inl ⟨wraps, by simp only [fill, checked, cleared, unwritten]⟩)

/-- Spreading an example is filling a row of zeros. -/
theorem row_eq_fill (ids : List Int) (values : List α) (width : Nat) :
    Example.row ids values width = (fill (List.replicate width 0) ids values width).1 := by
  have cleared : ((List.replicate width (0 : α)).map fun _ => (0 : α)) =
      List.replicate width 0 := by
    rw [List.map_const', List.length_replicate]
  simp only [Example.row, fill, cleared, Int.toNat_natCast]
  cases checkIds ids values.length width with
  | error error => rfl
  | ok accepted =>
      have nonneg : ¬ (width : Int) < 0 := by omega
      simp only [bind, Except.bind, if_neg nonneg]
      cases write? (List.replicate width (0 : α)) ids values <;> rfl

/-- An example is spread out exactly if it fits, over new zeros as over a row that is used again.
Either way the result holds its values, whatever the row held before. -/
theorem spread_iff_fits (e : Example α) (words : ∀ id ∈ e.ids, IsWord id) (small : width < 2 ^ 62) :
    ((∃ filled, Example.row e.ids e.values width = .ok filled) ↔ e.Fits width) ∧
    (∀ row : List α, row.length = width →
      ((∃ filled, (fill row e.ids e.values width).1 = .ok filled) ↔ e.Fits width)) ∧
    (e.Fits width → ∃ filled, e.Spread width filled ∧
      Example.row e.ids e.values width = .ok filled ∧
      ∀ row : List α, row.length = width →
        fill row e.ids e.values width = (.ok filled, filled)) := by
  have fills : e.Fits width → ∀ row : List α, row.length = width →
      fill row e.ids e.values width =
        (.ok ((List.range width).map e.valueAt), (List.range width).map e.valueAt) := by
    intro fits row length
    obtain ⟨-, filled⟩ | ⟨wraps, -⟩ | ⟨misfit, -⟩ := fill_cases words small length
    · exact filled
    · exact absurd wraps fits.not_wraps
    · exact absurd fits misfit
  have only : ∀ row : List α, row.length = width →
      ((∃ filled, (fill row e.ids e.values width).1 = .ok filled) ↔ e.Fits width) := by
    intro row length
    constructor
    · rintro ⟨filled, success⟩
      obtain ⟨fits, -⟩ | ⟨-, failed⟩ | ⟨-, -, error, -, failed⟩ := fill_cases words small length
      · exact fits
      · rw [failed] at success
        cases success
      · rw [failed] at success
        cases success
    · intro fits
      exact ⟨_, congrArg Prod.fst (fills fits row length)⟩
  have zeros : (List.replicate width (0 : α)).length = width := List.length_replicate
  refine ⟨?_, only, fun fits => ⟨_, fits.spread, ?_, fills fits⟩⟩
  · rw [row_eq_fill]
    exact only _ zeros
  · rw [row_eq_fill, fills fits _ zeros]

/-- An example with two values among five. -/
def Sample.pair : Example Float where
  ids := [1, 3]
  values := [2, 4]
  label := 0
  weight := 1

theorem spread_iff_fits_sample :
    (∀ id ∈ Sample.pair.ids, IsWord id) ∧ 5 < 2 ^ 62 ∧ Sample.pair.Fits 5 ∧
    Sample.pair.Spread 5 [0, 2, 0, 4, 0] ∧
    fill [9, 9, 9, 9, 9] Sample.pair.ids Sample.pair.values (5 : Nat) =
      (.ok [0, 2, 0, 4, 0], [0, 2, 0, 4, 0]) ∧
    ¬ ∃ filled : List Float, Example.row [3, 1] [2, 4] (5 : Nat) = .ok filled := by
  have words : ∀ id ∈ Sample.pair.ids, IsWord id := by
    unfold IsWord
    decide
  have fits : Sample.pair.Fits 5 := ⟨by decide, by decide, rfl⟩
  obtain ⟨-, -, spread⟩ := spread_iff_fits Sample.pair words (by decide : 5 < 2 ^ 62)
  obtain ⟨filled, holds, isRow, fills⟩ := spread fits
  obtain rfl : [0, 2, 0, 4, 0] = filled := Except.ok.inj isRow
  refine ⟨words, by decide, fits, holds, fills [9, 9, 9, 9, 9] rfl, ?_⟩
  rintro ⟨filled, ⟨⟩⟩

/-- If an example is refused, it is because a rule is broken, and the row is left alone.  Only if
the difference of ids wraps around, the row is cleared before the writing fails. -/
theorem row_kept_unless_wraps (e : Example α) (words : ∀ id ∈ e.ids, IsWord id)
    (small : width < 2 ^ 62) {row : List α} (length : row.length = width) :
    (¬ e.Wraps width → ∀ (error : Error) (after : List α),
      fill row e.ids e.values width = (.error error, after) →
        error.category = .invariant ∧ after = row) ∧
    (e.Wraps width →
      fill row e.ids e.values width = (.error .outOfRange, row.map fun _ => 0)) := by
  obtain ⟨fits, filled⟩ | ⟨wraps, cleared⟩ | ⟨-, regular, refusal, category, refused⟩ :=
    fill_cases words small length
  · refine ⟨fun _ error after failed => ?_, fun wraps => absurd wraps fits.not_wraps⟩
    rw [filled] at failed
    cases failed
  · exact ⟨fun regular => absurd wraps regular, fun _ => cleared⟩
  · refine ⟨fun _ error after failed => ?_, fun wraps => absurd wraps regular⟩
    rw [refused] at failed
    cases failed
    exact ⟨category, rfl⟩

/-- An example whose second id lies so far below its first one that the difference wraps around, and
so does the difference from there to the last one. -/
def Sample.fallen : Example Float where
  ids := [2, -9223372036854775807, 0]
  values := [1, 2, 3]
  label := 0
  weight := 1

theorem row_kept_unless_wraps_sample :
    (∀ id ∈ Sample.fallen.ids, IsWord id) ∧ 3 < 2 ^ 62 ∧ Sample.fallen.Wraps 3 ∧
    fill [7, 8, 9] Sample.fallen.ids Sample.fallen.values (3 : Nat) =
      (.error .outOfRange, [0, 0, 0]) := by
  have words : ∀ id ∈ Sample.fallen.ids, IsWord id := by
    unfold IsWord
    decide
  have wraps : Sample.fallen.Wraps 3 := by
    refine ⟨rfl, ?_, by simp [Sample.fallen], by simp [Sample.fallen], by decide⟩
    simp [Sample.fallen, Climbs]
  exact ⟨words, by decide, wraps,
    (row_kept_unless_wraps Sample.fallen words (by decide) rfl).2 wraps⟩

/-- The row is lost although every id fits 64 bits, and the failure is not that a rule is broken. -/
theorem wrapped_ids_clear_row :
    (∀ id ∈ Sample.fallen.ids, IsWord id) ∧ ([7, 8, 9] : List Float).length = 3 ∧
    ∃ (error : Error) (after : List Float),
      fill [7, 8, 9] Sample.fallen.ids Sample.fallen.values 3 = (.error error, after) ∧
      error.category ≠ .invariant ∧ after ≠ [7, 8, 9] := by
  refine ⟨?_, rfl, .outOfRange, [0, 0, 0], rfl, by decide, by decide +kernel⟩
  unfold IsWord
  decide

end DecisionTree.Example
