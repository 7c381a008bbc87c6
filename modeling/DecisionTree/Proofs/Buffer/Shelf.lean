import DecisionTree.Proofs.Buffer.Merge
import Mathlib.Algebra.Ring.Nat
import Mathlib.Logic.Function.Basic

/-!
# Buffers side by side

A shelf holds buffers by name, so that it can be said which buffers an operation leaves alone.  A
merge of two ascending lists without a common element writes every cell of the merged part once and
changes no buffer but its target, and lists that are collected by merging back and forth between two
buffers end up in ascending order (`Shelf.merging_exact`).
-/

namespace DecisionTree

/-- Buffers by name. -/
abbrev Shelf (ν : Type) : Type :=
  ν → Buffer

namespace Shelf

variable {ν : Type} [DecidableEq ν]

/-- Merges the content of one buffer with further ids into another one. -/
def merge (shelf : Shelf ν) (first : ν) (ids : List Int) (out : ν) : Except Error (Shelf ν) :=
  (Buffer.merge? first out (shelf first) ids (shelf out)).map (Function.update shelf out)

variable {shelf : Shelf ν} {first out : ν}

/-- Two different buffers can be merged, and the target alone changes. -/
theorem merge_of_ne (differ : out ≠ first) (ids : List Int) :
    shelf.merge first ids out =
      .ok (Function.update shelf out ((shelf first).mergeInto ids (shelf out))) := by
  rw [merge, Buffer.merge?, if_neg differ]
  rfl

/-- Merging ascending ids into another buffer succeeds if the two lists have no common element.  It
writes every cell of the merged part exactly once; the target then holds the ascending arrangement
of all elements, and every other buffer what it held before.  So lists that are pairwise disjoint
and ascending can be collected one after the other while two buffers take turns, whatever these held
before, and all their elements are there at the end, in ascending order. -/
theorem merging_exact :
    (∀ (shelf : Shelf ν) (first out : ν) (ids : List Int), out ≠ first →
      (shelf first).view.Pairwise (· ≤ ·) → ids.Pairwise (· ≤ ·) →
      (shelf first).view.Disjoint ids →
      let count := (shelf first).view.length + ids.length
      let writes := Buffer.mergeWrites (shelf first).view ids
      ∃ after, shelf.merge first ids out = .ok after ∧
        after out = { ((shelf out).grow count).writeAll writes with size := count } ∧
        (writes.map Prod.fst).Perm (List.range count) ∧
        (after out).view.Pairwise (· ≤ ·) ∧
        (after out).view.Perm ((shelf first).view ++ ids) ∧
        ∀ other, other ≠ out → after other = shelf other) ∧
    ∀ (workspace : Workspace) (lists : List (List Int)),
      (∀ ids ∈ lists, ids.Pairwise (· ≤ ·)) → lists.Pairwise List.Disjoint →
      let collected := (workspace.collectAll lists).below
      collected.view.Pairwise (· ≤ ·) ∧ collected.view.Perm lists.flatten ∧
        collected.view.length = (lists.map List.length).sum ∧
        collected.size = collected.view.length := by
  constructor
  · intro shelf first out ids differ ascending idsAscending disjoint count writes
    obtain ⟨union, unionAscending, perm⟩ := exists_ascending ((shelf first).view ++ ids)
    have merges : Buffer.Merges (shelf first).view ids union :=
      ⟨ascending, idsAscending, disjoint, unionAscending, perm⟩
    have view := merges.view_mergeInto rfl (shelf out)
    refine ⟨_, merge_of_ne differ ids, ?_, merges.places_perm, ?_, ?_, ?_⟩
    · rw [Function.update_self]
      exact Buffer.mergeInto_eq_writeAll _ _ _
    · rw [Function.update_self, view]
      exact unionAscending
    · rw [Function.update_self, view]
      exact perm
    · intro other isOther
      exact Function.update_of_ne isOther _ _
  · intro workspace lists sorted disjoint collected
    obtain ⟨ascending, perm, size, -⟩ := workspace.collectAll_ascending sorted disjoint
    have length : collected.view.length = lists.flatten.length := perm.length_eq
    refine ⟨ascending, perm, ?_, size.trans length.symm⟩
    rw [length, List.length_flatten]

/-- Three ids, one of them twice, and a smaller buffer with cells from earlier work. -/
def Sample.pair : Shelf Bool
  | false => (Buffer.ofCapacity 4).fill [1, 4, 4]
  | true => (Buffer.ofCapacity 2).fill [7, 8]

/-- Two turn-taking buffers with cells from earlier work. -/
def Sample.used : Workspace where
  below := (Buffer.ofCapacity 1).fill [3, 3, 5]
  swap := (Buffer.ofCapacity 1).fill [9]
  marks := .ofCapacity 1

/-- Three cells are merged with three others into a buffer of two cells, and seven ids are collected
from three lists.  The last merge goes into the buffer that was written first. -/
theorem merging_exact_sample :
    (∃ after, Sample.pair.merge false [2, 3, 3] true = .ok after ∧
      ((Buffer.mergeWrites [1, 4, 4] [2, 3, 3]).map Prod.fst).Perm (List.range 6) ∧
      (after true).view = [1, 2, 3, 3, 4, 4] ∧ after false = Sample.pair false) ∧
    (Sample.used.collectAll [[4, 8], [1, 9], [0, 5, 6]]).below.view = [0, 1, 4, 5, 6, 8, 9] := by
  have view : (Sample.pair false).view = [1, 4, 4] := Buffer.view_fill _ _
  obtain ⟨merging, collecting⟩ := merging_exact (ν := Bool)
  constructor
  · obtain ⟨after, merged, -, once, ascending, perm, others⟩ :=
      merging Sample.pair false true [2, 3, 3] (by decide) (by rw [view]; decide) (by decide)
        (by rw [view]; simp)
    rw [view] at once perm
    exact ⟨after, merged, once,
      (perm.trans (by decide)).eq_of_pairwise (fun _ _ _ _ => Int.le_antisymm) ascending
        (by decide),
      others false (by decide)⟩
  · obtain ⟨ascending, perm, -, -⟩ :=
      collecting Sample.used [[4, 8], [1, 9], [0, 5, 6]] (by decide) (by simp)
    exact (perm.trans (by decide)).eq_of_pairwise (fun _ _ _ _ => Int.le_antisymm) ascending
      (by decide)

end Shelf

end DecisionTree
