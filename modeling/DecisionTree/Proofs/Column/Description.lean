import DecisionTree.Proofs.Histogram
import DecisionTree.Proofs.Order
import Mathlib.Data.List.Nodup

/-!
# Columns that describe a set of examples

`Column.Describes` says what a column of a growing tree looks like: it holds each of the
given examples once, grouped by value in strictly ascending order, with ascending ids and the
tally of the ids in every group.

`Column.keep` is the part of a column that holds only some of its examples.  A kept part
describes the examples that are kept (`Describes.keep`).
-/

namespace DecisionTree

variable {α : Type} [Scalar α]

/-- An entry holds ascending ids, at least one, with their histogram. -/
structure Entry.Settled (targets : Targets α) (entry : Entry α) : Prop where
  nonempty : entry.indices ≠ []
  sorted : entry.indices.Pairwise (· < ·)
  counted : entry.counts = targets.tally entry.indices

namespace Column

/-- A column over exactly the given examples, each of which has the given value. -/
structure Describes (targets : Targets α) (value : Int → α) (indices : List Int)
    (column : Column α) : Prop where
  targets_eq : column.targets = targets
  pending_eq : column.pending = []
  ascending : column.entries.Pairwise fun left right => Scalar.lt left.value right.value = true
  settled : ∀ entry ∈ column.entries, entry.Settled targets
  valued : ∀ entry ∈ column.entries, ∀ index ∈ entry.indices,
    Scalar.eq (value index) entry.value = true
  perm : column.indices.Perm indices

end Column

/-- What is left of an entry when only some examples are kept. -/
def Entry.keep (targets : Targets α) (chosen : Int → Bool) (entry : Entry α) : Option (Entry α) :=
  let kept := entry.indices.filter chosen
  if kept = [] then none
  else if kept.length = entry.size then some entry
  else some { entry with indices := kept, counts := targets.tally kept }

namespace Entry

variable {targets : Targets α} {chosen : Int → Bool} {entry part : Entry α}

/-- The ids that are left are those that are kept. -/
theorem keep_eq_some (kept : entry.keep targets chosen = some part) :
    part.value = entry.value ∧ part.indices = entry.indices.filter chosen ∧
      part.indices ≠ [] ∧
      (part.counts = entry.counts ∧ part.indices = entry.indices ∨
        part.counts = targets.tally part.indices) := by
  unfold keep at kept
  simp only at kept
  split at kept
  · contradiction
  next nonempty =>
    split at kept
    next whole =>
      obtain rfl := Option.some.inj kept
      have all : entry.indices.filter chosen = entry.indices :=
        List.filter_sublist.eq_of_length whole
      exact ⟨rfl, all.symm, by rwa [← all], .inl ⟨rfl, rfl⟩⟩
    next =>
      obtain rfl := Option.some.inj kept
      exact ⟨rfl, rfl, nonempty, .inr rfl⟩

theorem keep_eq_none (dropped : entry.keep targets chosen = none) :
    entry.indices.filter chosen = [] := by
  unfold keep at dropped
  simp only at dropped
  split at dropped
  · assumption
  · split at dropped <;> contradiction

theorem Settled.keep (settled : entry.Settled targets)
    (kept : entry.keep targets chosen = some part) : part.Settled targets := by
  obtain ⟨-, indices, nonempty, counts⟩ := keep_eq_some kept
  refine ⟨nonempty, indices ▸ settled.sorted.filter chosen, ?_⟩
  rcases counts with ⟨countsEq, indicesEq⟩ | countsEq
  · rw [countsEq, indicesEq]
    exact settled.counted
  · exact countsEq

end Entry

namespace Column

variable {targets : Targets α} {value : Int → α} {indices : List Int} {chosen : Int → Bool}
variable {column : Column α}

/-- The part of a column that holds only some of its examples. -/
def keep (chosen : Int → Bool) (column : Column α) : Column α :=
  column.withEntries (column.entries.filterMap (Entry.keep column.targets chosen))

@[simp] theorem targets_keep (chosen : Int → Bool) (column : Column α) :
    (column.keep chosen).targets = column.targets :=
  rfl

@[simp] theorem feature_keep (chosen : Int → Bool) (column : Column α) :
    (column.keep chosen).feature = column.feature :=
  rfl

/-- The ids of a kept part are the kept ids, in the same order. -/
theorem indices_keep (chosen : Int → Bool) (column : Column α) :
    (column.keep chosen).indices = column.indices.filter chosen := by
  simp only [Column.indices, keep, withEntries]
  induction column.entries with
  | nil => rfl
  | cons entry rest ih =>
      rw [List.filterMap_cons, List.flatMap_cons, List.filter_append]
      split
      next dropped => rw [ih, Entry.keep_eq_none dropped, List.nil_append]
      next part kept => rw [List.flatMap_cons, ih, (Entry.keep_eq_some kept).2.1]

theorem mem_entries_keep {part : Entry α} (member : part ∈ (column.keep chosen).entries) :
    ∃ entry ∈ column.entries, entry.keep column.targets chosen = some part := by
  simpa [keep, withEntries, List.mem_filterMap] using member

/-- A kept part describes the examples that are kept. -/
theorem Describes.keep (describes : column.Describes targets value indices)
    (chosen : Int → Bool) :
    (column.keep chosen).Describes targets value (indices.filter chosen) where
  targets_eq := describes.targets_eq
  pending_eq := rfl
  ascending := by
    refine describes.ascending.filterMap _ ?_
    intro left right less leftPart leftKept rightPart rightKept
    rw [(Entry.keep_eq_some leftKept).1, (Entry.keep_eq_some rightKept).1]
    exact less
  settled := by
    intro part member
    obtain ⟨entry, entryMember, kept⟩ := mem_entries_keep member
    rw [describes.targets_eq] at kept
    exact (describes.settled entry entryMember).keep kept
  valued := by
    intro part member index indexMember
    obtain ⟨entry, entryMember, kept⟩ := mem_entries_keep member
    obtain ⟨valueEq, indicesEq, -, -⟩ := Entry.keep_eq_some kept
    rw [valueEq]
    rw [indicesEq] at indexMember
    exact describes.valued entry entryMember index (List.mem_of_mem_filter indexMember)
  perm := by
    rw [indices_keep]
    exact describes.perm.filter chosen

theorem Describes.mem_iff (describes : column.Describes targets value indices) {index : Int} :
    (∃ entry ∈ column.entries, index ∈ entry.indices) ↔ index ∈ indices := by
  rw [← describes.perm.mem_iff, Column.indices, List.mem_flatMap]

/-- The histogram of a column has a place for each label. -/
theorem Describes.length_counts (describes : column.Describes targets value indices) :
    column.counts.length = targets.labelCount := by
  have plus : ∀ (entries : List (Entry α)) (total : List α),
      (∀ entry ∈ entries, entry.Settled targets) → total.length = targets.labelCount →
      (entries.foldl (fun total entry => Histogram.plus total entry.counts) total).length =
        targets.labelCount := by
    intro entries
    induction entries with
    | nil => exact fun _ _ length => length
    | cons entry rest ih =>
        intro total settled length
        have own := (settled entry List.mem_cons_self).counted
        apply ih _ fun other member => settled other (List.mem_cons_of_mem _ member)
        rw [Histogram.length_plus, length, own, Targets.length_tally, Nat.min_self]
  rw [Column.counts, describes.targets_eq]
  exact plus column.entries _ describes.settled (Histogram.length_zero _)

/-- The description depends on the set of examples only. -/
theorem Describes.congr {others : List Int} (describes : column.Describes targets value indices)
    (perm : indices.Perm others) : column.Describes targets value others :=
  { describes with perm := describes.perm.trans perm }

end Column

end DecisionTree
