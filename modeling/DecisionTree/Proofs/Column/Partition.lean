import DecisionTree.Proofs.Column.Description
import Mathlib.Data.List.Perm.Subperm

/-!
# Partitioning keeps both parts

A column is cut by the marks of its ids (`partition_spec`).  Neither the gathering buffer nor what
the table of marks looked like before it was cleaned has an influence, and the table is clean again
afterwards.  Cut by ids that it holds, a column falls into the part that holds these ids and the
part that holds the others (`deal_eq`).
-/

namespace DecisionTree

variable {α : Type} [Scalar α] {targets : Targets α}

/-- Pairing a list with another one may shorten it. -/
theorem sublist_map_fst_zip {β γ : Type} (first : List β) (second : List γ) :
    ((first.zip second).map Prod.fst).Sublist first := by
  induction first generalizing second with
  | nil => exact .slnil
  | cons value rest ih =>
      cases second with
      | nil => exact List.nil_sublist _
      | cons other others => exact (ih others).cons_cons value

/-- The elements whose mark is set. -/
theorem filter_zip_marks (indices : List Int) (chosen : Int → Bool) :
    ((indices.zip (indices.map chosen)).filter Prod.snd).map Prod.fst = indices.filter chosen := by
  induction indices with
  | nil => rfl
  | cons index rest ih =>
      cases mark : chosen index <;> simp [mark, ih]

/-- The elements whose mark is not set. -/
theorem filter_zip_not_marks (indices : List Int) (chosen : Int → Bool) :
    ((indices.zip (indices.map chosen)).filter (!·.2)).map Prod.fst =
      indices.filter fun index => !chosen index := by
  induction indices with
  | nil => rfl
  | cons index rest ih =>
      cases mark : chosen index <;> simp [mark, ih]

namespace Entry

variable {chosen : Int → Bool} {entry : Entry α}

theorem keep_of_all (nonempty : entry.indices ≠ [])
    (all : entry.indices.filter chosen = entry.indices) :
    entry.keep targets chosen = some entry := by
  simp [keep, all, nonempty, Entry.size]

theorem keep_of_none (dropped : entry.indices.filter chosen = []) :
    entry.keep targets chosen = none := by
  simp [keep, dropped]

theorem keep_of_some (nonempty : entry.indices.filter chosen ≠ [])
    (notAll : (entry.indices.filter chosen).length ≠ entry.size) :
    entry.keep targets chosen = some { entry with
      indices := entry.indices.filter chosen
      counts := targets.tally (entry.indices.filter chosen) } := by
  simp [keep, nonempty, notAll]

omit [Scalar α] in
theorem length_filter_add_not (entry : Entry α) (chosen : Int → Bool) :
    (entry.indices.filter chosen).length +
      (entry.indices.filter fun index => !chosen index).length = entry.size :=
  (List.length_eq_length_filter_add chosen).symm

theorem restrict_eq {indices : List Int} (knows : ∀ index ∈ indices, targets.Knows index) :
    entry.restrict targets indices =
      .ok { entry with indices := indices, counts := targets.tally indices } := by
  rw [restrict, Targets.counts_eq_tally knows]
  rfl

end Entry

/-- The marks of the ids of the first entry. -/
theorem take_marks {β : Type} (entry : Entry β) (rest : List (Entry β)) (chosen : Int → Bool) :
    (((entry :: rest).flatMap Entry.indices).map chosen).take entry.size =
      entry.indices.map chosen := by
  rw [List.flatMap_cons, List.map_append]
  exact List.take_left' (by simp [Entry.size])

theorem drop_marks {β : Type} (entry : Entry β) (rest : List (Entry β)) (chosen : Int → Bool) :
    (((entry :: rest).flatMap Entry.indices).map chosen).drop entry.size =
      (rest.flatMap Entry.indices).map chosen := by
  rw [List.flatMap_cons, List.map_append]
  exact List.drop_left' (by simp [Entry.size])

/-- Entries are dealt out to the parts that are kept on either side. -/
theorem dealEntries_eq {entries : List (Entry α)}
    (nonempty : ∀ entry ∈ entries, entry.indices ≠ [])
    (knows : ∀ entry ∈ entries, ∀ index ∈ entry.indices, targets.Knows index)
    (chosen : Int → Bool) :
    dealEntries targets entries ((entries.flatMap Entry.indices).map chosen) =
      .ok (entries.filterMap (Entry.keep targets chosen),
        entries.filterMap (Entry.keep targets fun index => !chosen index)) := by
  induction entries with
  | nil => rfl
  | cons entry rest ih =>
      have restDealt := ih
        (fun other member => nonempty other (List.mem_cons_of_mem _ member))
        (fun other member => knows other (List.mem_cons_of_mem _ member))
      have entryNonempty := nonempty entry List.mem_cons_self
      have entryKnown := knows entry List.mem_cons_self
      have lengths := entry.length_filter_add_not chosen
      simp only [dealEntries, take_marks, drop_marks, filter_zip_marks, filter_zip_not_marks,
        restDealt]
      split
      next whole =>
        have all : entry.indices.filter chosen = entry.indices :=
          List.filter_sublist.eq_of_length whole
        have noneLeft : (entry.indices.filter fun index => !chosen index) = [] :=
          List.eq_nil_of_length_eq_zero (by omega)
        rw [List.filterMap_cons_some (Entry.keep_of_all entryNonempty all),
          List.filterMap_cons_none (Entry.keep_of_none noneLeft)]
        rfl
      next notWhole =>
        split
        next empty =>
          have noneInside : entry.indices.filter chosen = [] := List.isEmpty_iff.mp empty
          have all : (entry.indices.filter fun index => !chosen index) = entry.indices := by
            apply List.filter_sublist.eq_of_length
            rw [noneInside] at lengths
            simpa [Entry.size] using lengths
          rw [List.filterMap_cons_none (Entry.keep_of_none noneInside),
            List.filterMap_cons_some (Entry.keep_of_all entryNonempty all)]
          rfl
        next torn =>
          have someInside : entry.indices.filter chosen ≠ [] :=
            fun empty => torn (List.isEmpty_iff.mpr empty)
          have someOutside : (entry.indices.filter fun index => !chosen index) ≠ [] := by
            intro empty
            rw [empty] at lengths
            exact notWhole (by simpa using lengths)
          have notAllOutside :
              (entry.indices.filter fun index => !chosen index).length ≠ entry.size := by
            have := List.length_pos_iff.mpr someInside
            omega
          rw [Entry.restrict_eq fun index member =>
              entryKnown index (List.mem_of_mem_filter member),
            Entry.restrict_eq fun index member =>
              entryKnown index (List.mem_of_mem_filter member),
            List.filterMap_cons_some (Entry.keep_of_some someInside notWhole),
            List.filterMap_cons_some (Entry.keep_of_some someOutside notAllOutside)]
          rfl

namespace Column

variable {value : Int → α} {indices : List Int} {column : Column α}

/-- The marks that are found are those of the ids that are looked up and chosen. -/
theorem count_marks (chosen looked : List Int) :
    (looked.map fun id => decide (id ∈ chosen)).count true =
      (looked.filter fun id => decide (id ∈ chosen)).length := by
  rw [List.count, List.countP_map, List.countP_eq_length_filter]
  congr 1
  apply List.filter_congr
  intro id _
  simp

/-- As many marks are found as there are chosen ids exactly if every chosen id is looked up, once:
a repeated id and one that is not looked up cannot make up for each other, as either costs a
mark. -/
theorem count_marks_eq_iff {chosen looked : List Int} (distinct : looked.Nodup) :
    (looked.map fun id => decide (id ∈ chosen)).count true = chosen.length ↔
      chosen.Nodup ∧ ∀ id ∈ chosen, id ∈ looked := by
  have inChosen : ∀ id ∈ looked.filter fun id => decide (id ∈ chosen), id ∈ chosen :=
    fun id member => of_decide_eq_true (List.mem_filter.mp member).2
  have found := distinct.filter fun id => decide (id ∈ chosen)
  rw [count_marks]
  constructor
  · intro same
    have perm := (List.subperm_of_subset found inChosen).perm_of_length_le (Nat.le_of_eq same.symm)
    exact ⟨perm.nodup_iff.mp found, fun id member =>
      (List.mem_filter.mp (perm.mem_iff.mpr member)).1⟩
  · rintro ⟨chosenDistinct, subset⟩
    refine ((List.perm_ext_iff_of_nodup found chosenDistinct).mpr fun id => ?_).length_eq
    exact ⟨inChosen id, fun member => List.mem_filter.mpr ⟨subset id member, decide_eq_true member⟩⟩

/-- A column of natural ids is cut by ascending natural ids as the marks of its ids say, whatever
the buffers held before, and the table of marks is clean again afterwards. -/
theorem partition_spec {below marks : Buffer} (gather : Buffer)
    (nonneg : ∀ id ∈ column.indices, 0 ≤ id) (ascending : below.view.Pairwise (· ≤ ·))
    (belowNonneg : ∀ id ∈ below.view, 0 ≤ id) (clean : marks.Clean) :
    (column.partition below gather marks).sides =
        column.deal below.view.length (column.indices.map fun id => decide (id ∈ below.view)) ∧
      (column.partition below gather marks).marks.Clean := by
  let table := marks.grow (Buffer.tableSize column.indices below.view)
  have tableClean : table.Clean := clean.grow _
  have room : Buffer.tableSize column.indices below.view ≤ table.capacity :=
    marks.le_capacity_grow _
  have chosenSpans : table.Spans below.view := by
    intro id member
    have := Buffer.lt_tableSize_of_mem_marked column.indices member ascending
    exact ⟨belowNonneg id member, by omega⟩
  have lookedSpans : table.Spans column.indices := by
    intro id member
    have := Buffer.lt_tableSize_of_mem_looked below.view member
    exact ⟨nonneg id member, by omega⟩
  have markedAgain : (table.mark below.view 1).Spans below.view := by
    intro id member
    rw [Buffer.capacity_mark]
    exact chosenSpans id member
  have marked : table.assign? below.view 1 = some (table.mark below.view 1) :=
    Buffer.assign?_of_spans chosenSpans 1
  have looked := Buffer.mapM_isMarked?_mark tableClean chosenSpans lookedSpans
  simp only [partition, Buffer.view_fill]
  rw [show marks.grow (Buffer.tableSize column.indices below.view) = table from rfl, marked]
  simp only [looked, true_and]
  rw [Buffer.assign?_of_spans markedAgain 0]
  exact tableClean.unmark chosenSpans

/-- A column that holds the chosen ids falls into the part that holds them and the rest. -/
theorem deal_eq (knows : ∀ index ∈ indices, targets.Knows index)
    (describes : column.Describes targets value indices) (distinct : indices.Nodup)
    {chosen : List Int} (chosenDistinct : chosen.Nodup) (subset : ∀ id ∈ chosen, id ∈ indices) :
    column.deal chosen.length (column.indices.map fun id => decide (id ∈ chosen)) =
      .ok (column.keep fun id => decide (id ∈ chosen),
        column.keep fun id => !decide (id ∈ chosen)) := by
  have counted := (count_marks_eq_iff (describes.perm.nodup_iff.mpr distinct)).mpr
    ⟨chosenDistinct, fun id member => describes.perm.mem_iff.mpr (subset id member)⟩
  have dealt := dealEntries_eq
    (fun entry member => (describes.settled entry member).nonempty)
    (fun entry member index held => knows index (describes.mem_iff.mp ⟨entry, member, held⟩))
    (fun id => decide (id ∈ chosen))
  rw [deal]
  simp only [counted]
  rw [if_neg (fun differ => differ rfl), describes.targets_eq, Column.indices, dealt]
  simp only [keep, describes.targets_eq]
  rfl

end Column

end DecisionTree
