import DecisionTree.Proofs.Buffer.Shelf
import DecisionTree.Proofs.Column.Partition
import DecisionTree.Proofs.Outcome

/-!
# Which ids a column can be cut by

A column compares the number of ids that it is to be cut by with the number of its own ids that are
marked.  If no id of the column is repeated, the two numbers agree exactly if the given ids are ids
of the column and none of them is repeated; entries of known examples can then be dealt out
(`exists_dealEntries`).  Either way the table of marks is clean afterwards
(`Shelf.partition_accepts_own_ids`).
-/

namespace DecisionTree

variable {α : Type} [Scalar α] {targets : Targets α}

/-- Entries of known examples can be dealt out, and either side gets the ids that are meant for
it. -/
theorem exists_dealEntries {entries : List (Entry α)}
    (knows : ∀ index ∈ entries.flatMap Entry.indices, targets.Knows index)
    (chosen : Int → Bool) :
    ∃ left right,
      dealEntries targets entries ((entries.flatMap Entry.indices).map chosen) =
        .ok (left, right) ∧
      left.flatMap Entry.indices = (entries.flatMap Entry.indices).filter chosen ∧
      right.flatMap Entry.indices =
        (entries.flatMap Entry.indices).filter fun index => !chosen index := by
  induction entries with
  | nil => exact ⟨[], [], rfl, rfl, rfl⟩
  | cons entry rest ih =>
      rw [List.flatMap_cons] at knows
      obtain ⟨lefts, rights, dealt, leftIds, rightIds⟩ :=
        ih fun index member => knows index (List.mem_append_right _ member)
      have restricted : ∀ test : Int → Bool, entry.restrict targets (entry.indices.filter test) =
          .ok { entry with
            indices := entry.indices.filter test
            counts := targets.tally (entry.indices.filter test) } := fun test =>
        Entry.restrict_eq fun index member =>
          knows index (List.mem_append_left _ (List.mem_of_mem_filter member))
      have lengths := entry.length_filter_add_not chosen
      simp only [dealEntries, take_marks, drop_marks, filter_zip_marks, filter_zip_not_marks, dealt,
        restricted]
      simp only [List.flatMap_cons, List.filter_append, ← leftIds, ← rightIds]
      split
      next whole =>
        have inside : entry.indices.filter chosen = entry.indices :=
          List.filter_sublist.eq_of_length whole
        have outside : (entry.indices.filter fun index => !chosen index) = [] :=
          List.eq_nil_of_length_eq_zero (by omega)
        rw [inside, outside]
        exact ⟨entry :: lefts, rights, rfl, rfl, rfl⟩
      next notWhole =>
      split
      next empty =>
        have inside : entry.indices.filter chosen = [] := List.isEmpty_iff.mp empty
        have outside : (entry.indices.filter fun index => !chosen index) = entry.indices := by
          apply List.filter_sublist.eq_of_length
          rw [inside, List.length_nil, Nat.zero_add] at lengths
          exact lengths
        rw [inside, outside]
        exact ⟨lefts, entry :: rights, rfl, rfl, rfl⟩
      next torn => exact ⟨_, _, rfl, rfl, rfl⟩

namespace Column

variable {column : Column α} {chosen : List Int}

/-- A column of known examples without a repeated id is dealt out by distinct ids of its own. -/
theorem exists_deal (knows : ∀ index ∈ column.indices, column.targets.Knows index)
    (distinct : column.indices.Nodup) (chosenDistinct : chosen.Nodup)
    (own : ∀ id ∈ chosen, id ∈ column.indices) :
    ∃ left right,
      column.deal chosen.length (column.indices.map fun id => decide (id ∈ chosen)) =
        .ok (left, right) ∧
      left.indices = column.indices.filter (· ∈ chosen) ∧
      right.indices = column.indices.filter (· ∉ chosen) := by
  have counted := (count_marks_eq_iff distinct).mpr ⟨chosenDistinct, own⟩
  obtain ⟨lefts, rights, dealt, leftIds, rightIds⟩ :=
    exists_dealEntries knows fun id => decide (id ∈ chosen)
  simp only [← decide_not] at dealt rightIds
  refine ⟨column.withEntries lefts, column.withEntries rights, ?_, leftIds, rightIds⟩
  rw [deal]
  simp only [counted]
  rw [if_neg (fun differ => differ rfl), Column.indices, dealt]
  rfl

/-- Any other ids are refused, with the number of ids that were found. -/
theorem deal_eq_error (distinct : column.indices.Nodup)
    (stray : ¬ (chosen.Nodup ∧ ∀ id ∈ chosen, id ∈ column.indices)) :
    column.deal chosen.length (column.indices.map fun id => decide (id ∈ chosen)) =
      .error (.strayIds column.feature chosen.length
        (column.indices.filter (· ∈ chosen)).length) := by
  have differ := (count_marks_eq_iff distinct).not.mpr stray
  rw [deal]
  simp only
  rw [if_pos differ, count_marks]

end Column

namespace Shelf

variable {ν : Type} [DecidableEq ν]

/-- Cuts a column by the ids in one buffer; two others gather its ids and mark them. -/
def partition (shelf : Shelf ν) (column : Column α) (below gather marks : ν) :
    Except Error (Column α × Column α) × Shelf ν :=
  let parts := column.partition (shelf below) (shelf gather) (shelf marks)
  (parts.sides, Function.update (Function.update shelf gather parts.gather) marks parts.marks)

variable {column : Column α} {below gather marks : ν}

/-- A column of known examples without a repeated id can be cut by ascending natural ids exactly if
they are ids of its own and none is repeated.  Its sides then hold the ids that were asked for and
the rest; otherwise the cut is refused.  Either way the table of marks is clean afterwards, the ids
are as they were, and neither the size of the two other buffers nor what they held makes a
difference. -/
theorem partition_accepts_own_ids (shelf : Shelf ν) (apart : [below, gather, marks].Nodup)
    (knows : ∀ index ∈ column.indices, column.targets.Knows index)
    (distinct : column.indices.Nodup) (ascending : (shelf below).view.Pairwise (· ≤ ·))
    (nonneg : ∀ id ∈ (shelf below).view, 0 ≤ id) (clean : (shelf marks).Clean) :
    let chosen := (shelf below).view
    let own := chosen.Nodup ∧ ∀ id ∈ chosen, id ∈ column.indices
    let sides := (shelf.partition column below gather marks).1
    let after := (shelf.partition column below gather marks).2
    let refusal := Error.strayIds column.feature chosen.length
      (column.indices.filter (· ∈ chosen)).length
    ((∃ left right, sides = .ok (left, right)) ↔ own) ∧
      (∀ left right, sides = .ok (left, right) →
        left.indices = column.indices.filter (· ∈ chosen) ∧
        right.indices = column.indices.filter (· ∉ chosen)) ∧
      (¬ own → sides = .error refusal) ∧ refusal.category = .invariant ∧
      (after marks).Clean ∧
      after below = shelf below ∧
      ∀ other : Shelf ν, (other below).view = chosen → (other marks).Clean →
        (other.partition column below gather marks).1 = sides := by
  intro chosen own sides after refusal
  obtain ⟨notGather, notMarks⟩ : below ≠ gather ∧ below ≠ marks := by
    have first := (List.nodup_cons.mp apart).1
    simpa only [List.mem_cons, List.not_mem_nil, or_false, not_or] using first
  have natural : ∀ id ∈ column.indices, 0 ≤ id := fun id member => (knows id member).1
  obtain ⟨dealt, cleanAgain⟩ :=
    Column.partition_spec (shelf gather) natural ascending nonneg clean
  have accepted : own → ∃ left right, sides = .ok (left, right) ∧
      left.indices = column.indices.filter (· ∈ chosen) ∧
      right.indices = column.indices.filter (· ∉ chosen) := by
    rintro ⟨chosenDistinct, subset⟩
    obtain ⟨left, right, both, ids⟩ := Column.exists_deal knows distinct chosenDistinct subset
    exact ⟨left, right, dealt.trans both, ids⟩
  have refused : ¬ own → sides = .error refusal :=
    fun stray => dealt.trans (Column.deal_eq_error distinct stray)
  refine ⟨⟨?_, ?_⟩, ?_, refused, rfl, ?_, ?_, ?_⟩
  · rintro ⟨left, right, cut⟩
    by_contra stray
    cases cut.symm.trans (refused stray)
  · intro isOwn
    obtain ⟨left, right, cut, -⟩ := accepted isOwn
    exact ⟨left, right, cut⟩
  · intro left right cut
    by_cases isOwn : own
    · obtain ⟨_, _, again, ids⟩ := accepted isOwn
      obtain ⟨rfl, rfl⟩ := Prod.mk.inj (Except.ok.inj (cut.symm.trans again))
      exact ids
    · cases cut.symm.trans (refused isOwn)
  · have marked : after marks =
        (column.partition (shelf below) (shelf gather) (shelf marks)).marks :=
      Function.update_self _ _ _
    rw [marked]
    exact cleanAgain
  · exact (Function.update_of_ne notMarks _ _).trans (Function.update_of_ne notGather _ _)
  · intro other same otherClean
    have again := (Column.partition_spec (other gather) natural (by rwa [same])
      (by rwa [same]) otherClean).1
    rw [same] at again
    exact again.trans dealt.symm

/-- Four weighted examples with two labels. -/
def Sample.fourTargets : Targets Float where
  labels := #[0, 1, 1, 0]
  weights := #[0.5, 0.25, 2, 0.1]
  labelCount := 2

/-- A column of the four examples, two of which have the same value. -/
def Sample.pairedColumn : Column Float where
  feature := 3
  targets := fourTargets
  entries := [⟨1, [0, 2], [0.5, 2]⟩, ⟨2.5, [1], [0, 0.25]⟩, ⟨4, [3], [0.1, 0]⟩]
  pending := []

/-- Some ids, a used buffer and a small table of marks. -/
def Sample.scratch (ids : List Int) : Shelf (Fin 3)
  | 0 => (Buffer.ofCapacity 1).fill ids
  | 1 => (Buffer.ofCapacity 1).fill [5, 5, 5]
  | 2 => .ofCapacity 2

/-- Two ids are cut off, one of which shares its value with an example of the other side.  A
repeated id does not make up for one that the column does not hold. -/
theorem partition_accepts_own_ids_sample :
    (∃ left right,
      ((Sample.scratch [0, 1]).partition Sample.pairedColumn 0 1 2).1 = .ok (left, right) ∧
      left.indices = [0, 1] ∧ right.indices = [2, 3]) ∧
    ((Sample.scratch [1, 1, 7]).partition Sample.pairedColumn 0 1 2).1 = .error (.strayIds 3 3 1) ∧
    (((Sample.scratch [1, 1, 7]).partition Sample.pairedColumn 0 1 2).2 2).Clean := by
  have viewed : ∀ ids, (Sample.scratch ids 0).view = ids := fun _ => Buffer.view_fill _ _
  have known : Sample.fourTargets.Known 4 := ⟨rfl, rfl, by decide⟩
  have inRange : Targets.InRange 4 Sample.pairedColumn.indices := by
    unfold Targets.InRange
    decide
  have apart : ([0, 1, 2] : List (Fin 3)).Nodup := by decide
  have cut := fun ids : List Int =>
    partition_accepts_own_ids (Sample.scratch ids) apart (known.knows inRange) (by decide)
  simp only [viewed] at cut
  obtain ⟨accepted, held, -⟩ :=
    cut [0, 1] (by decide) (by decide) (Buffer.clean_ofCapacity 2)
  obtain ⟨-, -, refused, -, clean, -⟩ :=
    cut [1, 1, 7] (by decide) (by decide) (Buffer.clean_ofCapacity 2)
  obtain ⟨left, right, both⟩ := accepted.mpr (by decide)
  exact ⟨⟨left, right, both, held left right both⟩, refused (by decide), clean⟩

end Shelf

end DecisionTree
