import DecisionTree.Proofs.Binary64.Order
import DecisionTree.Proofs.Column.Compaction
import DecisionTree.Proofs.Column.Partition
import DecisionTree.Proofs.Outcome

/-!
# Partitioning against rebuilding

The examples of a column and their values determine its entries, except for the sign of a zero
(`Column.Describes.alike`).  A column that is compacted from observations and then partitioned any
number of times describes the observations that have stayed in it (`Column.Made.holds`).
So each side of a partition is alike to the column that compaction makes of its observations alone
(`Column.partition_rebuilds`), although compaction sorts and adds up anew what a partition passes
on.
-/

namespace DecisionTree

open Scalar (Ordered)

variable {α : Type} [Scalar α]

/-- Entries that differ at most in how their value is written. -/
structure Entry.Alike (first second : Entry α) : Prop where
  value_eq : Scalar.eq first.value second.value = true
  indices_eq : first.indices = second.indices
  counts_eq : first.counts = second.counts

namespace Column

/-- Columns whose entries are alike one by one. -/
structure Alike (first second : Column α) : Prop where
  feature_eq : first.feature = second.feature
  targets_eq : first.targets = second.targets
  pending_eq : first.pending = second.pending
  entries_alike : List.Forall₂ Entry.Alike first.entries second.entries

/-- A cut of a column by ascending ids of its own, with a clean table of marks. -/
structure Cuts (column : Column α) (below marks : Buffer) : Prop where
  ascending : below.view.Pairwise (· < ·)
  own : ∀ id ∈ below.view, id ∈ column.indices
  clean : marks.Clean

/-- The columns that compaction and then any chain of partitions make, with the observations that
have stayed in them. -/
inductive Made (targets : Targets α) : List (Observation α) → Column α → Prop
  | compacted {observing column : Column α} (targets_eq : observing.targets = targets)
      (fresh : observing.pending = [] → observing.entries = [])
      (acceptable : Acceptable targets observing.pending.flatten)
      (compacted : observing.compact = (column, none)) :
      Made targets observing.pending.flatten column
  | left {observations : List (Observation α)} {column left right : Column α}
      {below gather marks : Buffer} (made : Made targets observations column)
      (cuts : column.Cuts below marks)
      (parted : (column.partition below gather marks).sides = .ok (left, right)) :
      Made targets (observations.filter fun observation => observation.index ∈ below.view) left
  | right {observations : List (Observation α)} {column left right : Column α}
      {below gather marks : Buffer} (made : Made targets observations column)
      (cuts : column.Cuts below marks)
      (parted : (column.partition below gather marks).sides = .ok (left, right)) :
      Made targets (observations.filter fun observation => observation.index ∉ below.view) right

end Column

variable {targets : Targets α} {value : Int → α} {ids : List Int}
variable {observations others : List (Observation α)} {column first second : Column α}

theorem Acceptable.of_subperm (acceptable : Acceptable targets observations)
    (subperm : others.Subperm observations) : Acceptable targets others where
  numbers observation member := acceptable.numbers observation (subperm.subset member)
  distinct := by
    obtain ⟨same, perm, sublist⟩ := subperm
    exact (perm.map _).nodup_iff.mp (acceptable.distinct.sublist (sublist.map _))
  knows observation member := acceptable.knows observation (subperm.subset member)

namespace Column

/-- Cut by ids of its own, a column falls into the part that holds these ids and the rest. -/
theorem Describes.partition_eq (describes : column.Describes targets value ids)
    (knows : ∀ index ∈ ids, targets.Knows index) (distinct : ids.Nodup) {below marks : Buffer}
    (cuts : column.Cuts below marks) (gather : Buffer) :
    (column.partition below gather marks).sides =
        .ok (column.keep fun id => decide (id ∈ below.view),
          column.keep fun id => !decide (id ∈ below.view)) ∧
      (column.partition below gather marks).marks.Clean := by
  have subset : ∀ id ∈ below.view, id ∈ ids := fun id member =>
    describes.perm.mem_iff.mp (cuts.own id member)
  obtain ⟨sides, cleanAgain⟩ := partition_spec gather
    (fun id member => (knows id (describes.perm.mem_iff.mp member)).1)
    (cuts.ascending.imp Int.le_of_lt)
    (fun id member => (knows id (subset id member)).1) cuts.clean
  refine ⟨?_, cleanAgain⟩
  rw [sides]
  exact deal_eq knows describes distinct (cuts.ascending.imp Int.ne_of_lt) subset

/-- A column describes acceptable observations. -/
def Holds (targets : Targets α) (observations : List (Observation α)) (column : Column α) : Prop :=
  Acceptable targets observations ∧ ∃ value, Agrees value observations ∧
    column.Describes targets value (observations.map Observation.index)

namespace Holds

/-- A kept part describes the observations of the examples that are kept. -/
theorem keep (holds : column.Holds targets observations) (chosen : Int → Bool) :
    (column.keep chosen).Holds targets
      (observations.filter fun observation => chosen observation.index) := by
  obtain ⟨acceptable, value, agrees, describes⟩ := holds
  refine ⟨acceptable.of_subperm List.filter_sublist.subperm, value,
    fun observation member => agrees observation (List.mem_of_mem_filter member), ?_⟩
  have kept := describes.keep chosen
  rwa [List.filter_map] at kept

theorem partition_eq (holds : column.Holds targets observations) {below marks : Buffer}
    (cuts : column.Cuts below marks) (gather : Buffer) :
    (column.partition below gather marks).sides =
        .ok (column.keep fun id => decide (id ∈ below.view),
          column.keep fun id => !decide (id ∈ below.view)) ∧
      (column.partition below gather marks).marks.Clean := by
  obtain ⟨acceptable, value, agrees, describes⟩ := holds
  refine describes.partition_eq (fun index member => ?_) acceptable.distinct cuts gather
  obtain ⟨observation, observed, rfl⟩ := List.mem_map.mp member
  exact acceptable.knows observation observed

end Holds

variable [Ordered α]

/-- A column made by compaction and partitions describes the observations that have stayed. -/
theorem Made.holds (made : Made targets observations column) :
    column.Holds targets observations := by
  induction made with
  | compacted same fresh acceptable compacted =>
      obtain ⟨value, agrees⟩ := exists_agrees acceptable.distinct
      obtain ⟨column, compactedTo, -, describes⟩ :=
        compact_describes _ same fresh acceptable agrees
      obtain ⟨rfl, -⟩ := Prod.mk.inj (compacted.symm.trans compactedTo)
      exact ⟨acceptable, value, agrees, describes⟩
  | @left observations column left right below gather marks made cuts parted whole =>
      obtain ⟨rfl, -⟩ :=
        Prod.mk.inj (Except.ok.inj (parted.symm.trans (whole.partition_eq cuts gather).1))
      exact whole.keep fun id => decide (id ∈ below.view)
  | @right observations column left right below gather marks made cuts parted whole =>
      obtain ⟨-, rfl⟩ :=
        Prod.mk.inj (Except.ok.inj (parted.symm.trans (whole.partition_eq cuts gather).1))
      simpa only [decide_not] using whole.keep fun id => !decide (id ∈ below.view)

/-- The ids of the entries of a column are sections of its examples. -/
theorem Describes.sections (describes : column.Describes targets value ids) :
    Sections (Earlier value) ids (column.entries.map Entry.indices) where
  ascending := by
    refine List.pairwise_map.mpr (describes.ascending.imp_of_mem ?_)
    intro lower upper lowerMember upperMember less left isLeft right isRight
    refine .inl (Scalar.precedes_iff.mpr (.inl ?_))
    exact Ordered.lt_of_eq_of_lt (describes.valued lower lowerMember left isLeft)
      (Ordered.lt_of_lt_of_eq less
        (Ordered.eq_symm (describes.valued upper upperMember right isRight)))
  nonempty := List.forall_mem_map.mpr fun entry member => (describes.settled entry member).nonempty
  sorted := List.forall_mem_map.mpr fun entry member => (describes.settled entry member).sorted
  level := List.forall_mem_map.mpr fun entry member left isLeft right isRight =>
    not_earlier_of_eq (Ordered.eq_trans (describes.valued entry member left isLeft)
      (Ordered.eq_symm (describes.valued entry member right isRight)))
  once := by
    rw [← List.flatMap_def]
    exact describes.perm

/-- Examples and their values determine the entries of a column. -/
theorem Describes.alike (describes : first.Describes targets value ids)
    (other : second.Describes targets value ids) (feature : first.feature = second.feature) :
    first.Alike second where
  feature_eq := feature
  targets_eq := describes.targets_eq.trans other.targets_eq.symm
  pending_eq := describes.pending_eq.trans other.pending_eq.symm
  entries_alike := by
    have same : first.entries.map Entry.indices = second.entries.map Entry.indices :=
      describes.sections.unique other.sections
    rw [← List.forall₂_eq_eq_eq, List.forall₂_map_left_iff, List.forall₂_map_right_iff,
      List.forall₂_iff_zip] at same
    refine List.forall₂_iff_zip.mpr ⟨same.1, fun {entry twin} paired => ?_⟩
    have indices := same.2 paired
    obtain ⟨member, twinMember⟩ := List.of_mem_zip paired
    have settled := describes.settled entry member
    obtain ⟨index, held⟩ := List.exists_mem_of_ne_nil _ settled.nonempty
    refine ⟨?_, indices, ?_⟩
    · exact Ordered.eq_trans (Ordered.eq_symm (describes.valued entry member index held))
        (other.valued twin twinMember index (indices ▸ held))
    · rw [settled.counted, (other.settled twin twinMember).counted, indices]

/-- What is kept of a column is alike to what compaction makes of the kept observations. -/
theorem Holds.exists_rebuilt (holds : column.Holds targets observations)
    {chunks : List (List (Observation α))} (perm : chunks.flatten.Perm observations) :
    ∃ rebuilt, ({ Column.empty column.feature targets with pending := chunks }).compact =
      (rebuilt, none) ∧ column.Alike rebuilt := by
  obtain ⟨acceptable, value, agrees, describes⟩ := holds
  let observing : Column α := { Column.empty column.feature targets with pending := chunks }
  obtain ⟨rebuilt, compacted, feature, rebuiltDescribes⟩ :=
    compact_describes observing rfl (fun _ => rfl)
      (acceptable.of_subperm perm.subperm)
      fun observation member => agrees observation (perm.mem_iff.mp member)
  exact ⟨rebuilt, compacted,
    describes.alike (rebuiltDescribes.congr (perm.map _)) feature.symm⟩

/-- A column that compaction and any chain of partitions have made can be cut by any ascending ids
of its own.  Its sides are what compaction makes of the observations of these examples and of the
other ones, in whatever chunks and order they come: the same values, ids and histograms.  The column
and the ids are only read, and the marks are taken back. -/
theorem partition_rebuilds (made : Made targets observations column) {below marks : Buffer}
    (cuts : column.Cuts below marks) (gather : Buffer)
    (leftChunks rightChunks : List (List (Observation α)))
    (leftPerm : leftChunks.flatten.Perm
      (observations.filter fun observation => observation.index ∈ below.view))
    (rightPerm : rightChunks.flatten.Perm
      (observations.filter fun observation => observation.index ∉ below.view)) :
    ∃ left right leftRebuilt rightRebuilt,
      (column.partition below gather marks).sides = .ok (left, right) ∧
      (column.partition below gather marks).marks.Clean ∧
      ({ Column.empty column.feature targets with pending := leftChunks }).compact =
        (leftRebuilt, none) ∧
      left.Alike leftRebuilt ∧
      ({ Column.empty column.feature targets with pending := rightChunks }).compact =
        (rightRebuilt, none) ∧
      right.Alike rightRebuilt := by
  have holds := made.holds
  obtain ⟨sides, clean⟩ := holds.partition_eq cuts gather
  simp only [decide_not] at rightPerm
  obtain ⟨leftRebuilt, leftCompacted, leftAlike⟩ :=
    (holds.keep fun id => decide (id ∈ below.view)).exists_rebuilt leftPerm
  obtain ⟨rightRebuilt, rightCompacted, rightAlike⟩ :=
    (holds.keep fun id => !decide (id ∈ below.view)).exists_rebuilt rightPerm
  exact ⟨_, _, leftRebuilt, rightRebuilt, sides, clean, leftCompacted, leftAlike, rightCompacted,
    rightAlike⟩

/-- Five weighted examples with two labels. -/
def Sample.fiveTargets : Targets Float where
  labels := #[0, 1, 0, 1, 0]
  weights := #[0.5, 0.25, 2, 0.1, 0.3]
  labelCount := 2

/-- Two values of the five examples in three chunks.  The zero of example 4 is negative. -/
def Sample.observing : Column Float :=
  { Column.empty 0 Sample.fiveTargets with pending :=
    [[⟨0.5, 3⟩, ⟨-0.0, 4⟩], [⟨0.0, 0⟩], [⟨0.0, 2⟩, ⟨0.5, 1⟩]] }

/-- A buffer that holds some ids. -/
def Sample.holding (ids : List Int) : Buffer :=
  (Buffer.ofCapacity 1).fill ids

/-- The examples 2, 3 and 4 are cut off. -/
def Sample.cut : Partition Float :=
  Sample.observing.compact.1.partition (Sample.holding [2, 3, 4]) (Sample.holding [])
    (Buffer.ofCapacity 1)

/-- The column of the examples that were cut off. -/
def Sample.part : Column Float :=
  Sample.observing.compact.1.keep fun id => decide (id ∈ [2, 3, 4])

/-- Of the three examples that were cut off, example 4 is cut off with the marks as they were left.
Its column holds a positive zero, and the column that is compacted from its observation the negative
one that was observed. -/
theorem partition_rebuilds_sample :
    Made Sample.fiveTargets [⟨0.5, 3⟩, ⟨-0.0, 4⟩, ⟨0.0, 2⟩] Sample.part ∧
    Sample.part.Cuts (Sample.holding [4]) Sample.cut.marks ∧
    ∃ left right leftRebuilt rightRebuilt : Column Float,
      (Sample.part.partition (Sample.holding [4]) (Sample.holding [7]) Sample.cut.marks).sides =
        .ok (left, right) ∧
      left.entries.map Entry.indices = [[4]] ∧
      right.entries.map Entry.indices = [[2], [3]] ∧
      ({ Column.empty 0 Sample.fiveTargets with pending := [[⟨-0.0, 4⟩]] }).compact =
        (leftRebuilt, none) ∧
      left.Alike leftRebuilt ∧
      ({ Column.empty 0 Sample.fiveTargets with
        pending := [[⟨0.0, 2⟩], [⟨0.5, 3⟩]] }).compact = (rightRebuilt, none) ∧
      right.Alike rightRebuilt := by
  have viewed : ∀ ids, (Sample.holding ids).view = ids := fun _ => Buffer.view_fill _ _
  have acceptable : Acceptable Sample.fiveTargets Sample.observing.pending.flatten := by
    have known : Sample.fiveTargets.Known 5 := ⟨rfl, rfl, by decide⟩
    have inRange : Targets.InRange 5
        (Sample.observing.pending.flatten.map Observation.index) := by
      unfold Targets.InRange
      decide
    exact ⟨by decide +kernel, by decide,
      fun observation member => known.knows inRange _ (List.mem_map_of_mem member)⟩
  have fresh : Sample.observing.pending = [] → Sample.observing.entries = [] :=
    fun impossible => by cases impossible
  obtain ⟨value, agrees⟩ := exists_agrees acceptable.distinct
  obtain ⟨whole, compacted, -, describes⟩ := compact_describes _ rfl fresh acceptable agrees
  obtain rfl : whole = Sample.observing.compact.1 := (congrArg Prod.fst compacted).symm
  have made := Made.compacted rfl fresh acceptable compacted
  have cuts : Sample.observing.compact.1.Cuts (Sample.holding [2, 3, 4])
      (Buffer.ofCapacity 1) :=
    ⟨by decide +kernel, by decide +kernel, Buffer.clean_ofCapacity 1⟩
  obtain ⟨sides, clean⟩ := made.holds.partition_eq cuts (Sample.holding [])
  have part := Made.left made cuts sides
  rw [viewed] at part
  have cutsAgain : Sample.part.Cuts (Sample.holding [4]) Sample.cut.marks :=
    ⟨by decide +kernel, by decide +kernel, clean⟩
  have passed : Outcome.passes
      (Sample.part.partition (Sample.holding [4]) (Sample.holding [7]) Sample.cut.marks).sides
      (fun (left, right) => left.entries.map Entry.indices == [[4]] &&
        right.entries.map Entry.indices == [[2], [3]]) = true := by
    decide +kernel
  obtain ⟨left, right, leftRebuilt, rightRebuilt, parted, -, leftCompacted, leftAlike,
    rightCompacted, rightAlike⟩ := partition_rebuilds part cutsAgain (Sample.holding [7])
      [[⟨-0.0, 4⟩]] [[⟨0.0, 2⟩], [⟨0.5, 3⟩]]
      (by rw [viewed]; exact .refl _) (by rw [viewed]; exact .swap _ _ _)
  obtain ⟨both, bothEq, ids⟩ := Outcome.exists_of_passes passed
  obtain rfl := Except.ok.inj (parted.symm.trans bothEq)
  rw [Bool.and_eq_true, beq_iff_eq, beq_iff_eq] at ids
  exact ⟨part, cutsAgain, left, right, leftRebuilt, rightRebuilt, parted, ids.1, ids.2,
    leftCompacted, leftAlike, rightCompacted, rightAlike⟩

end Column

end DecisionTree
