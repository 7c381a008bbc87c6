import DecisionTree.Proofs.Column.Compaction
import DecisionTree.Proofs.Column.Partition
import DecisionTree.Proofs.Outcome

/-!
# Columns whose ids are in order

A column is tidy if its ids are natural numbers of which none occurs twice, ascending in every
entry.  Compaction makes tidy columns out of observations of any values
(`Column.ofObservations_tidy`), and dealing out a tidy column gives tidy ones (`Column.Tidy.deal`),
even if its ids are not those of known examples.  This is all that the buffers rely on.
-/

namespace DecisionTree

variable {α : Type}

/-- The ids of entries are natural numbers of which none occurs twice, ascending in every entry. -/
structure TidyEntries (entries : List (Entry α)) : Prop where
  nonneg : ∀ id ∈ entries.flatMap Entry.indices, 0 ≤ id
  nodup : (entries.flatMap Entry.indices).Nodup
  sorted : ∀ entry ∈ entries, entry.indices.Pairwise (· < ·)

/-- The entries of a column are tidy. -/
def Column.Tidy (column : Column α) : Prop :=
  TidyEntries column.entries

/-- Entries of which each holds some of the ids of another one, in the same order. -/
inductive Thinned : List (Entry α) → List (Entry α) → Prop
  | nil : Thinned [] []
  | drop {parts entries : List (Entry α)} (entry : Entry α) (rest : Thinned parts entries) :
      Thinned parts (entry :: entries)
  | keep {parts entries : List (Entry α)} {part entry : Entry α}
      (sublist : part.indices.Sublist entry.indices) (rest : Thinned parts entries) :
      Thinned (part :: parts) (entry :: entries)

namespace Thinned

variable {parts entries : List (Entry α)}

theorem sublist (thinned : Thinned parts entries) :
    (parts.flatMap Entry.indices).Sublist (entries.flatMap Entry.indices) := by
  induction thinned with
  | nil => exact .slnil
  | drop entry rest ih =>
      rw [List.flatMap_cons]
      exact ih.trans (List.sublist_append_right _ _)
  | keep sublist rest ih =>
      rw [List.flatMap_cons, List.flatMap_cons]
      exact sublist.append ih

theorem exists_sublist (thinned : Thinned parts entries) :
    ∀ part ∈ parts, ∃ entry ∈ entries, part.indices.Sublist entry.indices := by
  induction thinned with
  | nil =>
      intro part member
      cases member
  | drop entry rest ih =>
      intro part member
      obtain ⟨other, otherMember, sublist⟩ := ih part member
      exact ⟨other, List.mem_cons_of_mem _ otherMember, sublist⟩
  | keep sublist rest ih =>
      intro part member
      rcases List.mem_cons.mp member with rfl | member
      · exact ⟨_, List.mem_cons_self, sublist⟩
      · obtain ⟨other, otherMember, sublist⟩ := ih part member
        exact ⟨other, List.mem_cons_of_mem _ otherMember, sublist⟩

/-- What is left of tidy entries is tidy. -/
theorem tidy (thinned : Thinned parts entries) (tidy : TidyEntries entries) :
    TidyEntries parts where
  nonneg id member := tidy.nonneg id (thinned.sublist.subset member)
  nodup := tidy.nodup.sublist thinned.sublist
  sorted part member := by
    obtain ⟨entry, entryMember, sublist⟩ := thinned.exists_sublist part member
    exact (tidy.sorted entry entryMember).sublist sublist

end Thinned

/-- Some of the ids of an entry, picked by marks. -/
theorem sublist_marked (indices : List Int) (marks : List Bool) (test : Int × Bool → Bool) :
    (((indices.zip marks).filter test).map Prod.fst).Sublist indices :=
  (List.filter_sublist.map _).trans (sublist_map_fst_zip _ _)

variable [Scalar α] {targets : Targets α}

theorem Entry.indices_restrict {entry part : Entry α} {indices : List Int}
    (restricted : entry.restrict targets indices = .ok part) : part.indices = indices := by
  obtain ⟨counts, -, same⟩ := Outcome.bind_eq_ok.mp restricted
  rw [← Except.ok.inj same]

/-- Dealing out entries leaves some of the ids on either side. -/
theorem thinned_of_dealEntries {entries left right : List (Entry α)} {marks : List Bool}
    (dealt : dealEntries targets entries marks = .ok (left, right)) :
    Thinned left entries ∧ Thinned right entries := by
  induction entries generalizing marks left right with
  | nil =>
      obtain ⟨rfl, rfl⟩ := Prod.mk.inj (Except.ok.inj dealt)
      exact ⟨.nil, .nil⟩
  | cons entry rest ih =>
      rw [dealEntries] at dealt
      simp only at dealt
      split at dealt
      next =>
        obtain ⟨⟨lefts, rights⟩, others, same⟩ := Outcome.bind_eq_ok.mp dealt
        obtain ⟨rfl, rfl⟩ := Prod.mk.inj (Except.ok.inj same)
        exact ⟨.keep (.refl _) (ih others).1, .drop entry (ih others).2⟩
      next =>
      split at dealt
      next =>
        obtain ⟨⟨lefts, rights⟩, others, same⟩ := Outcome.bind_eq_ok.mp dealt
        obtain ⟨rfl, rfl⟩ := Prod.mk.inj (Except.ok.inj same)
        exact ⟨.drop entry (ih others).1, .keep (.refl _) (ih others).2⟩
      next =>
        obtain ⟨kept, keptEq, dealt⟩ := Outcome.bind_eq_ok.mp dealt
        obtain ⟨other, otherEq, dealt⟩ := Outcome.bind_eq_ok.mp dealt
        obtain ⟨⟨lefts, rights⟩, others, same⟩ := Outcome.bind_eq_ok.mp dealt
        obtain ⟨rfl, rfl⟩ := Prod.mk.inj (Except.ok.inj same)
        have keptIds := Entry.indices_restrict keptEq
        have otherIds := Entry.indices_restrict otherEq
        refine ⟨.keep ?_ (ih others).1, .keep ?_ (ih others).2⟩
        · rw [keptIds]
          exact sublist_marked _ _ _
        · rw [otherIds]
          exact sublist_marked _ _ _

namespace Column

variable {column left right : Column α}

/-- Both sides of a tidy column are tidy. -/
theorem Tidy.deal (tidy : column.Tidy) {chosen : Nat} {marks : List Bool}
    (dealt : column.deal chosen marks = .ok (left, right)) : left.Tidy ∧ right.Tidy := by
  rw [Column.deal] at dealt
  simp only at dealt
  split at dealt
  next => cases dealt
  next =>
    obtain ⟨⟨lefts, rights⟩, entries, same⟩ := Outcome.bind_eq_ok.mp dealt
    obtain ⟨rfl, rfl⟩ := Prod.mk.inj (Except.ok.inj same)
    obtain ⟨leftThinned, rightThinned⟩ := thinned_of_dealEntries entries
    exact ⟨leftThinned.tidy tidy, rightThinned.tidy tidy⟩

/-- A column that describes known examples is tidy. -/
theorem Describes.tidy {value : Int → α} {ids : List Int} {count : Nat}
    (describes : column.Describes targets value ids) (distinct : ids.Nodup)
    (inRange : Targets.InRange count ids) : column.Tidy where
  nonneg id member := (inRange id (describes.perm.mem_iff.mp member)).1
  nodup := describes.perm.nodup_iff.mpr distinct
  sorted entry member := (describes.settled entry member).sorted

variable [Scalar.Ordered α]

/-- Observations are grouped into tidy entries if their ids are natural numbers. -/
theorem group_tidy {observations : List (Observation α)} {entries : List (Entry α)}
    (grouped : column.group observations = .ok entries)
    (nonneg : ∀ observation ∈ observations, 0 ≤ observation.index) : TidyEntries entries := by
  obtain ⟨distinct, groups⟩ := group_eq_ok_iff.mp grouped
  refine ⟨fun id member => ?_, groups.once.nodup_iff.mpr distinct, groups.sorted⟩
  obtain ⟨observation, observed, rfl⟩ := List.mem_map.mp (groups.once.mem_iff.mp member)
  exact nonneg observation observed

omit [Scalar.Ordered α] in
/-- A column of observations holds the entries that group them. -/
theorem of_ofObservations {feature : Int} {values : List α} {indices : List Int}
    (built : ofObservations feature targets values indices = .ok column) :
    ∃ (observing : Column α) (entries : List (Entry α)), observing.targets = targets ∧
      observing.group (List.zipWith (fun value index => { value, index }) values indices) =
        .ok entries ∧
      column = { observing with entries, pending := [] } := by
  obtain ⟨observed, noted, built⟩ := Outcome.bind_eq_ok.mp built
  unfold observeMany at noted
  split at noted
  next => cases noted
  next =>
    obtain rfl := Except.ok.inj noted
    simp only [compact, Column.empty, List.nil_append, List.flatten_singleton] at built
    split at built
    next compacted made =>
      split at made
      next entries grouped =>
        obtain ⟨rfl, -⟩ := Prod.mk.inj made
        exact ⟨_, entries, rfl, grouped, (Except.ok.inj built).symm⟩
      next => cases (Prod.mk.inj made).2
    next => cases built

/-- A column of observations is tidy if the observed ids are natural numbers. -/
theorem ofObservations_tidy {feature : Int} {values : List α} {indices : List Int}
    (built : ofObservations feature targets values indices = .ok column)
    (nonneg : ∀ id ∈ indices, 0 ≤ id) : column.Tidy := by
  obtain ⟨observing, entries, -, grouped, rfl⟩ := of_ofObservations built
  refine group_tidy grouped fun observation member => ?_
  rw [← List.map_uncurry_zip_eq_zipWith] at member
  obtain ⟨⟨value, index⟩, paired, rfl⟩ := List.mem_map.mp member
  exact nonneg index (List.of_mem_zip paired).2

end Column

end DecisionTree
