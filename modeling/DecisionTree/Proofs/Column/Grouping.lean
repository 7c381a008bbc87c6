import DecisionTree.Column.Compaction
import DecisionTree.Proofs.Column.Description
import DecisionTree.Proofs.Outcome
import Mathlib.Data.List.Pairwise
import Mathlib.Data.List.Sort

/-!
# Entries that group observations

`Groups` says what the entries of a column of observations look like: one entry for every distinct
number in ascending order, then one for every value that is no number, each with the ascending ids
of its examples and their histogram.  The observations leave no choice: whatever order they are
listed in, at most one list of entries groups them (`Groups.unique`).

Ids that are cut into sections by a relation, each section ascending and all of it before the next
one, can be cut in one way only (`Sections.unique`).  The sections of a column are the ids of its
entries.
-/

namespace DecisionTree

/-- Ids in sections: any id is before those of later sections and not before those of its own one,
in which the ids ascend. -/
structure Sections (before : Int → Int → Prop) (ids : List Int) (lists : List (List Int)) :
    Prop where
  ascending : lists.Pairwise fun first second => ∀ left ∈ first, ∀ right ∈ second, before left right
  nonempty : ∀ list ∈ lists, list ≠ []
  sorted : ∀ list ∈ lists, list.Pairwise (· < ·)
  level : ∀ list ∈ lists, ∀ left ∈ list, ∀ right ∈ list, ¬ before left right
  once : lists.flatten.Perm ids

namespace Sections

variable {before : Int → Int → Prop} {ids list : List Int} {lists others : List (List Int)}

/-- The section of an id holds the ids that are on neither side of it. -/
theorem mem_iff (sections : Sections before ids lists) (member : list ∈ lists) {id other : Int}
    (held : id ∈ list) : other ∈ list ↔ other ∈ ids ∧ ¬ before id other ∧ ¬ before other id := by
  constructor
  · intro otherHeld
    refine ⟨sections.once.mem_iff.mp (List.mem_flatten.mpr ⟨list, member, otherHeld⟩), ?_, ?_⟩
    · exact sections.level list member id held other otherHeld
    · exact sections.level list member other otherHeld id held
  · rintro ⟨isId, notBefore, notAfter⟩
    obtain ⟨own, ownMember, otherHeld⟩ := List.mem_flatten.mp (sections.once.mem_iff.mpr isId)
    have symm : Std.Symm fun first second : List Int =>
        (∀ left ∈ first, ∀ right ∈ second, before left right) ∨
          ∀ left ∈ second, ∀ right ∈ first, before left right := ⟨fun _ _ => Or.symm⟩
    have apart : lists.Pairwise fun first second =>
        (∀ left ∈ first, ∀ right ∈ second, before left right) ∨
          ∀ left ∈ second, ∀ right ∈ first, before left right :=
      sections.ascending.imp Or.inl
    have same : list = own := by
      by_contra differ
      rcases apart.forall member ownMember differ with earlier | later
      · exact notBefore (earlier id held other otherHeld)
      · exact notAfter (later other otherHeld id held)
    exact same ▸ otherHeld

theorem subset (sections : Sections before ids lists) (twin : Sections before ids others) :
    lists ⊆ others := by
  intro list member
  obtain ⟨id, held⟩ := List.exists_mem_of_ne_nil _ (sections.nonempty list member)
  have isId := ((sections.mem_iff member held).mp held).1
  obtain ⟨own, ownMember, ownHeld⟩ := List.mem_flatten.mp (twin.once.mem_iff.mpr isId)
  have same : list = own := by
    refine (sections.sorted list member).eq_of_mem_iff (twin.sorted own ownMember) fun other => ?_
    rw [sections.mem_iff member held, twin.mem_iff ownMember ownHeld]
  exact same ▸ ownMember

/-- All of one section comes before all of another one. -/
def Precedes (before : Int → Int → Prop) (first second : List Int) : Prop :=
  first ≠ [] ∧ second ≠ [] ∧ ∀ left ∈ first, ∀ right ∈ second, before left right

theorem pairwise_precedes (sections : Sections before ids lists) :
    lists.Pairwise (Precedes before) :=
  sections.ascending.imp_of_mem fun firstMember secondMember earlier =>
    ⟨sections.nonempty _ firstMember, sections.nonempty _ secondMember, earlier⟩

variable [Std.Asymm before]

theorem Precedes.asymm {first second : List Int} (precedes : Precedes before first second) :
    ¬ Precedes before second first := by
  rintro ⟨-, -, after⟩
  obtain ⟨nonempty, othersNonempty, earlier⟩ := precedes
  obtain ⟨left, isLeft⟩ := List.exists_mem_of_ne_nil _ nonempty
  obtain ⟨right, isRight⟩ := List.exists_mem_of_ne_nil _ othersNonempty
  exact Std.Asymm.asymm left right (earlier left isLeft right isRight)
    (after right isRight left isLeft)

instance : Std.Irrefl (Precedes before) where
  irrefl _ precedes := precedes.asymm precedes

instance : Std.Antisymm (Precedes before) where
  antisymm _ _ earlier later := absurd later earlier.asymm

/-- Ids can be cut into sections in one way only. -/
theorem unique (sections : Sections before ids lists) (twin : Sections before ids others) :
    lists = others :=
  sections.pairwise_precedes.eq_of_mem_iff twin.pairwise_precedes fun _ =>
    ⟨fun member => sections.subset twin member, fun member => twin.subset sections member⟩

end Sections

open Scalar (Ordered)

variable {α : Type} [Scalar α]

/-- The place of the label of an example in histograms, and its weight.  Ids of examples and of
labels may count from the end. -/
def Targets.share? (targets : Targets α) (index : Int) : Option (Nat × α) := do
  let (label, weight) ← targets.item? index
  let place ← Position.resolve targets.labelCount label
  pure (place, weight)

/-- The share of a known example is found. -/
theorem Targets.Knows.share?_eq {targets : Targets α} {index : Int} (knows : targets.Knows index) :
    targets.share? index = some (targets.labelled index) := by
  obtain ⟨bounded, found⟩ := knows.item?_eq
  simp [share?, found, Position.resolve_ofNat bounded]

namespace Entry

/-- The histogram of an entry adds up, label by label, the weights of its examples in the order of
their ids. -/
def Counted (targets : Targets α) (entry : Entry α) : Prop :=
  ∃ shares, entry.indices.mapM targets.share? = some shares ∧
    entry.counts = (List.range targets.labelCount).map fun label =>
      Histogram.weightOf label 0 shares

/-- The order of entries: ascending numbers, then all that is no number by ascending ids. -/
def Before (left right : Entry α) : Prop :=
  Scalar.precedes left.value right.value = true ∨
    Scalar.isNumber left.value = false ∧ Scalar.isNumber right.value = false ∧
      ∀ id ∈ left.indices, ∀ other ∈ right.indices, id < other

end Entry

/-- Entries that group observations of different examples. -/
structure Groups (targets : Targets α) (observations : List (Observation α))
    (entries : List (Entry α)) : Prop where
  ascending : entries.Pairwise Entry.Before
  nonempty : ∀ entry ∈ entries, entry.indices ≠ []
  sorted : ∀ entry ∈ entries, entry.indices.Pairwise (· < ·)
  /-- Every observed example stands in exactly one entry. -/
  once : (entries.flatMap Entry.indices).Perm (observations.map Observation.index)
  /-- An entry holds equal numbers, or a single value that is no number. -/
  equal : ∀ entry ∈ entries, ∀ observation ∈ observations, observation.index ∈ entry.indices →
    Scalar.eq observation.value entry.value = true ∨
      Scalar.isNumber observation.value = false ∧ entry.indices = [observation.index]
  /-- Of equal values an entry keeps the one of its lowest id. -/
  lowest : ∀ entry ∈ entries, ∀ observation ∈ observations,
    entry.indices.head? = some observation.index → entry.value = observation.value
  counted : ∀ entry ∈ entries, entry.Counted targets

/-- Each observed example has its observed value. -/
def Agrees (value : Int → α) (observations : List (Observation α)) : Prop :=
  ∀ observation ∈ observations, value observation.index = observation.value

section Agrees

variable {observations : List (Observation α)} {value : Int → α}

/-- Different examples that are observed have values. -/
theorem exists_agrees (distinct : (observations.map Observation.index).Nodup) :
    ∃ value : Int → α, Agrees value observations := by
  refine ⟨fun index => ((observations.find? (·.index == index)).map Observation.value).getD 0,
    fun observation member => ?_⟩
  cases found : observations.find? (·.index == observation.index) with
  | none => simpa using List.find?_eq_none.mp found observation member
  | some other =>
      have sameIndex : other.index = observation.index := by simpa using List.find?_some found
      have same : other = observation :=
        List.inj_on_of_nodup_map distinct (List.mem_of_find?_eq_some found) member sameIndex
      simp only [found, same, Option.map_some, Option.getD_some]

end Agrees

/-- The order of the examples of different entries, given by their values: ascending numbers, then
all that is no number by ascending ids. -/
def Earlier (value : Int → α) (left right : Int) : Prop :=
  Scalar.precedes (value left) (value right) = true ∨
    Scalar.isNumber (value left) = false ∧ Scalar.isNumber (value right) = false ∧ left < right

section Earlier

variable [Ordered α] {value : Int → α} {left right : Int}

instance : Std.Asymm (Earlier value) where
  asymm left right := by
    rintro (before | ⟨leftNot, rightNot, less⟩) (after | ⟨-, leftNot', greater⟩)
    · rw [Scalar.precedes_asymm before] at after
      cases after
    · rw [Scalar.isNumber_of_precedes before] at leftNot'
      cases leftNot'
    · rw [Scalar.isNumber_of_precedes after] at rightNot
      cases rightNot
    · omega

theorem not_earlier_of_eq (same : Scalar.eq (value left) (value right) = true) :
    ¬ Earlier value left right := by
  rintro (before | ⟨leftNot, -, -⟩)
  · rw [Scalar.not_precedes_of_eq same] at before
    cases before
  · rw [(Ordered.eq_iff.mp same).1] at leftNot
    cases leftNot

end Earlier

namespace Groups

variable {targets : Targets α} {observations others : List (Observation α)}
variable {entries twins : List (Entry α)} {entry : Entry α} {value : Int → α} {index : Int}

/-- The order in which observations are listed does not matter. -/
theorem congr (groups : Groups targets observations entries) (perm : observations.Perm others) :
    Groups targets others entries where
  ascending := groups.ascending
  nonempty := groups.nonempty
  sorted := groups.sorted
  once := groups.once.trans (perm.map _)
  equal entry member observation observed :=
    groups.equal entry member observation (perm.mem_iff.mpr observed)
  lowest entry member observation observed :=
    groups.lowest entry member observation (perm.mem_iff.mpr observed)
  counted := groups.counted

theorem exists_observation (groups : Groups targets observations entries)
    (member : entry ∈ entries) (held : index ∈ entry.indices) :
    ∃ observation ∈ observations, observation.index = index :=
  List.mem_map.mp (groups.once.mem_iff.mp (List.mem_flatMap.mpr ⟨entry, member, held⟩))

/-- Only examples whose shares are found can be grouped. -/
theorem share?_ne_none (groups : Groups targets observations entries)
    {observation : Observation α} (observed : observation ∈ observations) :
    targets.share? observation.index ≠ none := by
  intro unknown
  obtain ⟨entry, member, held⟩ :=
    List.mem_flatMap.mp (groups.once.mem_iff.mpr (List.mem_map_of_mem observed))
  obtain ⟨shares, found, -⟩ := groups.counted entry member
  rw [Outcome.mapM_eq_none.mpr ⟨observation.index, held, unknown⟩] at found
  cases found

/-- The examples of an entry whose value is a number have equal values. -/
theorem eq_value (groups : Groups targets observations entries)
    (agrees : Agrees value observations) (member : entry ∈ entries) (held : index ∈ entry.indices)
    (number : Scalar.isNumber entry.value = true) : Scalar.eq (value index) entry.value = true := by
  obtain ⟨observation, observed, rfl⟩ := groups.exists_observation member held
  rw [agrees observation observed]
  rcases groups.equal entry member observation observed held with same | ⟨notNumber, alone⟩
  · exact same
  · rw [groups.lowest entry member observation observed (by rw [alone]; rfl)] at number ⊢
    exact number

/-- The value of an entry is that of its lowest id. -/
theorem value_eq (groups : Groups targets observations entries) (agrees : Agrees value observations)
    (member : entry ∈ entries) (first : entry.indices.head? = some index) :
    entry.value = value index := by
  obtain ⟨observation, observed, rfl⟩ :=
    groups.exists_observation member (List.mem_of_head? first)
  rw [agrees observation observed]
  exact groups.lowest entry member observation observed first

/-- Entries that group numbers of known examples make a column that describes these examples. -/
theorem describes (groups : Groups targets observations entries)
    (agrees : Agrees value observations)
    (numbers : ∀ observation ∈ observations, Scalar.isNumber observation.value = true)
    (knows : ∀ observation ∈ observations, targets.Knows observation.index) (feature : Int) :
    ({ feature, targets, entries, pending := [] } : Column α).Describes targets value
      (observations.map Observation.index) := by
  have number : ∀ entry ∈ entries, Scalar.isNumber entry.value = true := by
    intro entry member
    have first := List.head?_eq_some_head (groups.nonempty entry member)
    obtain ⟨observation, observed, same⟩ :=
      groups.exists_observation member (List.mem_of_head? first)
    rw [groups.lowest entry member observation observed (same ▸ first)]
    exact numbers observation observed
  refine { targets_eq := rfl, pending_eq := rfl, ascending := ?_, settled := ?_, valued := ?_,
           perm := groups.once }
  · refine groups.ascending.imp_of_mem fun {first second} firstMember secondMember before => ?_
    rcases before with precedes | ⟨firstNot, -, -⟩
    · exact Scalar.lt_of_precedes precedes (number second secondMember)
    · rw [number first firstMember] at firstNot
      cases firstNot
  · intro entry member
    refine ⟨groups.nonempty entry member, groups.sorted entry member, ?_⟩
    have shared : entry.indices.mapM targets.share? =
        some (entry.indices.map targets.labelled) := by
      refine Outcome.mapM_eq_some_map fun index held => ?_
      obtain ⟨observation, observed, rfl⟩ := groups.exists_observation member held
      exact (knows observation observed).share?_eq
    obtain ⟨shares, found, counts⟩ := groups.counted entry member
    obtain rfl := Option.some.inj (shared.symm.trans found)
    rw [counts, Targets.tally, Histogram.tally_eq_map]
  · exact fun entry member index held => groups.eq_value agrees member held (number entry member)

/-- An entry is determined by its ids. -/
theorem eq_of_indices_eq (groups : Groups targets observations entries)
    (other : Groups targets observations twins) (agrees : Agrees value observations)
    (member : entry ∈ entries) {twin : Entry α} (twinMember : twin ∈ twins)
    (same : entry.indices = twin.indices) : entry = twin := by
  have first := List.head?_eq_some_head (groups.nonempty entry member)
  have valueEq := (groups.value_eq agrees member first).trans
    (other.value_eq agrees twinMember (same ▸ first)).symm
  obtain ⟨shares, found, counts⟩ := groups.counted entry member
  obtain ⟨twinShares, twinFound, twinCounts⟩ := other.counted twin twinMember
  rw [same, twinFound] at found
  obtain rfl := Option.some.inj found
  obtain ⟨entryValue, indices, entryCounts⟩ := entry
  obtain ⟨twinValue, twinIndices, twinEntryCounts⟩ := twin
  simp only at valueEq same counts twinCounts
  rw [valueEq, same, counts, twinCounts]

variable [Ordered α]

/-- An example whose entry has a value that is no number is alone in it. -/
theorem eq_singleton (groups : Groups targets observations entries)
    (agrees : Agrees value observations) (member : entry ∈ entries) (held : index ∈ entry.indices)
    (notNumber : Scalar.isNumber entry.value = false) :
    value index = entry.value ∧ entry.indices = [index] := by
  obtain ⟨observation, observed, rfl⟩ := groups.exists_observation member held
  rcases groups.equal entry member observation observed held with same | ⟨-, alone⟩
  · rw [(Ordered.eq_iff.mp same).2.1] at notNumber
    cases notNumber
  · exact ⟨(groups.value_eq agrees member (by rw [alone]; rfl)).symm, alone⟩

theorem earlier_of_before (groups : Groups targets observations entries)
    (agrees : Agrees value observations) {first second : Entry α} (firstMember : first ∈ entries)
    (secondMember : second ∈ entries) (before : first.Before second) :
    ∀ left ∈ first.indices, ∀ right ∈ second.indices, Earlier value left right := by
  intro left isLeft right isRight
  rcases before with precedes | ⟨firstNot, secondNot, less⟩
  · have firstNumber := Scalar.isNumber_of_precedes precedes
    have leftEq := groups.eq_value agrees firstMember isLeft firstNumber
    refine .inl (Scalar.precedes_iff.mpr ?_)
    cases secondNumber : Scalar.isNumber second.value with
    | true =>
        have rightEq := groups.eq_value agrees secondMember isRight secondNumber
        exact .inl (Ordered.lt_of_eq_of_lt leftEq (Ordered.lt_of_lt_of_eq
          (Scalar.lt_of_precedes precedes secondNumber) (Ordered.eq_symm rightEq)))
    | false =>
        rw [(groups.eq_singleton agrees secondMember isRight secondNumber).1]
        exact .inr ⟨(Ordered.eq_iff.mp leftEq).1, secondNumber⟩
  · refine .inr ⟨?_, ?_, less left isLeft right isRight⟩
    · rwa [(groups.eq_singleton agrees firstMember isLeft firstNot).1]
    · rwa [(groups.eq_singleton agrees secondMember isRight secondNot).1]

theorem not_earlier_of_mem (groups : Groups targets observations entries)
    (agrees : Agrees value observations) (member : entry ∈ entries) :
    ∀ left ∈ entry.indices, ∀ right ∈ entry.indices, ¬ Earlier value left right := by
  intro left isLeft right isRight earlier
  cases number : Scalar.isNumber entry.value with
  | true =>
      have leftEq := groups.eq_value agrees member isLeft number
      have same := Ordered.eq_trans leftEq
        (Ordered.eq_symm (groups.eq_value agrees member isRight number))
      exact not_earlier_of_eq same earlier
  | false =>
      have alone := (groups.eq_singleton agrees member isLeft number).2
      rw [alone] at isRight
      obtain rfl := List.mem_singleton.mp isRight
      exact Std.Asymm.asymm _ _ earlier earlier

/-- The ids of the entries are sections of the observed examples. -/
theorem sections (groups : Groups targets observations entries)
    (agrees : Agrees value observations) :
    Sections (Earlier value) (observations.map Observation.index)
      (entries.map Entry.indices) where
  ascending := List.pairwise_map.mpr <| groups.ascending.imp_of_mem
    fun firstMember secondMember before =>
      groups.earlier_of_before agrees firstMember secondMember before
  nonempty := List.forall_mem_map.mpr groups.nonempty
  sorted := List.forall_mem_map.mpr groups.sorted
  level := List.forall_mem_map.mpr fun _ member => groups.not_earlier_of_mem agrees member
  once := by
    rw [← List.flatMap_def]
    exact groups.once

/-- At most one list of entries groups given observations. -/
theorem unique (groups : Groups targets observations entries) (other : Groups targets others twins)
    (distinct : (observations.map Observation.index).Nodup) (perm : observations.Perm others) :
    entries = twins := by
  obtain ⟨value, agrees⟩ := exists_agrees distinct
  have twin := other.congr perm.symm
  have same : entries.map Entry.indices = twins.map Entry.indices :=
    (groups.sections agrees).unique (twin.sections agrees)
  have length : entries.length = twins.length := by simpa using congrArg List.length same
  refine List.ext_getElem length fun place inside twinInside => ?_
  have indices : entries[place].indices = twins[place].indices := by
    simpa [inside, twinInside] using congrArg (·[place]?) same
  exact groups.eq_of_indices_eq twin agrees (List.getElem_mem inside) (List.getElem_mem twinInside)
    indices

end Groups

end DecisionTree
