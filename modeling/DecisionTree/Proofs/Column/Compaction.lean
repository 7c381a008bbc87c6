import DecisionTree.Proofs.Column.Grouping
import Mathlib.Data.List.SplitBy

/-!
# Compaction groups what was observed

Samples are sorted by value and then by id, and every run of equal values makes one entry.  In a
sorted list all samples of a run come before those of later runs (`pairwise_runBefore_runsOf`), so
the entries group the observations (`Column.groups_of_group`), and they can be made exactly if no
example is observed twice and the label and weight of each are known (`Column.group_eq_ok_iff`).

A column of numbers that are observed of known examples therefore describes these examples
(`Column.ofObservations_describes`).
-/

namespace DecisionTree

open Scalar (Ordered)

variable {α : Type} [Scalar α]

namespace Sample

variable [Ordered α]

theorem precedes_asymm {left right : Sample α} (before : left.precedes right = true) :
    right.precedes left = false := by
  unfold precedes at before ⊢
  cases byValue : Scalar.precedes left.value right.value with
  | true => simp [Scalar.precedes_asymm byValue]
  | false =>
      simp only [byValue, Bool.false_or, Bool.and_eq_true, Bool.not_eq_true',
        decide_eq_true_eq] at before
      simp only [before.1, Bool.false_or, Bool.not_false, Bool.true_and, decide_eq_false_iff_not]
      exact Int.not_lt.mpr (Int.le_of_lt before.2)

theorem precedes_or_precedes {left right : Sample α} (middle : Sample α)
    (before : left.precedes right = true) :
    left.precedes middle = true ∨ middle.precedes right = true := by
  cases leftFirst : Scalar.precedes left.value middle.value with
  | true => exact .inl (by simp [precedes, leftFirst])
  | false =>
      cases rightLast : Scalar.precedes middle.value right.value with
      | true => exact .inr (by simp [precedes, rightLast])
      | false =>
          have byValue : Scalar.precedes left.value right.value = false := by
            cases differ : Scalar.precedes left.value right.value with
            | false => rfl
            | true =>
                simpa [leftFirst, rightLast] using
                  Scalar.precedes_or_precedes middle.value differ
          simp only [precedes, byValue, Bool.false_or, Bool.and_eq_true, Bool.not_eq_true',
            decide_eq_true_eq] at before
          obtain ⟨notAfter, ids⟩ := before
          -- equal values on both sides of the middle: it ties with both or goes beyond one
          cases middleFirst : Scalar.precedes middle.value left.value with
          | true =>
              rcases Scalar.precedes_or_precedes right.value middleFirst with last | first
              · simp [rightLast] at last
              · simp [notAfter] at first
          | false =>
              cases middleLast : Scalar.precedes right.value middle.value with
              | true =>
                  rcases Scalar.precedes_or_precedes left.value middleLast with first | last
                  · simp [notAfter] at first
                  · simp [leftFirst] at last
              | false =>
                  simp only [precedes, leftFirst, middleFirst, rightLast, middleLast,
                    Bool.false_or, Bool.not_false, Bool.true_and, decide_eq_true_eq]
                  omega

/-- The order in which samples are sorted. -/
def inOrder (left right : Sample α) : Bool :=
  !right.precedes left

/-- Sorting puts samples in order. -/
theorem pairwise_sort_inOrder (samples : List (Sample α)) :
    (Sorting.sort inOrder samples).Pairwise fun left right => right.precedes left = false := by
  have total : ∀ left right : Sample α, (inOrder left right || inOrder right left) = true := by
    intro left right
    cases before : right.precedes left with
    | false => simp [inOrder, before]
    | true => simp [inOrder, precedes_asymm before]
  have trans : ∀ left middle right : Sample α, inOrder left middle = true →
      inOrder middle right = true → inOrder left right = true := by
    intro left middle right first second
    simp only [inOrder, Bool.not_eq_true'] at first second ⊢
    cases before : right.precedes left with
    | false => rfl
    | true => simpa [first, second] using precedes_or_precedes middle before
  have sorted := Sorting.pairwise_sort total trans samples
  exact sorted.imp fun ordered => by simpa [inOrder] using ordered

end Sample

section Runs

variable [Ordered α] {samples run : List (Sample α)}

/-- The runs of equal values. -/
def runsOf (samples : List (Sample α)) : List (List (Sample α)) :=
  samples.splitBy fun left right => Scalar.eq left.value right.value

/-- Samples with equal values. -/
def Sample.Ties (left right : Sample α) : Prop :=
  Scalar.eq left.value right.value = true

instance : Trans (Sample.Ties (α := α)) Sample.Ties Sample.Ties where
  trans := Ordered.eq_trans

instance : Std.Symm (Sample.Ties (α := α)) where
  symm _ _ := Ordered.eq_symm

/-- Within a run all values are equal. -/
theorem pairwise_ties_of_mem_runsOf (member : run ∈ runsOf samples) :
    run.Pairwise Sample.Ties := by
  have chain : run.IsChain Sample.Ties := List.isChain_of_mem_splitBy member
  exact chain.pairwise

omit [Ordered α] in
theorem sublist_of_mem_runsOf (member : run ∈ runsOf samples) : run.Sublist samples := by
  have sublist := List.sublist_flatten_of_mem member
  rwa [runsOf, List.flatten_splitBy] at sublist

omit [Ordered α] in
/-- The entries of the runs hold the ids of the samples. -/
theorem indices_runsOf (samples : List (Sample α)) (labelCount : Nat) :
    ((runsOf samples).map (Entry.ofSamples labelCount)).flatMap Entry.indices =
      samples.map Sample.index := by
  have flat : (runsOf samples).flatten = samples := List.flatten_splitBy _ samples
  rw [List.flatMap_map, ← flat, List.map_flatten, List.flatMap_def, flat]
  rfl

/-- The order of samples of different runs: ascending numbers, then all that is no number by
ascending ids. -/
def Sample.Before (left right : Sample α) : Prop :=
  Scalar.precedes left.value right.value = true ∨
    Scalar.isNumber left.value = false ∧ Scalar.isNumber right.value = false ∧
      left.index < right.index

namespace Sample

variable {left middle right : Sample α}

theorem Before.trans (first : left.Before middle) (second : middle.Before right) :
    left.Before right := by
  rcases first with first | ⟨leftNot, middleNot, less⟩
  · rcases second with second | ⟨-, rightNot, -⟩
    · exact .inl (Scalar.precedes_trans first second)
    · exact .inl (Scalar.precedes_iff.mpr (.inr ⟨Scalar.isNumber_of_precedes first, rightNot⟩))
  · rcases second with second | ⟨-, rightNot, more⟩
    · rw [Scalar.isNumber_of_precedes second] at middleNot
      cases middleNot
    · exact .inr ⟨leftNot, rightNot, Int.lt_trans less more⟩

theorem Before.trans_ties (before : left.Before middle) (ties : middle.Ties right) :
    left.Before right := by
  obtain ⟨middleNumber, rightNumber, -, -⟩ := Ordered.eq_iff.mp ties
  rcases before with before | ⟨-, middleNot, -⟩
  · have less := Scalar.lt_of_precedes before middleNumber
    exact .inl (Scalar.precedes_iff.mpr (.inl (Ordered.lt_of_lt_of_eq less ties)))
  · rw [middleNumber] at middleNot
    cases middleNot

theorem Ties.trans_before (ties : left.Ties middle) (before : middle.Before right) :
    left.Before right := by
  obtain ⟨leftNumber, middleNumber, -, -⟩ := Ordered.eq_iff.mp ties
  rcases before with before | ⟨middleNot, -, -⟩
  · rcases Scalar.precedes_iff.mp before with less | ⟨-, rightNot⟩
    · exact .inl (Scalar.precedes_iff.mpr (.inl (Ordered.lt_of_eq_of_lt ties less)))
    · exact .inl (Scalar.precedes_iff.mpr (.inr ⟨leftNumber, rightNot⟩))
  · rw [middleNumber] at middleNot
    cases middleNot

/-- Of two samples in order that do not tie, the first belongs to an earlier run. -/
theorem before_of_not_ties (ordered : right.precedes left = false)
    (differ : left.index ≠ right.index) (apart : ¬ left.Ties right) : left.Before right := by
  simp only [precedes, Bool.or_eq_false_iff, Bool.and_eq_false_iff, Bool.not_eq_false',
    decide_eq_false_iff_not] at ordered
  obtain ⟨notAfter, before | ids⟩ := ordered
  · exact .inl before
  · cases before : Scalar.precedes left.value right.value with
    | true => exact .inl before
    | false =>
        rcases Scalar.eq_or_of_not_precedes before notAfter with same | ⟨leftNot, rightNot⟩
        · exact absurd same apart
        · exact .inr ⟨leftNot, rightNot, by omega⟩

end Sample

/-- Two samples of one run are the same or have equal values. -/
theorem eq_or_ties_of_mem_run (member : run ∈ runsOf samples) {left right : Sample α}
    (leftMember : left ∈ run) (rightMember : right ∈ run) : left = right ∨ left.Ties right := by
  by_cases same : left = right
  · exact .inl same
  · exact .inr ((pairwise_ties_of_mem_runsOf member).forall leftMember rightMember same)

theorem isNumber_eq_of_mem_run (member : run ∈ runsOf samples) {left right : Sample α}
    (leftMember : left ∈ run) (rightMember : right ∈ run) :
    Scalar.isNumber left.value = Scalar.isNumber right.value := by
  rcases eq_or_ties_of_mem_run member leftMember rightMember with rfl | ties
  · rfl
  · obtain ⟨leftNumber, rightNumber, -, -⟩ := Ordered.eq_iff.mp ties
    rw [leftNumber, rightNumber]

/-- A value that is no number ties with nothing, so it makes a run of its own. -/
theorem eq_singleton_of_mem_run (member : run ∈ runsOf samples) {sample : Sample α}
    (sampled : sample ∈ run) (notNumber : Scalar.isNumber sample.value = false) :
    run = [sample] := by
  have ties := pairwise_ties_of_mem_runsOf member
  cases run with
  | nil => cases sampled
  | cons first rest =>
      have fromFirst := (List.pairwise_cons.mp ties).1
      have alone : rest = [] := by
        refine List.eq_nil_iff_forall_not_mem.mpr fun other later => ?_
        have same := isNumber_eq_of_mem_run member List.mem_cons_self sampled
        rw [(Ordered.eq_iff.mp (fromFirst other later)).1, notNumber] at same
        cases same
      rw [alone] at sampled ⊢
      rw [List.mem_singleton.mp sampled]

/-- All samples of one run come before those of another one. -/
def RunBefore (first second : List (Sample α)) : Prop :=
  first ≠ [] ∧ second ≠ [] ∧ ∀ left ∈ first, ∀ right ∈ second, left.Before right

instance : Trans (RunBefore (α := α)) RunBefore RunBefore where
  trans := by
    intro first middle last firstBefore secondBefore
    obtain ⟨nonempty, middleNonempty, firstMiddle⟩ := firstBefore
    obtain ⟨-, lastNonempty, middleLast⟩ := secondBefore
    obtain ⟨sample, sampleMember⟩ := List.exists_mem_of_ne_nil middle middleNonempty
    refine ⟨nonempty, lastNonempty, fun left leftMember right rightMember => ?_⟩
    exact (firstMiddle left leftMember sample sampleMember).trans
      (middleLast sample sampleMember right rightMember)

/-- The runs of a sorted list without repetition stand in order. -/
theorem pairwise_runBefore_runsOf
    (sorted : samples.Pairwise fun left right => right.precedes left = false)
    (distinct : (samples.map Sample.index).Nodup) : (runsOf samples).Pairwise RunBefore := by
  have flat : (runsOf samples).flatten = samples := List.flatten_splitBy _ samples
  have ordered := sorted.and (List.pairwise_map.mp distinct)
  have across := (List.pairwise_flatten.mp (flat.symm ▸ ordered)).2
  have breaks : (runsOf samples).IsChain fun first second =>
      ∃ firstNonempty secondNonempty,
        Scalar.eq (first.getLast firstNonempty).value (second.head secondNonempty).value = false :=
    List.isChain_getLast_head_splitBy
      (fun left right : Sample α => Scalar.eq left.value right.value) samples
  have chain : (runsOf samples).IsChain RunBefore := by
    rw [List.isChain_iff_getElem] at breaks ⊢
    intro place inside
    have neighbours := List.pairwise_iff_getElem.mp across place (place + 1) (by omega) inside
      (Nat.lt_succ_self place)
    have firstMember : (runsOf samples)[place] ∈ runsOf samples := List.getElem_mem _
    have secondMember : (runsOf samples)[place + 1] ∈ runsOf samples := List.getElem_mem _
    obtain ⟨firstNonempty, secondNonempty, differ⟩ := breaks place inside
    generalize (runsOf samples)[place] = first at *
    generalize (runsOf samples)[place + 1] = second at *
    have lastMember := List.getLast_mem firstNonempty
    have headMember := List.head_mem secondNonempty
    have before : (first.getLast firstNonempty).Before (second.head secondNonempty) :=
      have ⟨inOrder, ids⟩ := neighbours _ lastMember _ headMember
      Sample.before_of_not_ties inOrder ids (ne_true_of_eq_false differ)
    refine ⟨firstNonempty, secondNonempty, fun left leftMember right rightMember => ?_⟩
    have fromLeft : left.Before (second.head secondNonempty) := by
      rcases eq_or_ties_of_mem_run firstMember leftMember lastMember with same | ties
      · exact same ▸ before
      · exact ties.trans_before before
    rcases eq_or_ties_of_mem_run secondMember headMember rightMember with same | ties
    · exact same ▸ fromLeft
    · exact fromLeft.trans_ties ties
  exact chain.pairwise

/-- Within a run of a sorted list without repetition the ids ascend. -/
theorem pairwise_index_of_mem_runsOf
    (sorted : samples.Pairwise fun left right => right.precedes left = false)
    (distinct : (samples.map Sample.index).Nodup) (member : run ∈ runsOf samples) :
    (run.map Sample.index).Pairwise (· < ·) := by
  have sublist := sublist_of_mem_runsOf member
  have distinctRun : run.Pairwise fun left right => left.index ≠ right.index :=
    List.pairwise_map.mp (distinct.sublist (sublist.map Sample.index))
  rw [List.pairwise_map]
  have ties := pairwise_ties_of_mem_runsOf member
  refine ((sorted.sublist sublist).and (distinctRun.and ties)).imp ?_
  intro left right ⟨ordered, differ, same⟩
  have tied := Ordered.eq_iff.mp same
  have notBefore : Scalar.precedes left.value right.value = false := by
    simp [Scalar.precedes, tied.2.1, tied.2.2.1]
  simp only [Sample.precedes, notBefore, Bool.or_eq_false_iff, Bool.not_false, Bool.true_and,
    decide_eq_false_iff_not] at ordered
  omega

omit [Ordered α] in
theorem value_ofSamples (nonempty : run ≠ []) (labelCount : Nat) :
    (Entry.ofSamples labelCount run).value = (run.head nonempty).value := by
  simp [Entry.ofSamples, List.head?_eq_some_head nonempty]

/-- The entries of runs stand in the order of the runs. -/
theorem before_ofSamples {first second : List (Sample α)} (firstMember : first ∈ runsOf samples)
    (secondMember : second ∈ runsOf samples) (before : RunBefore first second)
    (labelCount : Nat) :
    (Entry.ofSamples labelCount first).Before (Entry.ofSamples labelCount second) := by
  obtain ⟨firstNonempty, secondNonempty, earlier⟩ := before
  have firstHead := List.head_mem firstNonempty
  have secondHead := List.head_mem secondNonempty
  rw [Entry.Before, value_ofSamples firstNonempty, value_ofSamples secondNonempty]
  refine (earlier _ firstHead _ secondHead).imp_right fun ⟨firstNot, secondNot, less⟩ => ?_
  refine ⟨firstNot, secondNot, ?_⟩
  rw [eq_singleton_of_mem_run firstMember firstHead firstNot,
    eq_singleton_of_mem_run secondMember secondHead secondNot]
  simpa [Entry.ofSamples] using less

/-- A sample has the value of the entry of its run, or is no number and makes the entry alone. -/
theorem eq_value_ofSamples (member : run ∈ runsOf samples) {sample : Sample α}
    (sampled : sample ∈ run) (labelCount : Nat) :
    Scalar.eq sample.value (Entry.ofSamples labelCount run).value = true ∨
      Scalar.isNumber sample.value = false ∧
        (Entry.ofSamples labelCount run).indices = [sample.index] := by
  have nonempty := List.ne_nil_of_mem sampled
  rw [value_ofSamples nonempty]
  cases number : Scalar.isNumber sample.value with
  | true =>
      left
      rcases eq_or_ties_of_mem_run member sampled (List.head_mem nonempty) with isHead | ties
      · rw [← isHead]
        exact number
      · exact ties
  | false =>
      have alone := eq_singleton_of_mem_run member sampled number
      exact .inr ⟨rfl, by simp [Entry.ofSamples, alone]⟩

omit [Ordered α] in
/-- The entry of samples adds up their weights. -/
theorem counted_ofSamples {targets : Targets α}
    (shared : ∀ sample ∈ run, targets.share? sample.index = some (sample.label, sample.weight)) :
    (Entry.ofSamples targets.labelCount run).Counted targets := by
  refine ⟨run.map fun sample : Sample α => (sample.label, sample.weight), ?_,
    Histogram.tally_eq_map _ _⟩
  rw [Outcome.mapM_eq_some, Entry.ofSamples, List.map_map, List.map_map]
  exact List.map_congr_left shared

end Runs

section Samples

variable {targets : Targets α} {observations : List (Observation α)} {samples : List (Sample α)}

omit [Scalar α] in
/-- A sample adds the share of its example to an observation. -/
theorem Targets.sample?_eq (targets : Targets α) (observation : Observation α) :
    targets.sample? observation = (targets.share? observation.index).map fun share =>
      { value := observation.value, index := observation.index, label := share.1,
        weight := share.2 } := by
  unfold sample? share?
  cases targets.item? observation.index with
  | none => rfl
  | some item =>
      simp only [Option.bind_eq_bind, Option.bind_some]
      cases Position.resolve targets.labelCount item.1 <;> rfl

omit [Scalar α] in
theorem Targets.share?_of_sample? {observation : Observation α} {sample : Sample α}
    (found : targets.sample? observation = some sample) :
    sample.value = observation.value ∧ sample.index = observation.index ∧
      targets.share? sample.index = some (sample.label, sample.weight) := by
  rw [Targets.sample?_eq, Option.map_eq_some_iff] at found
  obtain ⟨share, shared, rfl⟩ := found
  exact ⟨rfl, rfl, shared⟩

omit [Scalar α] in
/-- Looking up the shares of observations keeps their ids. -/
theorem indices_of_mapM_sample? (found : observations.mapM targets.sample? = some samples) :
    samples.map Sample.index = observations.map Observation.index := by
  have paired := Outcome.mapM_eq_some.mp found
  refine List.ext_getElem? fun place => ?_
  have same := congrArg (·[place]?) paired
  simp only [List.getElem?_map] at same ⊢
  cases observed : observations[place]? with
  | none => simpa [observed] using same
  | some observation =>
      cases sampled : samples[place]? with
      | none => simp [observed, sampled] at same
      | some sample =>
          simp only [observed, sampled, Option.map_some, Option.some.injEq] at same ⊢
          exact (Targets.share?_of_sample? same).2.1

omit [Scalar α] in
/-- Every sample is looked up for an observation. -/
theorem exists_observation_of_mem (found : observations.mapM targets.sample? = some samples)
    {sample : Sample α} (member : sample ∈ samples) :
    ∃ observation ∈ observations, targets.sample? observation = some sample := by
  have listed : some sample ∈ samples.map some := List.mem_map_of_mem member
  rw [← Outcome.mapM_eq_some.mp found] at listed
  exact List.mem_map.mp listed

omit [Scalar α] in
/-- An example that is observed once has the observed value in its sample. -/
theorem value_eq_of_index_eq (found : observations.mapM targets.sample? = some samples)
    (distinct : (observations.map Observation.index).Nodup) {sample : Sample α}
    (member : sample ∈ samples) {observation : Observation α}
    (observed : observation ∈ observations)
    (same : sample.index = observation.index) : sample.value = observation.value := by
  obtain ⟨own, ownObserved, ownFound⟩ := exists_observation_of_mem found member
  obtain ⟨valueEq, indexEq, -⟩ := Targets.share?_of_sample? ownFound
  have once : own = observation :=
    List.inj_on_of_nodup_map distinct ownObserved observed (indexEq.symm.trans same)
  rw [valueEq, once]

variable [Ordered α]

/-- The entries of the runs of sorted samples group the observations that they were made of. -/
theorem groups_runsOf (found : observations.mapM targets.sample? = some samples)
    (distinct : (observations.map Observation.index).Nodup) :
    Groups targets observations ((runsOf (Sorting.sort Sample.inOrder samples)).map
      (Entry.ofSamples targets.labelCount)) := by
  let sorted := Sorting.sort Sample.inOrder samples
  have perm : sorted.Perm samples := Sorting.perm_sort _ _
  have indices : (sorted.map Sample.index).Perm (observations.map Observation.index) :=
    indices_of_mapM_sample? found ▸ perm.map Sample.index
  have inOrder := Sample.pairwise_sort_inOrder samples
  have distinctSorted := indices.nodup_iff.mpr distinct
  have nonempty : ∀ run ∈ runsOf sorted, run ≠ [] :=
    fun run member => List.ne_nil_of_mem_splitBy member
  have isSample : ∀ run ∈ runsOf sorted, ∀ sample ∈ run, sample ∈ samples :=
    fun run member sample sampled =>
      perm.mem_iff.mp ((sublist_of_mem_runsOf member).subset sampled)
  refine { ascending := ?_, nonempty := ?_, sorted := ?_, once := ?_, equal := ?_, lowest := ?_,
           counted := ?_ }
  · rw [List.pairwise_map]
    exact (pairwise_runBefore_runsOf inOrder distinctSorted).imp_of_mem
      fun firstMember secondMember before => before_ofSamples firstMember secondMember before _
  · exact List.forall_mem_map.mpr fun run member => by
      simpa [Entry.ofSamples] using nonempty run member
  · exact List.forall_mem_map.mpr fun run member =>
      pairwise_index_of_mem_runsOf inOrder distinctSorted member
  · rw [indices_runsOf]
    exact indices
  · refine List.forall_mem_map.mpr fun run member observation observed held => ?_
    obtain ⟨sample, sampled, same⟩ := List.mem_map.mp held
    rw [← same, ← value_eq_of_index_eq found distinct (isSample run member sample sampled)
      observed same]
    exact eq_value_ofSamples member sampled _
  · refine List.forall_mem_map.mpr fun run member observation observed first => ?_
    have head := List.head_mem (nonempty run member)
    have same : (run.head (nonempty run member)).index = observation.index := by
      simpa [Entry.ofSamples, List.head?_eq_some_head (nonempty run member)] using first
    rw [value_ofSamples (nonempty run member),
      value_eq_of_index_eq found distinct (isSample run member _ head) observed same]
  · refine List.forall_mem_map.mpr fun run member => counted_ofSamples fun sample sampled => ?_
    obtain ⟨observation, -, ownFound⟩ :=
      exists_observation_of_mem found (isSample run member sample sampled)
    exact (Targets.share?_of_sample? ownFound).2.2

end Samples

/-- Observations that can be compacted: numbers, of different examples whose labels and weights
are known. -/
structure Acceptable (targets : Targets α) (observations : List (Observation α)) : Prop where
  numbers : ∀ observation ∈ observations, Scalar.isNumber observation.value = true
  distinct : (observations.map Observation.index).Nodup
  knows : ∀ observation ∈ observations, targets.Knows observation.index

namespace Column

variable {targets : Targets α} {observations : List (Observation α)} {entries : List (Entry α)}
variable {column : Column α} {count : Nat} {value : Int → α} {indices : List Int}

/-- Observations that name an example twice are not grouped. -/
theorem group_of_not_nodup (repeated : ¬ (observations.map Observation.index).Nodup) :
    column.group observations = .error (.observedTwice column.feature) :=
  if_pos repeated

/-- An example whose share is not found is not grouped. -/
theorem group_of_share?_eq_none (distinct : (observations.map Observation.index).Nodup)
    (unknown : ∃ observation ∈ observations, column.targets.share? observation.index = none) :
    column.group observations = .error .outOfRange := by
  have missing : observations.mapM column.targets.sample? = none := by
    obtain ⟨observation, observed, noShare⟩ := unknown
    refine Outcome.mapM_eq_none.mpr ⟨observation, observed, ?_⟩
    rw [Targets.sample?_eq, noShare, Option.map_none]
  rw [group, if_neg (not_not.mpr distinct), missing]

variable [Ordered α]

/-- Observations of different examples whose shares are found are grouped. -/
theorem exists_group (column : Column α) (distinct : (observations.map Observation.index).Nodup)
    (shared : ∀ observation ∈ observations, column.targets.share? observation.index ≠ none) :
    ∃ entries, column.group observations = .ok entries ∧
      Groups column.targets observations entries := by
  cases found : observations.mapM column.targets.sample? with
  | none =>
      obtain ⟨observation, observed, missing⟩ := Outcome.mapM_eq_none.mp found
      rw [Targets.sample?_eq, Option.map_eq_none_iff] at missing
      exact absurd missing (shared observation observed)
  | some samples =>
      refine ⟨_, ?_, groups_runsOf found distinct⟩
      rw [group, if_neg (not_not.mpr distinct), found]
      rfl

/-- What compaction makes of observations are the entries that group them. -/
theorem group_eq_ok_iff :
    column.group observations = .ok entries ↔
      (observations.map Observation.index).Nodup ∧ Groups column.targets observations entries := by
  constructor
  · intro grouped
    have distinct : (observations.map Observation.index).Nodup := by
      by_contra repeated
      rw [group_of_not_nodup repeated] at grouped
      cases grouped
    have shared : ∀ observation ∈ observations,
        column.targets.share? observation.index ≠ none := by
      intro observation observed unknown
      rw [group_of_share?_eq_none distinct ⟨observation, observed, unknown⟩] at grouped
      cases grouped
    obtain ⟨made, madeEq, groups⟩ := column.exists_group distinct shared
    obtain rfl := Except.ok.inj (madeEq.symm.trans grouped)
    exact ⟨distinct, groups⟩
  · rintro ⟨distinct, groups⟩
    obtain ⟨made, madeEq, madeGroups⟩ :=
      column.exists_group distinct fun _ observed => groups.share?_ne_none observed
    rw [madeEq, madeGroups.unique groups distinct (.refl _)]

/-- The column that compaction makes of observations describes them. -/
theorem compact_describes (observing : Column α) (same : observing.targets = targets)
    (fresh : observing.pending = [] → observing.entries = [])
    (acceptable : Acceptable targets observing.pending.flatten)
    (agrees : Agrees value observing.pending.flatten) :
    ∃ column, observing.compact = (column, none) ∧ column.feature = observing.feature ∧
      column.Describes targets value (observing.pending.flatten.map Observation.index) := by
  unfold compact
  split
  next none =>
    refine ⟨observing, rfl, rfl, same, none, ?_, ?_, ?_, ?_⟩ <;>
      simp [fresh none, none, Column.indices]
  next =>
    subst same
    obtain ⟨entries, grouped, groups⟩ := observing.exists_group acceptable.distinct
      fun observation observed => by simp [(acceptable.knows observation observed).share?_eq]
    rw [grouped]
    exact ⟨_, rfl, rfl,
      groups.describes agrees acceptable.numbers acceptable.knows observing.feature⟩

/-- A column of observations of distinct known examples describes these examples. -/
theorem ofObservations_describes (known : targets.Known count)
    (inRange : Targets.InRange count indices) (distinct : indices.Nodup)
    (numbers : ∀ index ∈ indices, Scalar.isNumber (value index) = true) (feature : Int) :
    ∃ column : Column α,
      ofObservations feature targets (indices.map value) indices = .ok column ∧
        column.feature = feature ∧ column.Describes targets value indices := by
  let observations : List (Observation α) :=
    indices.map fun index => { value := value index, index }
  let observing : Column α := { Column.empty feature targets with pending := [observations] }
  have observed :
      (Column.empty feature targets).observeMany (indices.map value) indices = .ok observing := by
    rw [observeMany, if_neg (by simp), List.zipWith_map_left, List.zipWith_self]
    rfl
  have flat : observing.pending.flatten = observations := List.flatten_singleton
  have whole : observations.map Observation.index = indices := by
    rw [List.map_map]
    exact List.map_id indices
  have acceptable : Acceptable targets observations :=
    ⟨List.forall_mem_map.mpr numbers, whole ▸ distinct,
      List.forall_mem_map.mpr (known.knows inRange)⟩
  have agrees : Agrees value observations := List.forall_mem_map.mpr fun _ _ => rfl
  rw [← flat] at acceptable agrees
  obtain ⟨column, compacted, sameFeature, describes⟩ :=
    compact_describes observing rfl (fun _ => rfl) acceptable agrees
  refine ⟨column, ?_, sameFeature, ?_⟩
  · rw [ofObservations, observed]
    simp only [bind, Except.bind, compacted]
    rfl
  · rwa [flat, whole] at describes

end Column

end DecisionTree
