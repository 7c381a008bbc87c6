import DecisionTree.Proofs.Binary64.Order
import DecisionTree.Proofs.Column.Compaction
import Mathlib.Data.Multiset.AddSub

/-!
# Columns over sequences of calls

Calls on a column note observations, one by one or many at a time, or compact what was noted.
`Column.run` performs calls one after the other; a call that fails reports its error, and the calls
after it go on with the column as it is left.

What was noted is all that compaction looks at: neither the order nor the chunks in which
observations arrive change the entries (`Column.compaction_ignores_arrival`).  So a column behaves
like a `Journal`, which holds entries and a collection of observations and knows of no chunks
(`Column.run_iff_journal`).

A journal has to tell whether anything was noted at all.  Noting no observations is not the same as
noting nothing: the next compaction groups no observations, and the entries are gone
(`Column.emptied_by_empty_batch`).
-/

namespace DecisionTree

open Scalar (Ordered)

variable {α : Type}

/-- A call on a column. -/
inductive Call (α : Type) where
  | observe (value : α) (index : Int)
  | observeMany (values : List α) (indices : List Int)
  | compact

/-- Values and ids side by side. -/
def Observation.pairs (values : List α) (indices : List Int) : List (Observation α) :=
  List.zipWith (fun value index => { value, index }) values indices

/-- The observations that a call notes.  Values and ids that differ in number are refused. -/
def Call.noted : Call α → List (Observation α)
  | observe value index => [{ value, index }]
  | observeMany values indices =>
      if values.length = indices.length then Observation.pairs values indices else []
  | compact => []

/-- What calls can tell of a column: its entries, and the observations that were noted since the
last compaction, if a call has noted any number of them. -/
structure Journal (α : Type) where
  entries : List (Entry α)
  noted : Option (Multiset (Observation α))

/-- A journal with further observations. -/
def Journal.note (journal : Journal α) (observations : List (Observation α)) : Journal α :=
  { journal with noted := some (journal.noted.getD 0 + observations) }

namespace Column

variable {column : Column α}

/-- A column with a further chunk of observations. -/
def note (column : Column α) (observations : List (Observation α)) : Column α :=
  { column with pending := column.pending ++ [observations] }

/-- The journal of a column, which forgets the order and the chunks of what is pending. -/
def journal (column : Column α) : Journal α where
  entries := column.entries
  noted :=
    match column.pending with
    | [] => none
    | chunks => some ↑chunks.flatten

theorem noted_of_pending_eq_nil (nothing : column.pending = []) : column.journal.noted = none := by
  rw [journal, nothing]

theorem noted_of_pending_ne_nil (chunks : column.pending ≠ []) :
    column.journal.noted = some ↑column.pending.flatten := by
  unfold journal
  split
  next nothing => exact absurd nothing chunks
  next => rfl

theorem pending_eq_nil_of_noted (nothing : column.journal.noted = none) : column.pending = [] := by
  by_contra chunks
  rw [noted_of_pending_ne_nil chunks] at nothing
  cases nothing

theorem perm_of_noted {observations : List (Observation α)}
    (noted : column.journal.noted = some ↑observations) :
    column.pending ≠ [] ∧ column.pending.flatten.Perm observations := by
  by_cases nothing : column.pending = []
  · rw [noted_of_pending_eq_nil nothing] at noted
    cases noted
  · rw [noted_of_pending_ne_nil nothing, Option.some.injEq, Multiset.coe_eq_coe] at noted
    exact ⟨nothing, noted⟩

theorem journal_note (column : Column α) (observations : List (Observation α)) :
    (column.note observations).journal = column.journal.note observations := by
  cases pending : column.pending with
  | nil => simp [journal, note, Journal.note, pending]
  | cons chunk chunks => simp [journal, note, Journal.note, pending]

end Column

variable [Scalar α]

namespace Journal

/-- What a call makes of a journal, and the error that it reports. -/
inductive Step (targets : Targets α) (feature : Int) :
    Journal α → Call α → Option Error → Journal α → Prop
  | observe (journal : Journal α) (value : α) (index : Int) :
      Step targets feature journal (.observe value index) none (journal.note [{ value, index }])
  | observeMany (journal : Journal α) {values : List α} {indices : List Int}
      (paired : values.length = indices.length) :
      Step targets feature journal (.observeMany values indices) none
        (journal.note (Observation.pairs values indices))
  | unpaired (journal : Journal α) {values : List α} {indices : List Int}
      (differ : values.length ≠ indices.length) :
      Step targets feature journal (.observeMany values indices) (some .observationCountsDiffer)
        journal
  /-- Nothing was noted, and the entries stay. -/
  | idle {journal : Journal α} (nothing : journal.noted = none) :
      Step targets feature journal .compact none journal
  /-- What was noted is grouped, and its groups take the place of the entries. -/
  | grouped {journal : Journal α} {observations : List (Observation α)} {entries : List (Entry α)}
      (noted : journal.noted = some ↑observations)
      (distinct : (observations.map Observation.index).Nodup)
      (groups : Groups targets observations entries) :
      Step targets feature journal .compact none { entries, noted := none }
  /-- An example was observed twice, and the entries stay. -/
  | repeated {journal : Journal α} {observations : List (Observation α)}
      (noted : journal.noted = some ↑observations)
      (repeated : ¬ (observations.map Observation.index).Nodup) :
      Step targets feature journal .compact (some (.observedTwice feature))
        { journal with noted := none }
  /-- The label or the weight of an example is not found, and the entries stay. -/
  | unknown {journal : Journal α} {observations : List (Observation α)}
      (noted : journal.noted = some ↑observations)
      (distinct : (observations.map Observation.index).Nodup)
      (unknown : ∃ observation ∈ observations, targets.share? observation.index = none) :
      Step targets feature journal .compact (some .outOfRange) { journal with noted := none }

/-- What calls make of a journal one after the other, and what they report. -/
inductive Run (targets : Targets α) (feature : Int) :
    Journal α → List (Call α) → List (Option Error) → Journal α → Prop
  | nil (journal : Journal α) : Run targets feature journal [] [] journal
  | cons {first next last : Journal α} {call : Call α} {calls : List (Call α)}
      {error : Option Error} {errors : List (Option Error)}
      (step : Step targets feature first call error next)
      (rest : Run targets feature next calls errors last) :
      Run targets feature first (call :: calls) (error :: errors) last

end Journal

namespace Column

variable {column : Column α} {observations : List (Observation α)} {calls others : List (Call α)}
variable {call : Call α} {error : Option Error} {errors : List (Option Error)}
variable {before after : Journal α}

/-- The column after a call, and the error that the call reports. -/
def perform (column : Column α) : Call α → Column α × Option Error
  | .observe value index => (column.observe value index, none)
  | .observeMany values indices =>
      match column.observeMany values indices with
      | .ok noted => (noted, none)
      | .error error => (column, some error)
  | .compact => column.compact

/-- The column after calls, and what they report. -/
def run (column : Column α) : List (Call α) → Column α × List (Option Error)
  | [] => (column, [])
  | call :: rest =>
      let (next, error) := column.perform call
      let (last, errors) := next.run rest
      (last, error :: errors)

theorem perform_observeMany (column : Column α) {values : List α} {indices : List Int}
    (paired : values.length = indices.length) :
    column.perform (.observeMany values indices) =
      (column.note (Observation.pairs values indices), none) := by
  rw [perform, observeMany, if_neg (not_not.mpr paired)]
  rfl

theorem perform_unpaired (column : Column α) {values : List α} {indices : List Int}
    (differ : values.length ≠ indices.length) :
    column.perform (.observeMany values indices) = (column, some .observationCountsDiffer) := by
  rw [perform, observeMany, if_pos differ]

theorem compact_of_pending_eq_nil (nothing : column.pending = []) :
    column.compact = (column, none) := by
  rw [compact, nothing]

theorem compact_of_pending_ne_nil (chunks : column.pending ≠ []) :
    column.compact = match column.group column.pending.flatten with
      | .ok entries => ({ column with entries, pending := [] }, none)
      | .error error => ({ column with pending := [] }, some error) := by
  unfold compact
  split
  next nothing => exact absurd nothing chunks
  next => rfl

@[simp] theorem run_nil (column : Column α) : column.run [] = (column, []) :=
  rfl

@[simp] theorem run_cons (column : Column α) (call : Call α) (calls : List (Call α)) :
    column.run (call :: calls) =
      (((column.perform call).1.run calls).1,
        (column.perform call).2 :: ((column.perform call).1.run calls).2) :=
  rfl

theorem run_append (column : Column α) (calls others : List (Call α)) :
    column.run (calls ++ others) =
      (((column.run calls).1.run others).1,
        (column.run calls).2 ++ ((column.run calls).1.run others).2) := by
  induction calls generalizing column with
  | nil => rfl
  | cons call rest ih => simp [ih]

/-- A call that notes observations adds them to what is pending. -/
theorem exists_perform_eq (column : Column α) (notes : call ≠ .compact) :
    ∃ chunks, (column.perform call).1 = { column with pending := column.pending ++ chunks } ∧
      chunks.flatten = call.noted := by
  cases call with
  | observe value index => exact ⟨[[⟨value, index⟩]], rfl, rfl⟩
  | observeMany values indices =>
      by_cases paired : values.length = indices.length
      · refine ⟨[Observation.pairs values indices], ?_, ?_⟩
        · rw [perform_observeMany column paired, note]
        · rw [Call.noted, if_pos paired, List.flatten_singleton]
      · refine ⟨[], ?_, ?_⟩
        · rw [perform_unpaired column paired, List.append_nil]
        · rw [Call.noted, if_neg paired, List.flatten_nil]
  | compact => exact absurd rfl notes

/-- Calls that note observations add all of them to what is pending. -/
theorem exists_run_eq (column : Column α) (notes : ∀ call ∈ calls, call ≠ .compact) :
    ∃ chunks, (column.run calls).1 = { column with pending := column.pending ++ chunks } ∧
      chunks.flatten = calls.flatMap Call.noted := by
  induction calls generalizing column with
  | nil => exact ⟨[], by simp, rfl⟩
  | cons call rest ih =>
      obtain ⟨chunks, performed, noted⟩ := column.exists_perform_eq (notes call List.mem_cons_self)
      obtain ⟨later, ran, laterNoted⟩ := ih (column.perform call).1
        fun other member => notes other (List.mem_cons_of_mem _ member)
      refine ⟨chunks ++ later, ?_, ?_⟩
      · rw [run_cons, ran, performed, List.append_assoc]
      · rw [List.flatten_append, noted, laterNoted, List.flatMap_cons]

/-- Nothing is pending after a compaction, whatever came of it. -/
theorem pending_compact (column : Column α) : column.compact.1.pending = [] := by
  unfold compact
  split
  next nothing => exact nothing
  next => split <;> rfl

/-- Calls change neither the examples of a column nor its feature. -/
theorem perform_fixed (column : Column α) (call : Call α) :
    (column.perform call).1.targets = column.targets ∧
      (column.perform call).1.feature = column.feature := by
  cases call with
  | observe value index => exact ⟨rfl, rfl⟩
  | observeMany values indices =>
      by_cases paired : values.length = indices.length
      · rw [perform_observeMany column paired]
        exact ⟨rfl, rfl⟩
      · rw [perform_unpaired column paired]
        exact ⟨rfl, rfl⟩
  | compact =>
      rw [perform, compact]
      split
      · exact ⟨rfl, rfl⟩
      · split <;> exact ⟨rfl, rfl⟩

variable [Ordered α]

/-- Calls that note different examples whose shares are found can be compacted. -/
theorem exists_compact_eq (column : Column α) (idle : column.pending = [])
    (notes : ∀ call ∈ calls, call ≠ .compact)
    (arrived : (calls.flatMap Call.noted).Perm observations) (nonempty : observations ≠ [])
    (distinct : (observations.map Observation.index).Nodup)
    (shared : ∀ observation ∈ observations, column.targets.share? observation.index ≠ none) :
    ∃ entries, (column.run calls).1.compact = ({ column with entries, pending := [] }, none) ∧
      Groups column.targets observations entries := by
  obtain ⟨chunks, ran, flat⟩ := column.exists_run_eq notes
  rw [idle, List.nil_append] at ran
  have perm : chunks.flatten.Perm observations := flat ▸ arrived
  obtain ⟨entries, grouped, groups⟩ := (column.run calls).1.exists_group
    ((perm.map _).nodup_iff.mpr distinct)
    fun observation observed => by rw [ran]; exact shared observation (perm.mem_iff.mp observed)
  have chunked : chunks ≠ [] := by
    rintro rfl
    exact nonempty (List.nil_perm.mp perm)
  rw [ran] at grouped groups
  refine ⟨entries, ?_, groups.congr perm⟩
  rw [ran, compact_of_pending_ne_nil chunked, grouped]

/-- Compaction does not depend on how or in which order observations arrived: two columns of the
same examples that were told the same, one by one or many at a time, get the same entries, which
group what they were told. -/
theorem compaction_ignores_arrival (first second : Column α) (calls others : List (Call α))
    (same : second.targets = first.targets)
    (idle : first.pending = []) (idleToo : second.pending = [])
    (notes : ∀ call ∈ calls ++ others, call ≠ .compact)
    (arrived : (calls.flatMap Call.noted).Perm observations)
    (arrivedToo : (others.flatMap Call.noted).Perm observations)
    (nonempty : observations ≠ [])
    (distinct : (observations.map Observation.index).Nodup)
    (shared : ∀ observation ∈ observations, first.targets.share? observation.index ≠ none) :
    ∃ entries,
      (first.run calls).1.compact = ({ first with entries, pending := [] }, none) ∧
      (second.run others).1.compact = ({ second with entries, pending := [] }, none) ∧
      Groups first.targets observations entries := by
  obtain ⟨firstNotes, secondNotes⟩ := List.forall_mem_append.mp notes
  obtain ⟨entries, compacted, groups⟩ :=
    first.exists_compact_eq idle firstNotes arrived nonempty distinct shared
  obtain ⟨twins, twinCompacted, twinGroups⟩ :=
    second.exists_compact_eq idleToo secondNotes arrivedToo nonempty distinct (same ▸ shared)
  rw [same] at twinGroups
  obtain rfl := groups.unique twinGroups distinct (.refl _)
  exact ⟨entries, compacted, twinCompacted, groups⟩

/-- Four weighted examples with two labels. -/
def Sample.tableau : Targets Float where
  labels := #[0, 1, 0, 1]
  weights := #[0.5, 0.25, 2, 0.1]
  labelCount := 2

/-- A column with an entry from earlier work. -/
def Sample.filled : Column Float :=
  { Column.empty 0 tableau with entries := [⟨7, [1], [0, 0.25]⟩] }

/-- The values of four examples, among them zeros of either sign and a value that is no number. -/
def Sample.facts : List (Observation Float) :=
  [⟨-0.0, 0⟩, ⟨1.5, 1⟩, ⟨0.0, 2⟩, ⟨0.0 / 0.0, 3⟩]

/-- The observations one at a time or two, the last ones first, with an empty batch between them. -/
def Sample.piecemeal : List (Call Float) :=
  [.observeMany [0.0 / 0.0, 0.0] [3, 2], .observe 1.5 1, .observeMany [] [], .observe (-0.0) 0]

/-- All observations at once, after a batch that is refused. -/
def Sample.wholesale : List (Call Float) :=
  [.observeMany [1.5] [], .observeMany [-0.0, 1.5, 0.0, 0.0 / 0.0] [0, 1, 2, 3]]

/-- The zeros share an entry, which keeps the negative zero of example 0. -/
theorem compaction_ignores_arrival_sample :
    ∃ entries,
      (Sample.filled.run Sample.piecemeal).1.compact =
        ({ Sample.filled with entries, pending := [] }, none) ∧
      ((Column.empty 1 Sample.tableau).run Sample.wholesale).1.compact =
        ({ Column.empty 1 Sample.tableau with entries, pending := [] }, none) ∧
      entries.map Entry.indices = [[0, 2], [1], [3]] ∧
      entries.head?.map (fun entry => entry.value.toBits) = some 0x8000000000000000 := by
  have known : Sample.tableau.Known 4 := ⟨rfl, rfl, by decide⟩
  have inRange : Targets.InRange 4 (Sample.facts.map Observation.index) := by
    unfold Targets.InRange
    decide
  have shared : ∀ observation ∈ Sample.facts,
      Sample.filled.targets.share? observation.index ≠ none := by
    intro observation member
    have found := (known.knows inRange _ (List.mem_map_of_mem member)).share?_eq
    exact fun missing => by cases missing.symm.trans found
  obtain ⟨entries, compacted, twinCompacted, -⟩ :=
    compaction_ignores_arrival Sample.filled (.empty 1 Sample.tableau) Sample.piecemeal
      Sample.wholesale rfl rfl rfl (by simp [Sample.piecemeal, Sample.wholesale])
      (List.reverse_perm Sample.facts) (.refl Sample.facts) (by simp [Sample.facts]) (by decide)
      shared
  have made : (Sample.filled.run Sample.piecemeal).1.compact.1.entries = entries :=
    congrArg (fun result => result.1.entries) compacted
  refine ⟨entries, compacted, twinCompacted, ?_, ?_⟩
  · rw [← made]
    decide +kernel
  · rw [← made]
    decide +kernel

/-- What a call makes of the journal of a column it makes of the column. -/
theorem perform_of_step
    (step : Journal.Step column.targets column.feature column.journal call error after) :
    ∃ next, column.perform call = (next, error) ∧ next.journal = after := by
  generalize kept : column.journal = before at step
  cases step with
  | observe value index => exact ⟨_, rfl, kept ▸ column.journal_note _⟩
  | observeMany paired => exact ⟨_, column.perform_observeMany paired, kept ▸ column.journal_note _⟩
  | unpaired differ => exact ⟨_, column.perform_unpaired differ, kept⟩
  | idle nothing =>
      exact ⟨_, compact_of_pending_eq_nil (pending_eq_nil_of_noted (kept ▸ nothing)), kept⟩
  | @grouped _ entries noted distinct groups =>
      obtain ⟨chunks, perm⟩ := perm_of_noted (kept ▸ noted)
      have grouped : column.group column.pending.flatten = .ok entries :=
        group_eq_ok_iff.mpr ⟨(perm.map _).nodup_iff.mpr distinct, groups.congr perm.symm⟩
      refine ⟨{ column with entries, pending := [] }, ?_, rfl⟩
      rw [perform, compact_of_pending_ne_nil chunks, grouped]
  | repeated noted repeated =>
      obtain ⟨chunks, perm⟩ := perm_of_noted (kept ▸ noted)
      have refused : column.group column.pending.flatten = .error (.observedTwice column.feature) :=
        group_of_not_nodup fun distinct => repeated ((perm.map _).nodup_iff.mp distinct)
      refine ⟨{ column with pending := [] }, ?_, kept ▸ rfl⟩
      rw [perform, compact_of_pending_ne_nil chunks, refused]
  | unknown noted distinct unknown =>
      obtain ⟨chunks, perm⟩ := perm_of_noted (kept ▸ noted)
      obtain ⟨observation, observed, missing⟩ := unknown
      have refused : column.group column.pending.flatten = .error .outOfRange :=
        group_of_share?_eq_none ((perm.map _).nodup_iff.mpr distinct)
          ⟨observation, perm.mem_iff.mpr observed, missing⟩
      refine ⟨{ column with pending := [] }, ?_, kept ▸ rfl⟩
      rw [perform, compact_of_pending_ne_nil chunks, refused]

/-- A journal has a step for every call. -/
theorem exists_step (column : Column α) (call : Call α) :
    ∃ error after,
      Journal.Step column.targets column.feature column.journal call error after := by
  cases call with
  | observe value index => exact ⟨_, _, .observe _ value index⟩
  | observeMany values indices =>
      by_cases paired : values.length = indices.length
      · exact ⟨_, _, .observeMany _ paired⟩
      · exact ⟨_, _, .unpaired _ paired⟩
  | compact =>
      by_cases nothing : column.pending = []
      · exact ⟨_, _, .idle (noted_of_pending_eq_nil nothing)⟩
      have noted := noted_of_pending_ne_nil nothing
      by_cases distinct : (column.pending.flatten.map Observation.index).Nodup
      · by_cases unknown : ∃ observation ∈ column.pending.flatten,
            column.targets.share? observation.index = none
        · exact ⟨_, _, .unknown noted distinct unknown⟩
        · obtain ⟨entries, -, groups⟩ := column.exists_group distinct
            fun observation observed missing => unknown ⟨observation, observed, missing⟩
          exact ⟨_, _, .grouped noted distinct groups⟩
      · exact ⟨_, _, .repeated noted distinct⟩

/-- The steps of the journal of a column are its calls. -/
theorem step_iff :
    Journal.Step column.targets column.feature column.journal call error after ↔
      (column.perform call).2 = error ∧ (column.perform call).1.journal = after := by
  constructor
  · intro step
    obtain ⟨next, performed, kept⟩ := perform_of_step step
    rw [performed]
    exact ⟨rfl, kept⟩
  · rintro ⟨rfl, rfl⟩
    obtain ⟨error, after, step⟩ := column.exists_step call
    obtain ⟨next, performed, rfl⟩ := perform_of_step step
    rwa [performed]

/-- The runs of the journal of a column are those of the column. -/
theorem run_iff (column : Column α) (calls : List (Call α)) (errors : List (Option Error))
    (after : Journal α) :
    Journal.Run column.targets column.feature column.journal calls errors after ↔
      (column.run calls).2 = errors ∧ (column.run calls).1.journal = after := by
  induction calls generalizing column errors with
  | nil =>
      rw [run_nil]
      constructor
      · rintro ⟨⟩
        exact ⟨rfl, rfl⟩
      · rintro ⟨rfl, rfl⟩
        exact .nil _
  | cons call rest ih =>
      have later := ih (column.perform call).1
      rw [(column.perform_fixed call).1, (column.perform_fixed call).2] at later
      rw [run_cons]
      constructor
      · rintro (_ | ⟨step, run⟩)
        obtain ⟨rfl, rfl⟩ := step_iff.mp step
        obtain ⟨rfl, kept⟩ := (later _).mp run
        exact ⟨rfl, kept⟩
      · rintro ⟨rfl, kept⟩
        exact .cons (step_iff.mpr ⟨rfl, rfl⟩) ((later _).mpr ⟨rfl, kept⟩)

/-- A column behaves like its journal over every sequence of calls, and nothing is pending after
a compaction, whatever came of it. -/
theorem run_iff_journal (column : Column α) (calls : List (Call α)) :
    (∀ errors after,
      Journal.Run column.targets column.feature column.journal calls errors after ↔
        (column.run calls).2 = errors ∧ (column.run calls).1.journal = after) ∧
      (column.run (calls ++ [.compact])).1.pending = [] := by
  refine ⟨column.run_iff calls, ?_⟩
  rw [run_append]
  exact pending_compact _

/-- Calls that compaction refuses twice: an example is observed with two values, and another one is
not known. -/
def Sample.mistaken : List (Call Float) :=
  [.observe 2 1, .observe 3 1, .compact, .compact, .observe 2 9, .compact]

/-- Two compactions fail and one has nothing to do, so the entry from earlier work stays. -/
theorem run_iff_journal_sample :
    ∃ after : Journal Float,
      Journal.Run Sample.tableau 0 Sample.filled.journal Sample.mistaken
        [none, none, some (.observedTwice 0), none, none, some .outOfRange] after ∧
      after = { entries := Sample.filled.entries, noted := none } ∧
      (Sample.filled.run (Sample.mistaken ++ [.compact])).1.pending = [] := by
  obtain ⟨runs, settled⟩ := Sample.filled.run_iff_journal Sample.mistaken
  exact ⟨_, (runs _ _).mpr ⟨rfl, rfl⟩, rfl, settled⟩

/-- A batch of no observations is enough to lose the entries. -/
theorem emptied_by_empty_batch :
    let column := ((Column.empty 0 Sample.tableau).run [.observe 1.0 0, .compact]).1
    let calls : List (Call Float) := [.observeMany [] []]
    column.pending = [] ∧ column.entries.map Entry.indices = [[0]] ∧
      calls.flatMap Call.noted = [] ∧
      (column.run (calls ++ [.compact])).2 = [none, none] ∧
      (column.run (calls ++ [.compact])).1.entries = [] := by
  refine ⟨rfl, ?_, rfl, ?_, ?_⟩
  · decide +kernel
  · rfl
  · rfl

end Column

end DecisionTree
