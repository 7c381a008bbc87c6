import DecisionTree.Classifier.Basic
import DecisionTree.Proofs.Binary64.Order
import DecisionTree.Proofs.Growth.Course
import DecisionTree.Proofs.Growth.Nodes

/-!
# Workspaces and workers leave no trace

The nodes of a growing forest are tidy, whatever the dataset, and what becomes of a tidy node when
it is searched and split does not depend on the workspace (`Node.exists_effect`).  So tasks have the
same effect wherever they are carried out: alone, or one after the other by any number of workers
(`Policy.effects_workOnWith`).  The growth of a forest depends on nothing else of what the workers
do (`runWith_eq`), and neither does a fitted tree (`workers_leave_no_trace`).
-/

namespace DecisionTree

namespace Growth

variable {α σ : Type} [Scalar α]

/-- The columns of a node are tidy, as long as it has any. -/
def Node.Tidy (node : Node α) : Prop :=
  ∀ columns, node.columns = some columns → ∀ column ∈ columns, column.Tidy

def Forest.Tidy (forest : Forest α) : Prop :=
  ∀ slot ∈ forest.slots, slot.node.Tidy

/-- All nodes that a split leaves behind are tidy. -/
def TidyEffect (effect : Node α × Except Error (List (Node α))) : Prop :=
  effect.1.Tidy ∧ ∀ children, effect.2 = .ok children → ∀ child ∈ children, child.Tidy

variable {policy : Policy α} {draws : Draws σ} {least : α} {workspace : Workspace}

/-! ## One task -/

namespace Node

variable {node : Node α} {columns : List (Column α)} {measure : Measure α}

omit [Scalar α] in
theorem tidy_of_released (released : node.columns = none) : node.Tidy := by
  intro columns impossible
  rw [released] at impossible
  cases impossible

theorem tidy_ofColumns (tidy : ∀ column ∈ columns, column.Tidy) (exampleCount depth : Nat) :
    (ofColumns measure columns exampleCount depth).Tidy := by
  intro others same
  obtain rfl := Option.some.inj same
  exact tidy

omit [Scalar α] in
theorem tidyEffect_of_error (tidy : node.Tidy) (error : Error) :
    TidyEffect (node, .error error) := by
  refine ⟨tidy, fun children impossible => ?_⟩
  cases impossible

omit [Scalar α] in
theorem tidyEffect_release (node : Node α) : TidyEffect (node.release, .ok []) := by
  refine ⟨tidy_of_released rfl, fun children same child member => ?_⟩
  obtain rfl := Except.ok.inj same
  cases member

theorem tidyEffect_divide (live : node.columns = some columns)
    (tidy : ∀ column ∈ columns, column.Tidy) (cut : Cut α) (below : List Int) :
    TidyEffect (node.divide measure columns cut below) := by
  rw [divide]
  split
  next error failed =>
    refine tidyEffect_of_error (fun others same => ?_) error
    obtain rfl := Option.some.inj (live.symm.trans same)
    exact tidy
  next lefts rights dealt =>
    obtain ⟨leftsTidy, rightsTidy⟩ := tidy_of_dealAll tidy dealt
    refine ⟨tidy_of_released rfl, fun children same child member => ?_⟩
    obtain rfl := Except.ok.inj same
    rcases List.mem_pair.mp member with rfl | rfl
    · exact tidy_ofColumns leftsTidy _ _
    · exact tidy_ofColumns rightsTidy _ _

/-- Carrying out a cut has one effect in all workspaces. -/
theorem exists_effect_splitBest (live : node.columns = some columns)
    (tidy : ∀ column ∈ columns, column.Tidy) (measure : Measure α) (best : Best α) (least : α) :
    ∃ effect, TidyEffect effect ∧ ∀ workspace : Workspace, workspace.marks.Clean →
      let outcome := node.splitBest measure columns best least workspace
      outcome.effect = effect ∧ outcome.workspace.marks.Clean := by
  have nodeTidy : node.Tidy := fun others same =>
    Option.some.inj (live.symm.trans same) ▸ tidy
  cases cutEq : best.cut with
  | none =>
      refine ⟨_, tidyEffect_release node, fun workspace clean => ?_⟩
      simp only [splitBest, cutEq]
      exact ⟨rfl, clean⟩
  | some cut =>
      by_cases enough : Scalar.le least (node.decrease best.score) = true
      · cases looked : Position.get? columns cut.feature with
        | none =>
            refine ⟨_, tidyEffect_of_error nodeTidy .outOfRange, fun workspace clean => ?_⟩
            simp only [splitBest, cutEq, enough, if_true, looked]
            exact ⟨rfl, clean⟩
        | some column =>
            have columnTidy := tidy column (Position.mem_of_get? looked)
            obtain ⟨below, ascending, perm⟩ := exists_ascending_perm
              (columnTidy.nodup.sublist (sublist_idsBelow column cut.threshold))
            refine ⟨node.divide measure columns cut below, tidyEffect_divide live tidy cut below,
              fun workspace clean => ?_⟩
            simp only [splitBest, cutEq, enough, if_true, looked]
            exact splitAt_spec tidy columnTidy ascending perm clean
      · refine ⟨_, tidyEffect_release node, fun workspace clean => ?_⟩
        simp only [splitBest, cutEq, enough]
        exact ⟨rfl, clean⟩

/-- Searching and splitting a tidy node has one effect in all workspaces whose table of marks is
clean, and leaves the table clean. -/
theorem exists_effect (tidy : node.Tidy) (splitter : Splitter) (measure : Measure α)
    (draws : Draws σ) (features : List Int) (source : σ) (least : α) :
    ∃ effect, TidyEffect effect ∧ ∀ workspace : Workspace, workspace.marks.Clean →
      let outcome := (node.split splitter measure draws features source least workspace).1
      outcome.effect = effect ∧ outcome.workspace.marks.Clean := by
  cases columnsEq : node.columns with
  | none =>
      refine ⟨_, tidyEffect_of_error tidy .alreadySearched, fun workspace clean => ?_⟩
      simp only [split, columnsEq]
      exact ⟨rfl, clean⟩
  | some columns =>
      cases searched : node.search splitter measure draws features source with
      | error error =>
          refine ⟨_, tidyEffect_of_error tidy error, fun workspace clean => ?_⟩
          simp only [split, columnsEq, searched]
          exact ⟨rfl, clean⟩
      | ok found =>
          simp only [split, columnsEq, searched]
          exact exists_effect_splitBest columnsEq (tidy columns columnsEq) measure found.1 least

end Node

/-- The effect of a task that is carried out alone. -/
def Task.effect (policy : Policy α) (draws : Draws σ) (least : α) (task : Task α σ) :
    Node α × Except Error (List (Node α)) :=
  (task.node.split policy.splitter policy.measure draws task.features task.source least
    .fresh).1.effect

/-- A task for a tidy node has the effect that it has alone, and leaves the table of marks clean. -/
theorem Task.effect_spec (policy : Policy α) (draws : Draws σ) (least : α) {task : Task α σ}
    (tidy : task.node.Tidy) :
    TidyEffect (task.effect policy draws least) ∧
      ∀ workspace : Workspace, workspace.marks.Clean →
        let outcome := (task.node.split policy.splitter policy.measure draws task.features
          task.source least workspace).1
        outcome.effect = task.effect policy draws least ∧ outcome.workspace.marks.Clean := by
  obtain ⟨effect, effectTidy, spec⟩ := task.node.exists_effect tidy policy.splitter policy.measure
    draws task.features task.source least
  have own : task.effect policy draws least = effect := (spec .fresh Policy.clean_fresh).1
  exact own.symm ▸ ⟨effectTidy, spec⟩

/-! ## One level -/

namespace Policy

/-- Shares the tasks of a level among the workers, each with a copy of a workspace. -/
def workOnWith (policy : Policy α) (workspace : Workspace) (draws : Draws σ) (least : α)
    (tasks : List (Task α σ)) : List (Outcome α) :=
  if policy.workers = 1 ∨ tasks.length < 2 then
    policy.workThrough draws least tasks workspace
  else
    let length := (tasks.length + policy.workers - 1) / policy.workers
    (chunks length tasks).flatMap fun chunk => policy.workThrough draws least chunk workspace

variable {tasks : List (Task α σ)}

theorem workOnWith_fresh (tasks : List (Task α σ)) :
    policy.workOnWith .fresh draws least tasks = policy.workOn draws least tasks :=
  rfl

/-- One worker that reuses a workspace has the effects of the tasks alone. -/
theorem effects_workThrough (tidy : ∀ task ∈ tasks, task.node.Tidy)
    (clean : workspace.marks.Clean) :
    (policy.workThrough draws least tasks workspace).map Outcome.effect =
      tasks.map (Task.effect policy draws least) := by
  induction tasks generalizing workspace with
  | nil => rfl
  | cons task rest ih =>
      obtain ⟨-, spec⟩ := task.effect_spec policy draws least (tidy task List.mem_cons_self)
      obtain ⟨own, cleanAgain⟩ := spec workspace clean
      rw [List.map_cons, ← own,
        ← ih (fun other member => tidy other (List.mem_cons_of_mem _ member)) cleanAgain]
      rfl

/-- However a level is shared, it has the effects of its tasks alone, in their order. -/
theorem effects_workOnWith (tidy : ∀ task ∈ tasks, task.node.Tidy)
    (clean : workspace.marks.Clean) (workers : 0 < policy.workers) :
    (policy.workOnWith workspace draws least tasks).map Outcome.effect =
      tasks.map (Task.effect policy draws least) := by
  unfold workOnWith
  split
  · exact effects_workThrough tidy clean
  · have positive : 0 < (tasks.length + policy.workers - 1) / policy.workers :=
      Nat.div_pos (by omega) workers
    generalize (tasks.length + policy.workers - 1) / policy.workers = length at positive
    have whole := flatten_chunks positive tasks
    have each : ∀ chunk ∈ chunks length tasks,
        (policy.workThrough draws least chunk workspace).map Outcome.effect =
          chunk.map (Task.effect policy draws least) := by
      intro chunk member
      refine effects_workThrough (fun task taskMember => tidy task ?_) clean
      rw [← whole]
      exact List.mem_flatten.mpr ⟨chunk, member, taskMember⟩
    calc ((chunks length tasks).flatMap fun chunk =>
          policy.workThrough draws least chunk workspace).map Outcome.effect
        = (chunks length tasks).flatMap fun chunk =>
            chunk.map (Task.effect policy draws least) := by
          rw [List.map_flatMap]
          exact List.flatMap_congr each
      _ = (chunks length tasks).flatten.map (Task.effect policy draws least) := by
          rw [List.map_flatten, List.flatMap_def]
      _ = tasks.map (Task.effect policy draws least) := by rw [whole]

end Policy

omit [Scalar α] in
/-- Gathering outcomes depends on their effects only. -/
theorem gather_congr {tasks : List (Task α σ)} {first second : List (Outcome α)}
    (same : first.map Outcome.effect = second.map Outcome.effect) (forest : Forest α) :
    gather (tasks.zip first) forest = gather (tasks.zip second) forest := by
  induction tasks generalizing first second forest with
  | nil => rfl
  | cons task rest ih =>
      cases first with
      | nil =>
          obtain rfl := List.map_eq_nil_iff.mp same.symm
          rfl
      | cons outcome others =>
          cases second with
          | nil => cases same
          | cons other more =>
              obtain ⟨own, restSame⟩ := List.cons.inj same
              obtain ⟨nodeEq, childrenEq⟩ := Prod.mk.inj own
              simp only [List.zip_cons_cons, gather, nodeEq, childrenEq, ih restSame]

/-! ## Forests stay tidy -/

namespace Forest.Tidy

variable {forest after : Forest α}

theorem plan (tidy : forest.Tidy) {width : Nat} {ids : List Nat} {source next : σ}
    {tasks : List (Task α σ)}
    (planned : policy.plan draws width ids forest source = .ok (tasks, after, next)) :
    after.Tidy ∧ ∀ task ∈ tasks, task.node.Tidy := by
  have released : ∀ node : Node α, node.Tidy → node.release.Tidy :=
    fun _ _ => Node.tidy_of_released rfl
  obtain ⟨afterTidy, tasksTidy⟩ := Forest.Every.plan tidy released planned
  exact ⟨afterTidy, fun task member => (tasksTidy task member).1⟩

omit [Scalar α] in
theorem gather (tidy : forest.Tidy) {pairs : List (Task α σ × Outcome α)} {new : List Nat}
    (effects : ∀ pair ∈ pairs, TidyEffect pair.2.effect)
    (gathered : Growth.gather pairs forest = .ok (new, after)) : after.Tidy :=
  Forest.Every.gather tidy effects gathered

end Forest.Tidy

/-! ## Whole runs -/

/-- The same rules for another number of workers. -/
def Policy.withWorkers (policy : Policy α) (workers : Nat) : Policy α :=
  { policy with workers }

/-- Grows one level; every worker starts with a copy of a workspace. -/
def stepWith (workspace : Workspace) (policy : Policy α) (draws : Draws σ) (featureCount : Nat)
    (least : α) (state : State α σ) : Except Error (State α σ) := do
  let (tasks, forest, source) ←
    policy.plan draws featureCount state.frontier state.forest state.source
  let outcomes := policy.workOnWith workspace draws least tasks
  let (frontier, forest) ← gather (tasks.zip outcomes) forest
  pure { forest, frontier, source }

/-- Grows at most some levels; every worker starts each level with a copy of a workspace. -/
def growWith (workspace : Workspace) (policy : Policy α) (draws : Draws σ) (featureCount : Nat)
    (least : α) : Nat → State α σ → Except Error (State α σ)
  | 0, state => if state.frontier.isEmpty then .ok state else .error .growthUnfinished
  | levels + 1, state =>
      if state.frontier.isEmpty then .ok state
      else do
        growWith workspace policy draws featureCount least levels
          (← stepWith workspace policy draws featureCount least state)

/-- Grows a tree over a dataset; every worker starts each level with a copy of a workspace. -/
def runWith (workspace : Workspace) (policy : Policy α) (draws : Draws σ) (dataset : Dataset α)
    (source : σ) : Except Error (State α σ) := do
  growWith workspace policy draws dataset.features.size (leastDecrease policy dataset)
    (levelBound policy dataset) (← start policy.measure dataset source)

variable {state after : State α σ} {dataset : Dataset α} {source : σ} {width : Nat}

/-- The number of workers and their workspaces have no influence on a level. -/
theorem stepWith_eq (tidy : state.forest.Tidy) (clean : workspace.marks.Clean) {first second : Nat}
    (firstPositive : 0 < first) (secondPositive : 0 < second) :
    stepWith workspace (policy.withWorkers first) draws width least state =
      step (policy.withWorkers second) draws width least state := by
  have planned : (policy.withWorkers first).plan draws width state.frontier state.forest
      state.source = (policy.withWorkers second).plan draws width state.frontier state.forest
        state.source :=
    (policy.withWorkers first).plan_congr (policy.withWorkers second) rfl (fun _ _ _ _ => rfl) _
  rw [stepWith, step, planned]
  cases plan : (policy.withWorkers second).plan draws width state.frontier state.forest
    state.source with
  | error error => rfl
  | ok result =>
      obtain ⟨tasks, forest, source⟩ := result
      obtain ⟨-, tasksTidy⟩ := tidy.plan plan
      have effects : ∀ (workers : Nat) (workspace : Workspace), 0 < workers →
          workspace.marks.Clean →
            ((policy.withWorkers workers).workOnWith workspace draws least tasks).map
              Outcome.effect = tasks.map (Task.effect policy draws least) :=
        fun workers workspace positive clean =>
          Policy.effects_workOnWith tasksTidy clean positive
      have same := (effects first workspace firstPositive clean).trans
        (effects second .fresh secondPositive Policy.clean_fresh).symm
      rw [Policy.workOnWith_fresh] at same
      simp only [bind, Except.bind, gather_congr same]

/-- A level keeps a forest tidy. -/
theorem step_tidy (tidy : state.forest.Tidy) (workers : 0 < policy.workers)
    (grown : step policy draws width least state = .ok after) : after.forest.Tidy := by
  obtain ⟨⟨tasks, forest, source⟩, plan, grown⟩ := Outcome.bind_eq_ok.mp grown
  obtain ⟨⟨frontier, last⟩, gathered, same⟩ := Outcome.bind_eq_ok.mp grown
  obtain rfl := Except.ok.inj same
  obtain ⟨forestTidy, tasksTidy⟩ := tidy.plan plan
  refine forestTidy.gather (fun pair member => ?_) gathered
  have effects : (policy.workOn draws least tasks).map Outcome.effect =
      tasks.map (Task.effect policy draws least) :=
    Policy.effects_workOnWith tasksTidy Policy.clean_fresh workers
  have effectMember : pair.2.effect ∈ tasks.map (Task.effect policy draws least) := by
    rw [← effects]
    exact List.mem_map_of_mem (List.of_mem_zip member).2
  obtain ⟨task, taskMember, effectEq⟩ := List.mem_map.mp effectMember
  rw [← effectEq]
  exact (task.effect_spec policy draws least (tasksTidy task taskMember)).1

/-- The number of workers and their workspaces have no influence on growth. -/
theorem growWith_eq (tidy : state.forest.Tidy) (clean : workspace.marks.Clean) {first second : Nat}
    (firstPositive : 0 < first) (secondPositive : 0 < second) (levels : Nat) :
    growWith workspace (policy.withWorkers first) draws width least levels state =
      grow (policy.withWorkers second) draws width least levels state := by
  induction levels generalizing state with
  | zero => rfl
  | succ levels ih =>
      rw [growWith, grow, stepWith_eq tidy clean firstPositive secondPositive]
      cases grown : step (policy.withWorkers second) draws width least state with
      | error error => rfl
      | ok after => simp only [bind, Except.bind, ih (step_tidy tidy secondPositive grown)]

/-- The number of workers has no influence on how growth finishes. -/
theorem finish_withWorkers (tidy : state.forest.Tidy) {first second : Nat}
    (firstPositive : 0 < first) (secondPositive : 0 < second) :
    finish (policy.withWorkers first) draws dataset state =
      finish (policy.withWorkers second) draws dataset state := by
  have alone : ∀ workers, 0 < workers →
      growWith .fresh (policy.withWorkers 1) draws dataset.features.size
        (leastDecrease policy dataset) (levelBound policy dataset) state =
          finish (policy.withWorkers workers) draws dataset state := fun _ positive =>
    growWith_eq tidy Policy.clean_fresh Nat.one_pos positive _
  exact (alone first firstPositive).symm.trans (alone second secondPositive)

variable [Scalar.Ordered α]

/-- Growth starts with a tidy node, whatever the dataset. -/
theorem start_tidy {measure : Measure α} (started : start measure dataset source = .ok state) :
    state.forest.Tidy := by
  obtain ⟨columns, counts, columnsEq, -, rfl⟩ := start_eq started
  obtain ⟨rows, -, built⟩ := Outcome.bind_eq_ok.mp columnsEq
  have tidy : ∀ column ∈ columns, column.Tidy := by
    intro column member
    obtain ⟨feature, -, made⟩ := Outcome.exists_of_mem_mapM built column member
    refine Column.ofObservations_tidy made fun id idMember => ?_
    obtain ⟨place, -, rfl⟩ := List.mem_map.mp idMember
    exact Int.natCast_nonneg place
  intro slot member
  obtain rfl := List.mem_singleton.mp member
  intro others same
  obtain rfl := Option.some.inj same
  exact tidy

/-- The nodes of a growing forest are tidy, whatever the dataset. -/
theorem Course.tidy {origins : List (Origin α)} (workers : 0 < policy.workers)
    (course : Course policy draws dataset source state origins) : state.forest.Tidy := by
  induction course with
  | start started => exact start_tidy started
  | level course grown ih => exact step_tidy ih workers grown

/-- The number of workers and their workspaces have no influence on the grown forest. -/
theorem runWith_eq (clean : workspace.marks.Clean) {first second : Nat}
    (firstPositive : 0 < first) (secondPositive : 0 < second) :
    runWith workspace (policy.withWorkers first) draws dataset source =
      run (policy.withWorkers second) draws dataset source := by
  rw [runWith, run]
  simp only [Policy.withWorkers]
  cases started : start policy.measure dataset source with
  | error error => rfl
  | ok state => exact growWith_eq (start_tidy started) clean firstPositive secondPositive _

end Growth

/-! ## Fits -/

namespace Classifier

/-- The same classifier with another number of jobs. -/
def withJobs (classifier : Classifier) (jobs : Setting) : Classifier :=
  { classifier with settings := { classifier.settings with jobs } }

/-- A number of jobs that is not refused and employs some workers. -/
structure Settings.Employs (processors : Nat) (jobs : Setting) (workers : Nat) : Prop where
  isZero_eq : jobs.isZero = false
  workers_eq : Settings.workers? processors jobs = .ok workers
  positive : 0 < workers

variable {classifier : Classifier} {jobs others : Setting} {processors otherProcessors : Nat}
  {workers more : Nat} {dataset : Dataset Float}

theorem check_withJobs (accepted : jobs.isZero = false) (alsoAccepted : others.isZero = false) :
    (classifier.withJobs jobs).settings.check = (classifier.withJobs others).settings.check := by
  simp only [Settings.check, withJobs, accepted, alsoAccepted]

/-- The number of jobs has no influence on the fitted model. -/
theorem fitDataset_withJobs (employs : Settings.Employs processors jobs workers)
    (alsoEmploys : Settings.Employs otherProcessors others more) :
    ((classifier.withJobs jobs).fitDataset processors dataset).map Classifier.model =
      ((classifier.withJobs others).fitDataset otherProcessors dataset).map Classifier.model := by
  have checks := classifier.check_withJobs employs.isZero_eq alsoEmploys.isZero_eq
  have employed : workers ≠ 0 ∧ more ≠ 0 :=
    ⟨Nat.ne_of_gt employs.positive, Nat.ne_of_gt alsoEmploys.positive⟩
  simp only [fitDataset, checks, bind, Except.bind]
  cases (classifier.withJobs others).settings.check with
  | error error => rfl
  | ok checked =>
      simp only [withJobs, employs.workers_eq, alsoEmploys.workers_eq, if_neg employed.1,
        if_neg employed.2]
      cases dataset.examples.isEmpty with
      | true => rfl
      | false =>
          cases Settings.seed? classifier.settings.seed with
          | error error => rfl
          | ok seed =>
              simp only [Bool.false_eq_true, if_false, Settings.Checked.policy]
              cases started : Growth.start checked.measure dataset (Twister.ofSeed seed) with
              | error error => rfl
              | ok state =>
                  -- the rules of growth differ in the number of workers only
                  let policy := checked.policy dataset.features.size workers
                  have finished : Growth.finish (policy.withWorkers workers) Twister.draws dataset
                      state = Growth.finish (policy.withWorkers more) Twister.draws dataset state :=
                    Growth.finish_withWorkers (Growth.start_tidy started) employs.positive
                      alsoEmploys.positive
                  simp only [policy, Settings.Checked.policy, Growth.Policy.withWorkers] at finished
                  simp only [finished]
                  split
                  next => rfl
                  next grown _ =>
                    cases grown.forest.toTree dataset.labels.labels 0 with
                    | error error => rfl
                    | ok tree => rfl

end Classifier

namespace Growth

/-- Neither workspaces nor workers leave a trace.  A task for a tidy node does the same to its node
in every workspace whose table of marks is clean, whatever else the workspace holds, and leaves the
table clean.  So workers that share tasks give, in the order of the tasks, what each task gives
alone.  All tasks of a growing forest are of this kind, hence growth and fits depend neither on the
capacity of the workspaces nor on the number of workers. -/
theorem workers_leave_no_trace (policy : Policy Float) (draws : Draws σ) (least : Float) :
    (∀ (task : Task Float σ) (workspace : Workspace), task.node.Tidy → workspace.marks.Clean →
      let outcome := (task.node.split policy.splitter policy.measure draws task.features
        task.source least workspace).1
      outcome.effect = task.effect policy draws least ∧ outcome.workspace.marks.Clean) ∧
    (∀ (tasks : List (Task Float σ)) (workspace : Workspace) (workers : Nat),
      (∀ task ∈ tasks, task.node.Tidy) → workspace.marks.Clean → 0 < workers →
      ((policy.withWorkers workers).workOnWith workspace draws least tasks).map Outcome.effect =
        tasks.map (Task.effect policy draws least)) ∧
    (∀ (dataset : Dataset Float) (source : σ) (state : State Float σ)
      (origins : List (Origin Float)), 0 < policy.workers →
      Course policy draws dataset source state origins →
      ∀ tasks forest next, policy.plan draws dataset.features.size state.frontier state.forest
        state.source = .ok (tasks, forest, next) → ∀ task ∈ tasks, task.node.Tidy) ∧
    (∀ (dataset : Dataset Float) (source : σ) (capacity : Int) (first second : Nat),
      0 < first → 0 < second →
      runWith (.ofCapacity capacity) (policy.withWorkers first) draws dataset source =
        run (policy.withWorkers second) draws dataset source) ∧
    ∀ (classifier : Classifier) (dataset : Dataset Float) (jobs others : Setting)
      (processors otherProcessors workers more : Nat),
      Classifier.Settings.Employs processors jobs workers →
      Classifier.Settings.Employs otherProcessors others more →
      ((classifier.withJobs jobs).fitDataset processors dataset).map Classifier.model =
        ((classifier.withJobs others).fitDataset otherProcessors dataset).map
          Classifier.model := by
  refine ⟨?alone, ?shared, ?planned, ?grown, ?fitted⟩
  case alone =>
    intro task workspace tidy clean
    exact (task.effect_spec policy draws least tidy).2 workspace clean
  case shared =>
    intro tasks workspace workers tidy clean positive
    exact Policy.effects_workOnWith tidy clean positive
  case planned =>
    intro dataset source state origins workers course tasks forest next planned
    exact ((course.tidy workers).plan planned).2
  case grown =>
    intro dataset source capacity first second firstPositive secondPositive
    exact runWith_eq (Buffer.clean_ofCapacity capacity) firstPositive secondPositive
  case fitted =>
    intro classifier dataset jobs others processors otherProcessors workers more employs alsoEmploys
    exact Classifier.fitDataset_withJobs employs alsoEmploys

/-- A workspace with ids left over from earlier splits. -/
def Sample.stale : Workspace where
  below := { storage := #[7, 7, 7], size := 2 }
  swap := { storage := #[5], size := 1 }
  marks := .ofCapacity 1

/-- The second level of the sample has two tasks; two workers with stale workspaces share them. -/
theorem workers_leave_no_trace_sample :
    ∃ (dataset : Dataset Float) (state : State Float Nat) (origins : List (Origin Float))
      (tasks : List (Task Float Nat)) (final : State Float Nat),
      Dataset.ofTable (Sample.values 0 1) Sample.labels none none none = .ok dataset ∧
      Course Sample.policy (.repeating []) dataset 0 state origins ∧
      tasks.length = 2 ∧
      (∀ task ∈ tasks, task.node.Tidy ∧
        let outcome := (task.node.split .best .gini (.repeating []) task.features task.source 0
          Sample.stale).1
        outcome.effect = task.effect Sample.policy (.repeating []) 0 ∧
          outcome.workspace.marks.Clean) ∧
      ((Sample.policy.withWorkers 2).workOnWith Sample.stale (.repeating []) 0 tasks).map
        Outcome.effect = tasks.map (Task.effect Sample.policy (.repeating []) 0) ∧
      runWith (.ofCapacity 1) (Sample.policy.withWorkers 3) (.repeating []) dataset 0 = .ok final ∧
      final.forest.size = 3 ∧
      ((({} : Classifier).withJobs (.atom (.int 1))).fitDataset 1 dataset).map Classifier.model =
        ((({} : Classifier).withJobs (.atom (.int (-1)))).fitDataset 8 dataset).map
          Classifier.model := by
  have passed : Outcome.passes (do
      let (dataset, state, origins) ← Sample.course (0 : Float) 1 1
      let (tasks, forest, next) ← Sample.policy.plan (.repeating []) dataset.features.size
        state.frontier state.forest state.source
      let final ← run (Sample.policy.withWorkers 2) (.repeating []) dataset 0
      pure (tasks, final)) (fun (tasks, final) =>
        tasks.length == 2 && final.forest.size == 3) = true := by
    decide +kernel
  obtain ⟨⟨tasks, final⟩, computed, test⟩ := Outcome.exists_of_passes passed
  simp only [Bool.and_eq_true, beq_iff_eq] at test
  obtain ⟨⟨dataset, state, origins⟩, sample, computed⟩ := Outcome.bind_eq_ok.mp computed
  obtain ⟨⟨planned, forest, next⟩, plan, computed⟩ := Outcome.bind_eq_ok.mp computed
  obtain ⟨last, finished, pair⟩ := Outcome.bind_eq_ok.mp computed
  obtain ⟨rfl, rfl⟩ := Prod.mk.inj (Except.ok.inj pair)
  obtain ⟨accepted, course⟩ := Sample.course_spec sample
  obtain ⟨alone, shared, ready, grown, fitted⟩ :=
    workers_leave_no_trace Sample.policy (.repeating []) 0
  have tidy := ready dataset 0 state origins Nat.one_pos course planned forest next plan
  have clean : Sample.stale.marks.Clean := Buffer.clean_ofCapacity 1
  refine ⟨dataset, state, origins, planned, last, accepted, course, test.1,
    fun task member => ⟨tidy task member, alone task _ (tidy task member) clean⟩,
    shared planned _ 2 tidy clean (by decide),
    (grown dataset 0 1 3 2 (by decide) (by decide)).trans finished, test.2, ?_⟩
  exact fitted {} dataset _ _ 1 8 1 8 ⟨by decide, by rfl, by decide⟩ ⟨by decide, by rfl, by decide⟩

end Growth

end DecisionTree
