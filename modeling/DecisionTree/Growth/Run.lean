import DecisionTree.Dataset.Columns
import DecisionTree.Growth.Forest
import DecisionTree.Growth.Split

/-!
# Growing a tree level by level

Growth starts with the root, which holds all examples, and treats the nodes of one
level together.  Nodes that are too deep or too light are released; each of the others
gets the features it may be split on and a source of random numbers of its own, in the
order of the level.  Then all of them are searched and split, and their children make
up the next level.

The work on a level may be shared by several workers, each taking a run of consecutive
nodes and reusing one workspace.
-/

namespace DecisionTree.Growth

/-- The rules by which a tree is grown. -/
structure Policy (α : Type) where
  measure : Measure α
  splitter : Splitter
  /-- No node at this depth or deeper is split. -/
  maxDepth : Option Nat
  /-- No node of less weight is split. -/
  minWeight : α
  /-- The least decrease of impurity, as a share of the weight of the whole dataset. -/
  minDecrease : α
  /-- The number of features drawn for each split. -/
  featuresDrawn : Nat
  /-- The number of workers that share a level. -/
  workers : Nat

/-- A node that is to be split, with all that its search needs. -/
structure Task (α σ : Type) where
  id : Nat
  node : Node α
  features : List Int
  source : σ

/-- Growth between two levels. -/
structure State (α σ : Type) where
  forest : Forest α
  /-- The nodes of the current level. -/
  frontier : List Nat
  source : σ

variable {α σ : Type} [Scalar α]

namespace Policy

/-- Whether a node may be searched for a split. -/
def admits (policy : Policy α) (node : Node α) : Bool :=
  policy.maxDepth.all (node.depth < ·) && Scalar.le policy.minWeight node.weightSum

/-- The features to be searched: all of them in id order, or the first of a drawn
permutation. -/
def drawFeatures (policy : Policy α) (draws : Draws σ) (featureCount : Nat) (source : σ) :
    List Int × σ :=
  if policy.featuresDrawn = featureCount then
    ((List.range featureCount).map Int.ofNat, source)
  else
    let (order, source) := draws.permutation featureCount source
    ((order.take policy.featuresDrawn).map Int.ofNat, source)

/-- Goes through the nodes of a level: makes a task of each that may be split, and
releases the others. -/
def plan (policy : Policy α) (draws : Draws σ) (featureCount : Nat) :
    List Nat → Forest α → σ → Except Error (List (Task α σ) × Forest α × σ)
  | [], forest, source => .ok ([], forest, source)
  | id :: rest, forest, source => do
      let slot ← forest.slot id
      if policy.admits slot.node && 0 < featureCount then
        let (features, source) := policy.drawFeatures draws featureCount source
        let (own, source) := draws.fork source
        let (tasks, forest, source) ← policy.plan draws featureCount rest forest source
        pure ({ id, node := slot.node, features, source := own } :: tasks, forest, source)
      else
        policy.plan draws featureCount rest (forest.setNode id slot.node.release) source

/-- Carries out tasks one after the other in one workspace. -/
def workThrough (policy : Policy α) (draws : Draws σ) (least : α) :
    List (Task α σ) → Workspace → List (Outcome α)
  | [], _ => []
  | task :: rest, workspace =>
      let (outcome, _) := task.node.split policy.splitter policy.measure draws task.features
        task.source least workspace
      outcome :: policy.workThrough draws least rest outcome.workspace

/-- Cuts a list into runs of a given length; the last one may be shorter. -/
def chunks {β : Type} (length : Nat) (items : List β) : List (List β) :=
  if _ : 0 < length ∧ items ≠ [] then
    items.take length :: chunks length (items.drop length)
  else
    []
termination_by items.length
decreasing_by
  have := List.length_pos_iff.mpr ‹0 < length ∧ items ≠ []›.2
  simp only [List.length_drop]; omega

/-- Cutting a list into runs neither loses nor reorders anything. -/
theorem flatten_chunks {β : Type} {length : Nat} (positive : 0 < length) (items : List β) :
    (chunks length items).flatten = items := by
  fun_induction chunks length items with
  | case1 items _ ih => rw [List.flatten_cons, ih, List.take_append_drop]
  | case2 items improper => simp_all

/-- Shares the tasks of a level among the workers, each with a workspace of its own. -/
def workOn (policy : Policy α) (draws : Draws σ) (least : α) (tasks : List (Task α σ)) :
    List (Outcome α) :=
  if policy.workers = 1 ∨ tasks.length < 2 then
    policy.workThrough draws least tasks .fresh
  else
    let length := (tasks.length + policy.workers - 1) / policy.workers
    (chunks length tasks).flatMap fun chunk => policy.workThrough draws least chunk .fresh

end Policy

/-- Puts the nodes and children of finished tasks into the forest and lists the new
nodes. -/
def gather : List (Task α σ × Outcome α) → Forest α → Except Error (List Nat × Forest α)
  | [], forest => .ok ([], forest)
  | (task, outcome) :: rest, forest => do
      let (ids, forest) ← (forest.setNode task.id outcome.node).attach task.id
        (← outcome.children)
      let (others, forest) ← gather rest forest
      pure (ids ++ others, forest)

/-- Grows one level. -/
def step (policy : Policy α) (draws : Draws σ) (featureCount : Nat) (least : α)
    (state : State α σ) : Except Error (State α σ) := do
  let (tasks, forest, source) ←
    policy.plan draws featureCount state.frontier state.forest state.source
  let outcomes := policy.workOn draws least tasks
  let (frontier, forest) ← gather (tasks.zip outcomes) forest
  pure { forest, frontier, source }

/-- Grows level by level until a level is empty, but at most `levels` levels. -/
def grow (policy : Policy α) (draws : Draws σ) (featureCount : Nat) (least : α) :
    Nat → State α σ → Except Error (State α σ)
  | 0, state => if state.frontier.isEmpty then .ok state else .error .growthUnfinished
  | levels + 1, state =>
      if state.frontier.isEmpty then .ok state
      else do
        grow policy draws featureCount least levels
          (← step policy draws featureCount least state)

/-- The node that holds all examples of a dataset. -/
def rootOf (measure : Measure α) (dataset : Dataset α) : Except Error (Node α) := do
  let columns ← dataset.columns
  let counts ← dataset.labelCounts
  pure (Node.ofCounts measure columns dataset.size 0 counts)

/-- Growth before the first level. -/
def start (measure : Measure α) (dataset : Dataset α) (source : σ) :
    Except Error (State α σ) := do
  pure { forest := .ofRoot (← rootOf measure dataset), frontier := [0], source }

/-- The least decrease of weighted impurity that a split has to bring. -/
def leastDecrease (policy : Policy α) (dataset : Dataset α) : α :=
  policy.minDecrease * dataset.weightSum

/-- A bound on the levels of growth: the depth limit if there is one, else so many that
no tree comes near.  As long as each split separates its examples, no more than one
level for each example is needed. -/
def levelBound (policy : Policy α) (dataset : Dataset α) : Nat :=
  policy.maxDepth.getD (1 <<< 20) + dataset.size + 1

/-- Grows all levels that follow. -/
def finish (policy : Policy α) (draws : Draws σ) (dataset : Dataset α) (state : State α σ) :
    Except Error (State α σ) :=
  grow policy draws dataset.features.size (leastDecrease policy dataset)
    (levelBound policy dataset) state

/-- Grows a tree over a dataset. -/
def run (policy : Policy α) (draws : Draws σ) (dataset : Dataset α) (source : σ) :
    Except Error (State α σ) := do
  finish policy draws dataset (← start policy.measure dataset source)

end DecisionTree.Growth
