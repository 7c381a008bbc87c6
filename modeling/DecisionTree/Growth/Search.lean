import DecisionTree.Draws.Basic
import DecisionTree.Growth.Node

/-!
# Searching for a split

A boundary of a column lies between two consecutive entries.  It divides the node's
examples into those below and those above, and is scored by the impurity of the two
sides, weighted and divided by the node's weight.  A side that is as good as pure
disqualifies its boundary, so a split never isolates a pure side.

The full search scores every boundary of the given features; the random search one
boundary of each, drawn uniformly.  The best score has to be strictly below the
node's own impurity, and of equal scores the first one found is kept.
-/

namespace DecisionTree.Growth

variable {α : Type} [Scalar α]

/-- A boundary between two consecutive entries with the histograms of its sides. -/
structure Boundary (α : Type) where
  index : Nat
  lower : α
  upper : α
  less : List α
  greater : List α

namespace Boundary

/-- The threshold of a boundary lies half way between the values beside it. -/
def threshold (boundary : Boundary α) : α :=
  Scalar.midpoint boundary.lower boundary.upper

end Boundary

/-- The boundaries among entries from the given place on.  Each entry moves from the
side above to the side below. -/
def boundariesFrom (index : Nat) (less greater : List α) : List (Entry α) → List (Boundary α)
  | entry :: next :: rest =>
      let less := Histogram.plus less entry.counts
      let greater := Histogram.minus greater entry.counts
      { index, lower := entry.value, upper := next.value, less, greater } ::
        boundariesFrom (index + 1) less greater (next :: rest)
  | _ => []

/-- All boundaries of a column in ascending order, for a node with the given total. -/
def boundaries (column : Column α) (total : List α) : List (Boundary α) :=
  boundariesFrom 0 (Histogram.zero total.length) total column.entries

/-- The histograms beside the boundary that a drawn number names: of all entries up to
and including the one at that position, and of the rest. -/
def sidesAt (entries : List (Entry α)) (total : List α) (drawn : Int) : List α × List α :=
  let less := (Position.before entries (drawn + 1)).foldl
    (fun less entry => Histogram.plus less entry.counts) (Histogram.zero total.length)
  (less, Histogram.minus total less)

/-- The threshold of the boundary that a drawn number names. -/
def thresholdAt? (entries : List (Entry α)) (drawn : Int) : Option α := do
  let lower ← Position.get? entries drawn
  let upper ← Position.get? entries (drawn + 1)
  pure (Scalar.midpoint lower.value upper.value)

/-- Weighted impurities up to this bound count as pure. -/
def pureBound : α :=
  Scalar.ofDecimal 1 10

/-- The score of a boundary, unless one of its sides is pure. -/
def score? (measure : Measure α) (weight : α) (less greater : List α) : Option α :=
  let below := measure.weighted less
  let above := measure.weighted greater
  if Scalar.lt pureBound below && Scalar.lt pureBound above then some ((below + above) / weight)
  else none

/-- The best split found so far and its score; without one, the node's impurity. -/
structure Best (α : Type) where
  cut : Option (Cut α)
  score : α

namespace Best

/-- Before anything is scored. -/
def none (node : Node α) : Best α where
  cut := .none
  score := node.impurity

/-- Whether a score is strictly better than the best one. -/
def improvedBy (best : Best α) : Option α → Bool
  | .none => false
  | some score => Scalar.lt score best.score

/-- Keeps the better of what was found and a scored boundary; the former on a tie. -/
def update (best : Best α) (feature : Int) (threshold : α) (score : Option α) : Best α :=
  match score with
  | .none => best
  | some value =>
      if best.improvedBy score then { cut := some { feature, threshold }, score := value } else best

end Best

namespace Node

/-- The column of a feature.  Ids may count from the end. -/
def column (node : Node α) (feature : Int) : Except Error (Column α) :=
  match node.columns with
  | none => .error .columnsReleased
  | some columns =>
      match Position.get? columns feature with
      | none => .error .outOfRange
      | some column => .ok column

/-- Scores the boundaries of one feature. -/
def searchColumn (measure : Measure α) (node : Node α) (best : Best α) (feature : Int)
    (column : Column α) : Best α :=
  (boundaries column node.counts).foldl
    (fun best boundary =>
      best.update feature boundary.threshold
        (score? measure node.weightSum boundary.less boundary.greater))
    best

/-- Scores all boundaries of the given features. -/
def searchAll (measure : Measure α) (node : Node α) (features : List Int) :
    Except Error (Best α) :=
  features.foldlM
    (fun best feature => do
      pure (node.searchColumn measure best feature (← node.column feature)))
    (Best.none node)

/-- Scores the boundary that a drawn number names.  The values beside it are looked up
only if it is better than what was found before. -/
def scoreDrawn (measure : Measure α) (node : Node α) (best : Best α) (feature : Int)
    (entries : List (Entry α)) (drawn : Int) : Except Error (Best α) :=
  let (less, greater) := sidesAt entries node.counts drawn
  let score := score? measure node.weightSum less greater
  if best.improvedBy score then
    match thresholdAt? entries drawn with
    | some threshold => .ok (best.update feature threshold score)
    | none => .error .outOfRange
  else
    .ok best

/-- Scores one drawn boundary of each given feature that has at least two values. -/
def searchRandom {σ : Type} (measure : Measure α) (draws : Draws σ) (node : Node α)
    (features : List Int) (state : σ) : Except Error (Best α × σ) :=
  features.foldlM
    (fun (best, state) feature => do
      let column ← node.column feature
      if column.entries.length < 2 then
        pure (best, state)
      else
        let (drawn, state) := draws.below (column.entries.length - 1) state
        pure (← node.scoreDrawn measure best feature column.entries drawn, state))
    (Best.none node, state)

end Node

end DecisionTree.Growth
