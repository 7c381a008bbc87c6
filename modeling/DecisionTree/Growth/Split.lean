import DecisionTree.Growth.Search
import DecisionTree.Workspace

/-!
# Carrying out a split

A split is accepted if it lowers the impurity, weighted with the node's weight, by at
least a given amount.  The ids of all entries below the threshold are then collected
in the workspace, and every column of the node is partitioned by them.  The two sides
become the children of the node.

`Outcome` holds all that a split changes: the node, the workspace, and the children
or an error.  A node whose split fails half way keeps its columns.
-/

namespace DecisionTree.Growth

variable {α : Type} [Scalar α]

/-- How a node is searched: all boundaries, or one drawn boundary of each feature. -/
inductive Splitter where
  | best
  | random
  deriving DecidableEq, Repr

/-- The effect of looking for a split and carrying it out. -/
structure Outcome (α : Type) where
  node : Node α
  workspace : Workspace
  /-- No children if no split was accepted, else the left and the right child. -/
  children : Except Error (List (Node α))

/-- Partitions columns one after the other with the same ids and buffers. -/
def partitionAll (workspace : Workspace) :
    List (Column α) → Except Error (List (Column α) × List (Column α)) × Workspace
  | [] => (.ok ([], []), workspace)
  | column :: rest =>
      let parts := column.partition workspace.below workspace.swap workspace.marks
      let workspace := { workspace with swap := parts.gather, marks := parts.marks }
      match parts.sides with
      | .error error => (.error error, workspace)
      | .ok (left, right) =>
          match partitionAll workspace rest with
          | (.ok (lefts, rights), workspace) => (.ok (left :: lefts, right :: rights), workspace)
          | (.error error, workspace) => (.error error, workspace)

/-- The id lists of the entries below a threshold: those before the first entry that
is not below it. -/
def idsBelow (column : Column α) (threshold : α) : List (List Int) :=
  (column.entries.takeWhile fun entry => !Scalar.le threshold entry.value).map Entry.indices

namespace Node

/-- The amount by which a best score lowers the node's weighted impurity. -/
def decrease (node : Node α) (score : α) : α :=
  node.weightSum * (node.impurity - score)

/-- Splits a node over the given columns at a cut of one of them. -/
def splitAt (measure : Measure α) (node : Node α) (columns : List (Column α)) (cut : Cut α)
    (column : Column α) (workspace : Workspace) : Outcome α :=
  let node := { node with cut := some cut }
  let workspace := workspace.collectAll (idsBelow column cut.threshold)
  let count := workspace.below.size
  match partitionAll workspace columns with
  | (.error error, workspace) => { node, workspace, children := .error error }
  | (.ok (lefts, rights), workspace) =>
      let left := ofColumns measure lefts count (node.depth + 1)
      let right := ofColumns measure rights (node.exampleCount - count) (node.depth + 1)
      { node := node.release, workspace, children := .ok [left, right] }

/-- Carries out the best split found, if it lowers the impurity enough.  The columns
of the node are released either way. -/
def splitBest (measure : Measure α) (node : Node α) (columns : List (Column α))
    (best : Best α) (least : α) (workspace : Workspace) : Outcome α :=
  match best.cut with
  | none => { node := node.release, workspace, children := .ok [] }
  | some cut =>
      if Scalar.le least (node.decrease best.score) then
        match Position.get? columns cut.feature with
        | none => { node, workspace, children := .error .outOfRange }
        | some column => node.splitAt measure columns cut column workspace
      else
        { node := node.release, workspace, children := .ok [] }

/-- Searches a node in the given way. -/
def search {σ : Type} (splitter : Splitter) (measure : Measure α) (draws : Draws σ)
    (node : Node α) (features : List Int) (state : σ) : Except Error (Best α × σ) :=
  match splitter with
  | .best => (node.searchAll measure features).map fun best => (best, state)
  | .random => node.searchRandom measure draws features state

/-- Searches a node among some features and splits it if that lowers the impurity by
at least `least`.  A node whose columns are released has been searched before. -/
def split {σ : Type} (splitter : Splitter) (measure : Measure α) (draws : Draws σ)
    (node : Node α) (features : List Int) (state : σ) (least : α) (workspace : Workspace) :
    Outcome α × σ :=
  match node.columns with
  | none => ({ node, workspace, children := .error .alreadySearched }, state)
  | some columns =>
      match node.search splitter measure draws features state with
      | .error error => ({ node, workspace, children := .error error }, state)
      | .ok (best, state) => (node.splitBest measure columns best least workspace, state)

end Node

end DecisionTree.Growth
