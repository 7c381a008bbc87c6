import DecisionTree.Column.Partition
import DecisionTree.Decimal.Fixed
import DecisionTree.Measure
import DecisionTree.Tree

/-!
# Nodes of a growing tree

A node of a tree under construction holds one column for each feature, all over the
examples that reached the node, together with the label histogram and the impurity
of those examples.  Once the node has been searched for a split its columns are
released; the statistics stay, and become a leaf if no split was found.
-/

namespace DecisionTree.Growth

/-- A feature and the threshold it is split at. -/
structure Cut (α : Type) where
  feature : Int
  threshold : α

/-- A node while the tree is being grown. -/
structure Node (α : Type) where
  /-- One column for each feature, until they are released. -/
  columns : Option (List (Column α))
  exampleCount : Nat
  depth : Nat
  counts : List α
  impurity : α
  /-- The split that was chosen. -/
  cut : Option (Cut α)

namespace Node

variable {α : Type} [Scalar α]

/-- A node over given columns with a given histogram. -/
def ofCounts (measure : Measure α) (columns : List (Column α)) (exampleCount depth : Nat)
    (counts : List α) : Node α where
  columns := some columns
  exampleCount := exampleCount
  depth := depth
  counts := counts
  impurity := measure.impurity counts
  cut := none

/-- A node over given columns; its histogram is that of the first column. -/
def ofColumns (measure : Measure α) (columns : List (Column α)) (exampleCount depth : Nat) :
    Node α :=
  ofCounts measure columns exampleCount depth ((columns.head?.map Column.counts).getD [])

def weightSum (node : Node α) : α :=
  Scalar.sum node.counts

def isSplit (node : Node α) : Bool :=
  node.cut.isSome

/-- Drops the columns; the statistics stay. -/
def release (node : Node α) : Node α :=
  { node with columns := none }

/-- The label distribution of a histogram; without positive weight all labels have
the same share. -/
def distribution (counts : List α) : List α :=
  let total := Scalar.sum counts
  if Scalar.lt 0 total then counts.map (· / total)
  else List.replicate counts.length (Scalar.ofNat 1 / Scalar.ofNat (max counts.length 1))

/-- Goes on looking for a larger value than that at place `best`, from `place` on. -/
def firstMaximumFrom (best : Nat) (value : α) (place : Nat) : List α → Nat
  | [] => best
  | next :: rest =>
      if Scalar.lt value next then firstMaximumFrom place next (place + 1) rest
      else firstMaximumFrom best value (place + 1) rest

/-- The first place with a maximal value; zero for the empty list. -/
def firstMaximum : List α → Nat
  | [] => 0
  | first :: rest => firstMaximumFrom 0 first 1 rest

/-- The leaf that a node becomes.  It predicts the first of the labels with the
largest share. -/
def toLeaf (labels : List Label) (node : Node α) : Except Error (Leaf α) :=
  let distribution := distribution node.counts
  let best := firstMaximum distribution
  match labels[best]? with
  | none => .error .outOfRange
  | some label => .ok { impurity := node.impurity, labelId := best, label, distribution, labels }

def summary (node : Node Float) : String :=
  let split := (Atom.bool node.isSplit).plain
  s!"TrainingNode(depth={node.depth}, num_examples={node.exampleCount}, " ++
    s!"impurity={Decimal.Fixed.text 4 node.impurity}, split={split})"

end Node

end DecisionTree.Growth
