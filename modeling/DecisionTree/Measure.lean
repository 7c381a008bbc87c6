import DecisionTree.Histogram

/-!
# Impurity measures

An impurity measure maps a histogram of label weights to a number that is zero for
a single label and grows as the labels mix.  It looks at proportions only;
`Measure.weighted` scales it by the total weight, so that the two sides of a split
can be added.

The two measures are the Gini impurity, `1 - ∑ pᵢ²`, and the entropy in bits,
`-∑ pᵢ log₂ pᵢ`.  A histogram without positive total weight counts as pure.
-/

namespace DecisionTree

/-- The binary logarithm, which only entropy needs. -/
class BinaryLogarithm (α : Type) where
  log2 : α → α

instance : BinaryLogarithm Float where
  log2 := Float.log2

/-- An impurity measure and the names it goes by. -/
structure Measure (α : Type) where
  name : String
  summary : String
  impurity : List α → α

namespace Measure

variable {α : Type} [Scalar α]

/-- Impurity times total weight. -/
def weighted (measure : Measure α) (counts : List α) : α :=
  measure.impurity counts * Scalar.sum counts

/-- Applies a function to the proportions of a histogram, with zero for one that has
no positive total. -/
def ofProportions (value : List α → α) (counts : List α) : α :=
  let total := Scalar.sum counts
  if Scalar.le total 0 then 0 else value (counts.map (· / total))

/-- The probability that two draws with replacement have different labels. -/
def giniImpurity (counts : List α) : α :=
  ofProportions (fun shares => Scalar.ofNat 1 - Scalar.sum (shares.map fun p => p * p)) counts

/-- The expected number of bits that identify the label of a draw. -/
def entropyImpurity [BinaryLogarithm α] (counts : List α) : α :=
  ofProportions
    (fun shares =>
      -Scalar.sum ((shares.filter (Scalar.lt 0)).map fun p => p * BinaryLogarithm.log2 p))
    counts

def gini : Measure α where
  name := "gini"
  summary := "GiniImpurity()"
  impurity := giniImpurity

def entropy [BinaryLogarithm α] : Measure α where
  name := "entropy"
  summary := "EntropyImpurity()"
  impurity := entropyImpurity

/-- The measures that can be asked for by name. -/
def known [BinaryLogarithm α] : List (Measure α) :=
  [gini, entropy]

/-- The measure with a name.  Case does not matter; outside ASCII no letter has a
lower case that occurs in a name. -/
def ofSetting [BinaryLogarithm α] (given : Setting) : Except Error (Measure α) :=
  match known.find? (·.name == given.plain.toLower) with
  | some measure => .ok measure
  | none => .error (.unknownCriterion given)

end Measure

/-- How a measure is asked for: by name, or as the measure itself. -/
inductive Criterion (α : Type) where
  | named (setting : Setting)
  | given (measure : Measure α)

namespace Criterion

variable {α : Type} [Scalar α] [BinaryLogarithm α]

def measure : Criterion α → Except Error (Measure α)
  | .named setting => Measure.ofSetting setting
  | .given measure => .ok measure

end Criterion

end DecisionTree
