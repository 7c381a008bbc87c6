/-!
# Numbers that a tree can be trained on

Training needs few operations on feature values and example weights: the four
arithmetic operations, the embedding of natural numbers and of decimals, and
three comparisons.  `Scalar` collects them, so that the same search, the same
partition and the same accounting run on binary64 floats and on any exact
ordered field.

The comparisons are Boolean and are not assumed to form an order: a float that
is not a number compares false with everything, itself included.
-/

namespace DecisionTree

/-- Arithmetic and comparisons that training uses on values and weights. -/
class Scalar (α : Type) extends Zero α, Add α, Sub α, Mul α, Div α, Neg α where
  /-- The number that a natural number stands for. -/
  ofNat : Nat → α
  /-- `ofDecimal digits places` is `digits` divided by ten to the power `places`. -/
  ofDecimal : Nat → Nat → α
  /-- Strictly less. -/
  lt : α → α → Bool
  /-- Less or equal. -/
  le : α → α → Bool
  /-- Numerically equal. -/
  eq : α → α → Bool

/-- Binary64 arithmetic, every operation rounded once to nearest. -/
instance : Scalar Float where
  zero := 0
  ofNat := Float.ofNat
  ofDecimal digits places := Float.ofScientific digits true places
  lt left right := decide (left < right)
  le left right := decide (left ≤ right)
  eq left right := left == right

namespace Scalar

variable {α : Type} [Scalar α]

/-- A value that equals itself; on floats this leaves out exactly NaN. -/
def isNumber (value : α) : Bool :=
  eq value value

/-- The order of column entries: ascending numbers, then all that is no number. -/
def precedes (left right : α) : Bool :=
  lt left right || (isNumber left && !isNumber right)

/-- Half of the sum of two values, with the sum rounded first. -/
def midpoint (left right : α) : α :=
  (left + right) / ofNat 2

end Scalar

end DecisionTree
