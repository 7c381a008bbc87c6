/-!
# Rounding a quotient to the nearest natural number

`roundHalfEven` is the one rounding rule of all decimal texts here: nearest, and
a quotient that lies half way between two naturals goes to the even one.
`roundHalfEven_within` states it without division.
-/

namespace DecisionTree.Decimal

/-- The natural number nearest to a quotient; a tie goes to the even neighbour. -/
def roundHalfEven (dividend divisor : Nat) : Nat :=
  let quotient := dividend / divisor
  let remainder := dividend % divisor
  if 2 * remainder < divisor then quotient
  else if divisor < 2 * remainder then quotient + 1
  else quotient + quotient % 2

/-- The result is within half a divisor of the dividend, on either side. -/
theorem roundHalfEven_within (dividend divisor : Nat) (positive : 0 < divisor) :
    2 * dividend ≤ 2 * (divisor * roundHalfEven dividend divisor) + divisor ∧
      2 * (divisor * roundHalfEven dividend divisor) ≤ 2 * dividend + divisor := by
  have parts := Nat.div_add_mod dividend divisor
  have small := Nat.mod_lt dividend positive
  unfold roundHalfEven
  simp only
  split
  · omega
  · split
    · rw [Nat.mul_add]; omega
    · rcases Nat.mod_two_eq_zero_or_one (dividend / divisor) with even | odd
      · rw [even, Nat.add_zero]; omega
      · rw [odd, Nat.mul_add]; omega

/-- The number of decimal digits of a natural number; zero has one. -/
def digitCount (value : Nat) : Nat :=
  (Nat.toDigits 10 value).length

/-- A power of ten. -/
def tenTo (power : Nat) : Nat :=
  Nat.pow 10 power

theorem tenTo_pos (power : Nat) : 0 < tenTo power :=
  Nat.pow_pos (by decide)

/-- The exponent of the leading decimal digit of a positive quotient: the `k` with
`10 ^ k ≤ dividend / divisor < 10 ^ (k + 1)`. -/
def leadingExponent (dividend divisor : Nat) : Int :=
  if divisor ≤ dividend then
    (digitCount (dividend / divisor) : Int) - 1
  else
    -(digitCount ((dividend + divisor - 1) / dividend - 1) : Int)

/-- The dividend that goes with `scaledDivisor` when a quotient is multiplied by
`10 ^ power`. -/
def scaledDividend (dividend : Nat) (power : Int) : Nat :=
  dividend * tenTo power.toNat

/-- The divisor that goes with `scaledDividend` when a quotient is multiplied by
`10 ^ power`. -/
def scaledDivisor (divisor : Nat) (power : Int) : Nat :=
  divisor * tenTo (-power).toNat

/-- The decimal digits of a natural number, padded with zeros on the left to at
least the given width. -/
def padded (width value : Nat) : List Char :=
  let digits := Nat.toDigits 10 value
  List.replicate (width - digits.length) '0' ++ digits

end DecisionTree.Decimal
