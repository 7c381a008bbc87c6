import DecisionTree.Binary64
import DecisionTree.Decimal.Rounding

/-!
# Scientific notation with a fixed number of digits

One digit before the point, a fixed number after it, and an exponent with its
sign and at least two digits.  The exact value is rounded once, half to even.
-/

namespace DecisionTree.Decimal.Scientific

/-- An exponent as it is written after the letter: its sign and at least two
digits. -/
def exponentText (exponent : Int) : List Char :=
  (if exponent < 0 then '-' else '+') :: padded 2 exponent.natAbs

/-- The significant digits of a quotient, as a natural number of `places + 1`
digits, with the exponent of the leading one.  Rounding up to the next power of
ten raises the exponent. -/
def significant (places dividend divisor : Nat) : Nat × Int :=
  let leading := leadingExponent dividend divisor
  let power := (places : Int) - leading
  let rounded := roundHalfEven (scaledDividend dividend power) (scaledDivisor divisor power)
  if rounded = tenTo (places + 1) then (tenTo places, leading + 1) else (rounded, leading)

/-- Significant digits and their exponent as text. -/
def layout (digits : List Char) (exponent : Int) : List Char :=
  let point := if digits.length ≤ 1 then [] else '.' :: digits.drop 1
  digits.take 1 ++ point ++ 'e' :: exponentText exponent

/-- The text of a float with the given number of digits after the point. -/
def text (places : Nat) (value : Float) : String :=
  match Binary64.ofFloat value with
  | .nan => "nan"
  | .infinite negative => if negative then "-inf" else "inf"
  | .finite negative mantissa exponent =>
      let (digits, leading) :=
        if mantissa = 0 then (0, 0)
        else
          significant places (Binary64.numerator mantissa exponent) (Binary64.denominator exponent)
      let body := layout (padded (places + 1) digits) leading
      String.ofList (if negative then '-' :: body else body)

end DecisionTree.Decimal.Scientific
