import DecisionTree.Binary64
import DecisionTree.Decimal.Rounding

/-!
# A fixed number of decimal places

The exact value of the float is rounded once, half to even, and written out in
full however large it is.  A negative value keeps its sign when it rounds to
zero.
-/

namespace DecisionTree.Decimal.Fixed

/-- The value in units of the last place kept. -/
def units (places mantissa : Nat) (exponent : Int) : Nat :=
  roundHalfEven (Binary64.numerator mantissa exponent * tenTo places)
    (Binary64.denominator exponent)

/-- A number of units of the last place as text, with a point before the places. -/
def layout (places value : Nat) : List Char :=
  let digits := padded (places + 1) value
  let whole := digits.length - places
  digits.take whole ++ (if places = 0 then [] else '.' :: digits.drop whole)

/-- The text of a float with the given number of decimal places. -/
def text (places : Nat) (value : Float) : String :=
  match Binary64.ofFloat value with
  | .nan => "nan"
  | .infinite negative => if negative then "-inf" else "inf"
  | .finite negative mantissa exponent =>
      let body := layout places (units places mantissa exponent)
      String.ofList (if negative then '-' :: body else body)

/-- The float nearest to the value rounded to the given number of places. -/
def round (places : Nat) (value : Float) : Float :=
  match Binary64.ofFloat value with
  | .finite negative mantissa exponent =>
      let magnitude := Float.ofScientific (units places mantissa exponent) true places
      if negative then -magnitude else magnitude
  | _ => value

end DecisionTree.Decimal.Fixed
