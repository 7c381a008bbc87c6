import DecisionTree.Decimal.Scientific

/-!
# The shortest decimal that reads back

Among all decimals that round to a given float, `shortest` picks one with the
fewest significant digits, and of those the nearest to the float's exact value.
A decimal rounds to the float if and only if it lies between the midpoints to
the two neighbouring floats; the midpoints themselves belong to the float when
its mantissa is even.

The search runs over decimal grids from one significant digit upwards.  On each
grid only the two points next to the value can be nearest, so only they are
tried.
-/

namespace DecisionTree.Decimal.Shortest

/-- The decimals that round to a positive float, as an interval of quotients with
one common divisor. -/
structure Interval where
  low : Nat
  value : Nat
  high : Nat
  divisor : Nat
  closed : Bool

/-- The interval around `mantissa * 2 ^ exponent`.  Quarter units make the lower
midpoint whole where the spacing of floats halves, just below a power of two. -/
def interval (mantissa : Nat) (exponent : Int) : Interval where
  low :=
    Binary64.numerator
      (if mantissa = Binary64.leadingBit ∧ exponent ≠ -1074 then 4 * mantissa - 1
        else 4 * mantissa - 2)
      (exponent - 2)
  value := Binary64.numerator (4 * mantissa) (exponent - 2)
  high := Binary64.numerator (4 * mantissa + 2) (exponent - 2)
  divisor := Binary64.denominator (exponent - 2)
  closed := mantissa % 2 = 0

/-- Whether the grid point `point / 10 ^ power` lies in an interval. -/
def Interval.holds (range : Interval) (power : Int) (point : Nat) : Bool :=
  let position := point * scaledDivisor range.divisor power
  let low := scaledDividend range.low power
  let high := scaledDividend range.high power
  if range.closed then low ≤ position && position ≤ high else low < position && position < high

/-- The grid point next to the value that lies in the interval, the nearer one if
both do, and the even one if they are equally near. -/
def Interval.nearest? (range : Interval) (power : Int) : Option Nat :=
  let value := scaledDividend range.value power
  let divisor := scaledDivisor range.divisor power
  let below := value / divisor
  match range.holds power below, range.holds power (below + 1) with
  | true, true => some (roundHalfEven value divisor)
  | true, false => some below
  | false, true => some (below + 1)
  | false, false => none

/-- Tries the grids of `count + 1`, `count + 2`, … significant digits, `tries` of
them; past the last it takes the value rounded to that many digits. -/
def search (range : Interval) (leading : Int) (count : Nat) : Nat → Nat × Int
  | 0 => significantDigits
  | tries + 1 =>
      let power := (count : Int) - leading
      match range.nearest? power with
      | some point => (point, -power)
      | none => search range leading (count + 1) tries
where
  significantDigits : Nat × Int :=
    let (digits, exponent) := Scientific.significant count range.value range.divisor
    (digits, exponent - count)

/-- The shortest decimal of a positive float, as a natural number and the power
of ten it is multiplied by.  Seventeen digits are enough for every float. -/
def shortest (mantissa : Nat) (exponent : Int) : Nat × Int :=
  let range := interval mantissa exponent
  search range (leadingExponent range.value range.divisor) 0 17

/-- Without the zeros at its end. -/
def dropZeros (digits : List Char) : List Char :=
  (digits.reverse.dropWhile (· == '0')).reverse

/-- How a decimal is laid out: positional, with a point and at least one place, if
the exponent of its leading digit is at least -4 and below 16; otherwise in
scientific notation. -/
def layout (digits : List Char) (leading : Int) : List Char :=
  if -4 ≤ leading ∧ leading < 16 then
    if leading < 0 then
      '0' :: '.' :: (List.replicate (-leading - 1).toNat '0' ++ digits)
    else
      let whole := leading.toNat + 1
      let places := digits.drop whole
      digits.take whole ++ List.replicate (whole - digits.length) '0' ++
        '.' :: (if places.isEmpty then ['0'] else places)
  else
    Scientific.layout digits leading

/-- The text of a float that reads back as the same float. -/
def text (value : Float) : String :=
  match Binary64.ofFloat value with
  | .nan => "nan"
  | .infinite negative => if negative then "-inf" else "inf"
  | .finite negative mantissa exponent =>
      let body :=
        if mantissa = 0 then ['0', '.', '0']
        else
          let (point, power) := shortest mantissa exponent
          let digits := Nat.toDigits 10 point
          layout (dropZeros digits) (power + (digits.length - 1 : Nat))
      String.ofList (if negative then '-' :: body else body)

end DecisionTree.Decimal.Shortest
