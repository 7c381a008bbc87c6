/-!
# The exact value of a binary64 float

Every finite float is a signed natural number times a power of two.  The decimal
texts of this library are computed from that exact value in integer arithmetic,
so they do not depend on how a number is printed by default.
-/

namespace DecisionTree

/-- A float, read off its 64 bits. -/
inductive Binary64 where
  | nan
  | infinite (negative : Bool)
  /-- The value is `mantissa * 2 ^ exponent`, negated if `negative`. -/
  | finite (negative : Bool) (mantissa : Nat) (exponent : Int)
  deriving DecidableEq, Repr

namespace Binary64

/-- The weight of the leading bit of a normal mantissa, which is not stored. -/
def leadingBit : Nat := 1 <<< 52

/-- The sign, exponent and fraction fields of the binary64 format. -/
def ofFloat (value : Float) : Binary64 :=
  let bits := value.toBits.toNat
  let negative := bits.testBit 63
  let field : Nat := (bits >>> 52) % 2048
  let fraction : Nat := bits % leadingBit
  if field = 2047 then
    if fraction = 0 then .infinite negative else .nan
  else if field = 0 then
    .finite negative fraction (-1074)
  else
    .finite negative (leadingBit + fraction) ((field : Int) - 1075)

/-- Numerator of `mantissa * 2 ^ exponent`, over `denominator exponent`. -/
def numerator (mantissa : Nat) (exponent : Int) : Nat :=
  mantissa <<< exponent.toNat

/-- Denominator of any natural number times `2 ^ exponent`. -/
def denominator (exponent : Int) : Nat :=
  1 <<< (-exponent).toNat

theorem denominator_pos (exponent : Int) : 0 < denominator exponent := by
  rw [denominator, Nat.shiftLeft_eq, Nat.one_mul]
  exact Nat.two_pow_pos _

/-- The integer equal to a float, if there is one. -/
def toInt? : Binary64 → Option Int
  | .finite negative mantissa exponent =>
      let above := numerator mantissa exponent
      let below := denominator exponent
      if above % below = 0 then
        some (if negative then -(above / below : Nat) else (above / below : Nat))
      else
        none
  | _ => none

/-- How a float compares with an integer; one that is not a number does not. -/
def compareInt : Binary64 → Int → Option Ordering
  | .nan, _ => none
  | .infinite negative, _ => some (if negative then .lt else .gt)
  | .finite negative mantissa exponent, value =>
      let magnitude : Int := numerator mantissa exponent
      some (compare (if negative then -magnitude else magnitude) (value * denominator exponent))

/-- The integer next to a finite float in the direction of zero. -/
def truncate? : Binary64 → Option Int
  | .finite negative mantissa exponent =>
      let magnitude : Nat := numerator mantissa exponent / denominator exponent
      some (if negative then -magnitude else magnitude)
  | _ => none

/-- The least natural number that is not below a float: zero for negative floats
and for all that is not finite. -/
def ceilNat : Binary64 → Nat
  | .finite false mantissa exponent =>
      (numerator mantissa exponent + denominator exponent - 1) / denominator exponent
  | _ => 0

end Binary64

end DecisionTree
