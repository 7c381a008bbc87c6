import DecisionTree.Text.Blank
import DecisionTree.Text.Digit

/-!
# Reading numbers from text

A number in text may stand between blanks and carry a sign.  Its digits may be
those of any script, and a single underscore may separate two digits.  A float is
an integer part, a fraction after a point and a power of ten after the letter `e`,
of which the integer part or the fraction may be missing; or one of the words
`inf`, `infinity` and `nan` in any case.  An integer is digits alone.

A decimal is turned into the nearest float, with ties to even; one that is too
large for a finite float becomes infinite.
-/

namespace DecisionTree.Decimal

/-- The float nearest to `digits * 10 ^ exponent`.  A decimal beyond either end of
the finite floats is decided by its number of digits alone. -/
def nearestFloat (digits : Nat) (exponent : Int) : Float :=
  let size : Int := (Nat.toDigits 10 digits).length + exponent
  if digits = 0 ∨ size < -400 then 0.0
  else if 400 < size then Float.ofBits 0x7ff0000000000000
  else Float.ofScientific digits (exponent < 0) exponent.natAbs

/-- A float with a sign. -/
def signed (negative : Bool) (magnitude : Float) : Float :=
  if negative then -magnitude else magnitude

/-- The float nearest to an integer. -/
def floatOfInt (value : Int) : Float :=
  signed (value < 0) (nearestFloat value.natAbs 0)

namespace Reading

/-- The digits at the front of a text, each after the first possibly behind one
underscore, and what follows them. -/
def digits : List Char → List Nat × List Char
  | [] => ([], [])
  | char :: rest =>
      match Text.digitValue? char with
      | none => ([], char :: rest)
      | some value =>
          let (values, rest) := further rest
          (value :: values, rest)
where
  further : List Char → List Nat × List Char
    | '_' :: char :: rest =>
        match Text.digitValue? char with
        | none => ([], '_' :: char :: rest)
        | some value =>
            let (values, rest) := further rest
            (value :: values, rest)
    | char :: rest =>
        match Text.digitValue? char with
        | none => ([], char :: rest)
        | some value =>
            let (values, rest) := further rest
            (value :: values, rest)
    | [] => ([], [])

/-- The natural number that digits stand for. -/
def ofDigits (values : List Nat) : Nat :=
  values.foldl (fun number value => 10 * number + value) 0

/-- Whether a sign at the front of a text is a minus, and what follows the sign. -/
def sign : List Char → Bool × List Char
  | '-' :: rest => (true, rest)
  | '+' :: rest => (false, rest)
  | rest => (false, rest)

/-- The power of ten that ends a float; nothing stands for the power zero. -/
def power? : List Char → Option Int
  | [] => some 0
  | letter :: rest =>
      if letter = 'e' || letter = 'E' then
        let (negative, rest) := sign rest
        match digits rest with
        | (value :: values, []) =>
            let magnitude : Nat := ofDigits (value :: values)
            some (if negative then -magnitude else magnitude)
        | _ => none
      else
        none

/-- The magnitude of a float written with digits. -/
def decimal? (chars : List Char) : Option Float :=
  let (whole, rest) := digits chars
  let (places, rest) :=
    match rest with
    | '.' :: rest => digits rest
    | _ => ([], rest)
  if whole.isEmpty && places.isEmpty then none
  else
    (power? rest).map fun power =>
      nearestFloat (ofDigits (whole ++ places)) (power - places.length)

/-- The float that a text stands for. -/
def float? (text : String) : Option Float :=
  let (negative, rest) := sign (Text.trimBlanks text.toList)
  let word := String.ofList (rest.map Char.toLower)
  if word = "inf" || word = "infinity" then
    some (signed negative (Float.ofBits 0x7ff0000000000000))
  else if word = "nan" then
    some (Float.ofBits 0x7ff8000000000000)
  else
    (decimal? rest).map (signed negative)

/-- The integer that a text stands for. -/
def int? (text : String) : Option Int :=
  let (negative, rest) := sign (Text.trimBlanks text.toList)
  match digits rest with
  | (value :: values, []) =>
      let magnitude : Nat := ofDigits (value :: values)
      some (if negative then -magnitude else magnitude)
  | _ => none

end Reading

end DecisionTree.Decimal
