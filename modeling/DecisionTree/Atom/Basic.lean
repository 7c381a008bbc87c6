import DecisionTree.Binary64
import DecisionTree.Decimal.Reading
import DecisionTree.Decimal.Shortest
import DecisionTree.Text.Quoted

/-!
# Atoms: the values that labels are made of

A label is null, a truth value, an integer, a float or a text.  Truth values count
as the integers 0 and 1, and numbers are equal if their exact values are, so that
`1`, `true` and `1.0` are one label.  Texts never equal numbers, and a float that
is not a number equals nothing.
-/

namespace DecisionTree

/-- A single value of no further structure. -/
inductive Atom where
  | null
  | bool (value : Bool)
  | int (value : Int)
  | float (value : Float)
  | text (value : String)
  deriving Inhabited

/-- Labels are atoms. -/
abbrev Label := Atom

namespace Atom

/-- The integer that a truth value counts as. -/
def ofTruth (value : Bool) : Int :=
  if value then 1 else 0

/-- The integer that an atom counts as, if it is no float. -/
def integer? : Atom → Option Int
  | .bool value => some (ofTruth value)
  | .int value => some value
  | _ => none

/-- Equality of exact values. -/
def equal : Atom → Atom → Bool
  | .null, .null => true
  | .text left, .text right => left == right
  | .float left, .float right => left == right
  | .float left, right =>
      right.integer?.any fun value => (Binary64.ofFloat left).toInt? == some value
  | left, .float right =>
      left.integer?.any fun value => (Binary64.ofFloat right).toInt? == some value
  | left, right =>
      match left.integer?, right.integer? with
      | some left, some right => left == right
      | _, _ => false

/-- An atom as plain text: a text is itself, and floats are as short as they can
be read back. -/
def plain : Atom → String
  | .null => "None"
  | .bool true => "True"
  | .bool false => "False"
  | .int value => toString value
  | .float value => Decimal.Shortest.text value
  | .text value => value

/-- An atom as it is shown inside messages: texts are quoted. -/
def quoted : Atom → String
  | .text value => Text.Quoted.text value
  | value => value.plain

end Atom

end DecisionTree
