import DecisionTree.Error
import DecisionTree.Sorting

/-!
# Labels in one array

An array of labels holds values of one kind.  A list of mixed labels is brought to the
narrowest kind that all of them can be brought to: texts, if there is any; else floats;
else integers.  Integers take 64 bits, one of which is a sign unless they are too large
for that; a list with integers of both sorts is brought to floats.  A list with a null
or with an integer beyond 64 bits is left as it is.

Sorting is by value, texts by code points, and floats that are not numbers come last.
A null cannot be compared, nor a text with a number, so a list of two or more labels
in which these stand side by side cannot be sorted.
-/

namespace DecisionTree

/-- The kinds of arrays.  An array of mixed values holds any value as it is. -/
inductive ArrayKind where
  | truth
  | signed
  | unsigned
  | float
  | text
  | mixed
  deriving DecidableEq, Repr

/-- The narrowest kind that values of two kinds can be brought to.  Integers with a sign
and integers without one can only be brought to floats together. -/
def ArrayKind.join : ArrayKind → ArrayKind → ArrayKind
  | .mixed, _ | _, .mixed => .mixed
  | .text, _ | _, .text => .text
  | .float, _ | _, .float => .float
  | .signed, .unsigned | .unsigned, .signed => .float
  | .unsigned, _ | _, .unsigned => .unsigned
  | .signed, _ | _, .signed => .signed
  | .truth, .truth => .truth

namespace Atom

def isNull : Atom → Bool
  | .null => true
  | _ => false

def isText : Atom → Bool
  | .text _ => true
  | _ => false

/-- An atom as a text in an array, where texts are filled up with NUL, so that a NUL
at the end is no part of the text. -/
def toText (value : Atom) : Atom :=
  .text (String.ofList (value.plain.toList.reverse.dropWhile (· == '\x00')).reverse)

/-- A number as a float. -/
def toFloat : Atom → Atom
  | .int value => .float (Decimal.floatOfInt value)
  | .bool value => .float (Decimal.floatOfInt (ofTruth value))
  | value => value

/-- A truth value as an integer. -/
def toInt : Atom → Atom
  | .bool value => .int (ofTruth value)
  | value => value

/-- The kind of the array of a single atom. -/
def kind : Atom → ArrayKind
  | .null => .mixed
  | .bool _ => .truth
  | .int value =>
      if value < -0x8000000000000000 ∨ 0x10000000000000000 ≤ value then .mixed
      else if value < 0x8000000000000000 then .signed
      else .unsigned
  | .float _ => .float
  | .text _ => .text

/-- The kind of the array of a list of labels. -/
def kindOf (labels : List Label) : ArrayKind :=
  labels.foldr (fun label others => label.kind.join others) .truth

/-- An atom in an array of a kind that it can be brought to. -/
def toKind : ArrayKind → Atom → Atom
  | .truth, value => value
  | .signed, value => value.toInt
  | .unsigned, value => value.toInt
  | .float, value => value.toFloat
  | .text, value => value.toText
  | .mixed, value => value

/-- A list of labels brought to one kind. -/
def uniform (labels : List Label) : List Label :=
  labels.map (toKind (kindOf labels))

/-- Less or equal among texts and among numbers, which are compared by their exact
values. -/
def inOrder : Label → Label → Bool
  | .text left, .text right => !decide (right < left)
  | .float left, .float right => left ≤ right || right.isNaN
  | .float left, right =>
      right.integer?.any fun right =>
        ((Binary64.ofFloat left).compareInt right).any Ordering.isLE
  | left, .float right =>
      left.integer?.any fun left =>
        ((Binary64.ofFloat right).compareInt left).all Ordering.isGE
  | left, right =>
      match left.integer?, right.integer? with
      | some left, some right => left ≤ right
      | _, _ => true

/-- Whether two neighbours of a sorted list are the same label; here floats that are
not numbers count as the same. -/
def sameInArray : Label → Label → Bool
  | .float left, .float right => left == right || (left.isNaN && right.isNaN)
  | left, right => left.equal right

/-- The first of each run of equal labels. -/
def dropRepeats : List Label → List Label
  | [] => []
  | first :: rest =>
      match dropRepeats rest with
      | [] => [first]
      | second :: others =>
          if sameInArray first second then first :: others else first :: second :: others

/-- Whether the labels of an array can be compared with each other: all of them are
texts, or all are numbers. -/
def comparable (labels : List Label) : Bool :=
  labels.all isText || !labels.any fun label => label.isNull || label.isText

/-- The distinct labels of an array in ascending order. -/
def distinct (labels : List Label) : Except Error (List Label) :=
  let values := uniform labels
  if values.length ≤ 1 || comparable values then .ok (dropRepeats (Sorting.sort inOrder values))
  else .error .wrongKind

end Atom

end DecisionTree
