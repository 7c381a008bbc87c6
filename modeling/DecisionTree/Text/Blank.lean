/-!
# Blanks around a number

A number may stand between blanks: the ASCII space and the controls from
tabulation to carriage return, and the white space of Unicode above ASCII.
-/

namespace DecisionTree.Text

/-- The white space above ASCII, as ranges of code points with both ends included. -/
def blankRanges : List (Nat × Nat) := [
  (0x85, 0x85), (0xa0, 0xa0), (0x1680, 0x1680), (0x2000, 0x200a),
  (0x2028, 0x2029), (0x202f, 0x202f), (0x205f, 0x205f), (0x3000, 0x3000)]

/-- Whether a character may surround a number. -/
def isBlank (char : Char) : Bool :=
  char == ' ' || (9 ≤ char.toNat && char.toNat ≤ 13) ||
    blankRanges.any fun (first, last) => first ≤ char.toNat && char.toNat ≤ last

/-- Without the blanks at both ends. -/
def trimBlanks (chars : List Char) : List Char :=
  ((chars.dropWhile isBlank).reverse.dropWhile isBlank).reverse

end DecisionTree.Text
