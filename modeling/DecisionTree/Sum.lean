import DecisionTree.Scalar

/-!
# Summation in a fixed order

A float sum depends on the order of its additions, and scores that differ in
the last bit decide ties, so the order is part of the definition.  Short lists
are added from the left.  From eight elements on, eight running sums take the
elements in turn and are joined in pairs.  Past 128 elements the list is cut
near the middle, at a multiple of eight, and the two sums are added.
-/

namespace DecisionTree.Scalar

variable {α : Type} [Scalar α]

/-- Adds whole rounds of eight elements to eight running sums, joins the sums in
pairs and adds what is left over from the left. -/
def sumEights (a b c d e f g h : α) : List α → α
  | a' :: b' :: c' :: d' :: e' :: f' :: g' :: h' :: rest =>
      sumEights (a + a') (b + b') (c + c') (d + d') (e + e') (f + f') (g + g') (h + h') rest
  | rest =>
      rest.foldl (· + ·) (((a + b) + (c + d)) + ((e + f) + (g + h)))

/-- The sum of at most 128 elements. -/
def sumBlock : List α → α
  | a :: b :: c :: d :: e :: f :: g :: h :: rest => sumEights a b c d e f g h rest
  | first :: rest => rest.foldl (· + ·) first
  | [] => 0

/-- Where a list of more than 128 elements is cut. -/
def cut (length : Nat) : Nat :=
  length / 2 - length / 2 % 8

theorem cut_pos {length : Nat} (long : 128 < length) : 0 < cut length := by
  unfold cut; omega

theorem cut_lt {length : Nat} (long : 128 < length) : cut length < length := by
  unfold cut; omega

/-- The sum of a list of any length, cut into blocks of at most 128 elements. -/
def sumBlocks (values : List α) : α :=
  if _ : 128 < values.length then
    sumBlocks (values.take (cut values.length)) + sumBlocks (values.drop (cut values.length))
  else
    sumBlock values
termination_by values.length
decreasing_by
  · have := cut_lt ‹128 < values.length›
    simp only [List.length_take]; omega
  · have := cut_pos ‹128 < values.length›
    simp only [List.length_drop]; omega

/-- The sum of a list, added to zero, so that a list of negative zeros sums to
positive zero. -/
def sum (values : List α) : α :=
  0 + sumBlocks values

end DecisionTree.Scalar
