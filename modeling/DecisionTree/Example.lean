import DecisionTree.Histogram
import DecisionTree.Position

/-!
# Sparse examples and their dense rows

An example stores its features as ids with values; features it does not list are
zero.  Ids are 64-bit integers in strictly ascending order.  `Example.row` spreads
an example over the range of all features and is the place where the ids are
checked: first that there is one value for each id, then that the ids ascend, then
that they lie in the range.

The order of the ids is read off the differences of neighbours, taken modulo
`2 ^ 64`.
-/

namespace DecisionTree

/-- A weighted training example with sparse features. -/
structure Example (α : Type) where
  ids : List Int
  values : List α
  label : Int
  weight : α

namespace Example

variable {α : Type} [Scalar α]

/-- The difference of two ids as a signed 64-bit integer. -/
def stepBetween (previous next : Int) : Int :=
  (next - previous).bmod (1 <<< 64)

/-- The neighbouring ids with the difference from the first to the second. -/
def steps (ids : List Int) : List (Int × Int × Int) :=
  List.zipWith (fun previous next => (previous, next, stepBetween previous next)) ids (ids.drop 1)

/-- The rules that ids have to keep, in the order in which they are reported. -/
def checkIds (ids : List Int) (valueCount : Nat) (width : Int) : Except Error Unit := do
  if ids.length ≠ valueCount then
    throw .idAndValueCountsDiffer
  if let some (previous, next, _) := (steps ids).find? (·.2.2 < 0) then
    throw (.idsNotAscending next previous)
  if let some (previous, _, _) := (steps ids).find? (·.2.2 = 0) then
    throw (.idRepeated previous)
  match ids.head?, ids.getLast? with
  | some first, some last =>
      if first < 0 ∨ width ≤ last then throw (.idsOutsideRange width ids)
  | _, _ => pure ()

/-- Writes values at ids, in order; `none` if some id is outside the row. -/
def write? (row : List α) (ids : List Int) (values : List α) : Option (List α) :=
  (ids.mapM (Position.resolve row.length)).map fun places =>
    (places.zip values).foldl (fun row (place, value) => row.set place value) row

/-- Spreads an example over an existing row.  The row afterwards is the second
result: untouched if the ids are refused, cleared if only the writing fails. -/
def fill (row : List α) (ids : List Int) (values : List α) (width : Int) :
    Except Error (List α) × List α :=
  match checkIds ids values.length width with
  | .error error => (.error error, row)
  | .ok () =>
      let cleared := row.map fun _ => (0 : α)
      match write? cleared ids values with
      | some filled => (.ok filled, filled)
      | none => (.error .outOfRange, cleared)

/-- The dense row of an example over features `0 … width - 1`. -/
def row (ids : List Int) (values : List α) (width : Int) : Except Error (List α) := do
  checkIds ids values.length width
  if width < 0 then throw .badValue
  match write? (List.replicate width.toNat 0) ids values with
  | some filled => pure filled
  | none => throw .outOfRange

end Example

end DecisionTree
