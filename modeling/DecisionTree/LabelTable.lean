import DecisionTree.Atom.Uniform
import DecisionTree.Position

/-!
# The table of labels

Labels are referred to by ids `0 … k - 1`.  A table lists the label of each id; no
two of them are equal.  The order of the table is also the order in which a leaf
breaks ties between labels.
-/

namespace DecisionTree

/-- All labels, in id order. -/
structure LabelTable where
  labels : List Label
  distinct : labels.Pairwise fun left right => left.equal right = false

namespace LabelTable

/-- Takes the labels as they come and refuses a repeated one. -/
def ofLabels (labels : List Label) : Except Error LabelTable :=
  if distinct : labels.Pairwise fun left right => left.equal right = false then
    .ok ⟨labels, distinct⟩
  else
    .error .repeatedLabel

/-- The distinct labels of a list, brought to one kind, in ascending order. -/
def ofOccurrences (labels : List Label) : Except Error LabelTable := do
  ofLabels (← Atom.distinct labels)

def size (table : LabelTable) : Nat :=
  table.labels.length

/-- The id of a label. -/
def idOf? (table : LabelTable) (label : Label) : Option Nat :=
  table.labels.findIdx? (·.equal label)

/-- The label at an id; a negative id counts from the end. -/
def labelOf? (table : LabelTable) (id : Int) : Option Label :=
  Position.get? table.labels id

/-- The ids of given labels. -/
def idsOf (table : LabelTable) (labels : List Label) : Except Error (List Nat) :=
  labels.mapM fun label =>
    match table.idOf? label with
    | some id => .ok id
    | none => .error (.unknownLabel label)

def summary (table : LabelTable) : String :=
  "LabelMap([" ++ ", ".intercalate (table.labels.map Atom.quoted) ++ "])"

end LabelTable

end DecisionTree
