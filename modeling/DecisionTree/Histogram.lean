import DecisionTree.Error
import DecisionTree.Sum

/-!
# Weighted label histograms

A histogram holds one total weight per label id.  Weights are added one by one, in
the order of the examples they belong to.
-/

namespace DecisionTree.Histogram

variable {α : Type} [Scalar α]

/-- The empty histogram over a number of labels. -/
def zero (size : Nat) : List α :=
  List.replicate size 0

/-- Adds one weight to the total of its label. -/
def add (counts : List α) (item : Nat × α) : List α :=
  counts.modify item.1 (· + item.2)

/-- The histogram of labelled weights; every label has to be below `size`. -/
def tally (size : Nat) (items : List (Nat × α)) : List α :=
  items.foldl add (zero size)

/-- The histogram of labelled weights over at least `minimum` labels, with as many
more as the greatest label asks for.  A negative label is refused. -/
def ofItems (minimum : Nat) (items : List (Int × α)) : Except Error (List α) :=
  if items.any (·.1 < 0) then .error .badValue
  else
    let items := items.map fun (label, weight) => (label.toNat, weight)
    .ok (tally (items.foldl (fun size (label, _) => max size (label + 1)) minimum) items)

/-- Label by label sum. -/
def plus (left right : List α) : List α :=
  List.zipWith (· + ·) left right

/-- Label by label difference. -/
def minus (left right : List α) : List α :=
  List.zipWith (· - ·) left right

@[simp] theorem length_zero (size : Nat) : (zero size : List α).length = size :=
  List.length_replicate

@[simp] theorem length_plus (left right : List α) :
    (plus left right).length = min left.length right.length :=
  List.length_zipWith

@[simp] theorem length_add (counts : List α) (item : Nat × α) :
    (add counts item).length = counts.length := by
  simp [add]

@[simp] theorem length_tally (size : Nat) (items : List (Nat × α)) :
    (tally size items).length = size := by
  suffices ∀ counts : List α, (items.foldl add counts).length = counts.length by
    simp [tally, this]
  induction items with
  | nil => simp
  | cons item rest ih => simp [ih]

end DecisionTree.Histogram
