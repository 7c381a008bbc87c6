import Mathlib.Algebra.BigOperators.Group.List.Basic
import Mathlib.Algebra.Order.Field.Basic
import Mathlib.Algebra.Order.Field.Rat
import Mathlib.Analysis.SpecialFunctions.Log.Base
import Mathlib.Tactic.Linarith
import Mathlib.Tactic.Ring
import DecisionTree.Proofs.Growth.Routing
import DecisionTree.Proofs.Sums

/-!
# Exact arithmetic

In an ordered field nothing is rounded: sums do not depend on the order of their summands, the
histogram of a column is that of its examples, and the midpoint of two values lies strictly
between them.  Over the rational numbers growth can be computed; logarithms need the real ones.
-/

namespace DecisionTree

/-- Exact arithmetic that can be computed. -/
instance : Scalar ℚ where
  zero := 0
  ofNat number := number
  ofDecimal digits places := digits / 10 ^ places
  lt left right := decide (left < right)
  le left right := decide (left ≤ right)
  eq left right := decide (left = right)

noncomputable instance : BinaryLogarithm ℝ where
  log2 := Real.logb 2

variable {K : Type} [Field K] [LinearOrder K]

/-- Exact arithmetic in an ordered field. -/
instance (priority := low) exactScalar : Scalar K where
  zero := 0
  ofNat number := number
  ofDecimal digits places := digits / 10 ^ places
  lt left right := decide (left < right)
  le left right := decide (left ≤ right)
  eq left right := decide (left = right)

namespace Exact

theorem lt_iff {left right : K} : Scalar.lt left right = true ↔ left < right :=
  decide_eq_true_iff

theorem le_iff {left right : K} : Scalar.le left right = true ↔ left ≤ right :=
  decide_eq_true_iff

theorem eq_iff {left right : K} : Scalar.eq left right = true ↔ left = right :=
  decide_eq_true_iff

/-- Every element of a field is a number. -/
theorem isNumber (value : K) : Scalar.isNumber value = true :=
  eq_iff.mpr rfl

instance ordered : Scalar.Ordered K where
  isNumber_of_lt := fun {left right} _ => ⟨isNumber left, isNumber right⟩
  eq_iff := by
    intro left right
    simp only [eq_iff, isNumber, Bool.eq_false_iff, ne_eq, lt_iff, true_and, not_lt]
    constructor
    · rintro rfl
      exact ⟨le_refl _, le_refl _⟩
    · rintro ⟨atLeast, atMost⟩
      exact le_antisymm atMost atLeast
  le_iff := by
    intro left right
    rw [le_iff, lt_iff, eq_iff]
    exact le_iff_lt_or_eq
  lt_trans := by
    intro left middle right less more
    exact lt_iff.mpr (lt_trans (lt_iff.mp less) (lt_iff.mp more))
  lt_or_lt := by
    intro left right middle less _
    rw [lt_iff, lt_iff]
    rcases lt_or_ge left middle with below | above
    · exact .inl below
    · exact .inr (lt_of_le_of_lt above (lt_iff.mp less))

/-- The midpoint separates two values. -/
theorem separates_midpoint [IsStrictOrderedRing K] {lower upper : K}
    (less : Scalar.lt lower upper = true) :
    Scalar.Separates lower (Scalar.midpoint lower upper) upper := by
  have less := lt_iff.mp less
  have half : Scalar.midpoint lower upper = (lower + upper) / 2 := rfl
  rw [Scalar.Separates, lt_iff, lt_iff, half]
  constructor <;> linarith

theorem foldl_add (start : K) (values : List K) :
    values.foldl (· + ·) start = start + values.sum := by
  induction values generalizing start with
  | nil => exact (add_zero start).symm
  | cons value rest ih => rw [List.foldl_cons, ih, List.sum_cons, add_assoc]

/-- In whatever order terms are added, the result is their sum. -/
theorem eq_sum {terms : Multiset K} {total : K} (sums : Sums terms total) :
    total = terms.sum := by
  induction sums with
  | zero => exact Multiset.sum_zero.symm
  | term value => exact (Multiset.sum_singleton value).symm
  | add left right leftIh rightIh =>
      rw [Multiset.sum_add, ← leftIh, ← rightIh]

theorem sum_eq (values : List K) : Scalar.sum values = values.sum :=
  (eq_sum (Sums.of_list values)).trans (Multiset.sum_coe values)

end Exact

namespace Histogram

theorem weightOf_eq (label : Nat) (items : List (Nat × K)) :
    weightOf label 0 items =
      ((items.filter fun item => item.1 == label).map Prod.snd).sum := by
  rw [weightOf, ← List.foldl_map (f := Prod.snd) (g := fun total weight => total + weight),
    Exact.foldl_add]
  exact zero_add _

/-- The order of the items does not matter. -/
theorem tally_perm {items others : List (Nat × K)} (perm : items.Perm others) (size : Nat) :
    tally size items = tally size others := by
  simp only [tally_eq_map, weightOf_eq]
  apply List.map_congr_left
  intro label _
  exact ((perm.filter _).map _).sum_eq

theorem sum_plus {less greater : List K} (length : less.length = greater.length) :
    (plus less greater).sum = less.sum + greater.sum :=
  (List.sum_add_sum_eq_sum_zipWith_of_length_eq less greater length).symm

/-- Histograms of two groups add up to that of both. -/
theorem plus_tally (size : Nat) (items others : List (Nat × K)) :
    plus (tally size items) (tally size others) = tally size (items ++ others) := by
  simp only [tally_eq_map, plus, weightOf_eq]
  apply List.ext_getElem
  · simp
  · intro label inside _
    simp

/-- What is left of the histogram of two groups without the first is that of the second. -/
theorem minus_tally (size : Nat) (items others : List (Nat × K)) :
    minus (tally size (items ++ others)) (tally size items) = tally size others := by
  rw [← plus_tally]
  apply List.ext_getElem
  · simp [minus, plus]
  · intro label inside _
    simp [minus, plus]

/-- The entries of a histogram add up to the total weight. -/
theorem sum_tally {size : Nat} {items : List (Nat × K)} (known : ∀ item ∈ items, item.1 < size) :
    (tally size items).sum = (items.map Prod.snd).sum := by
  rw [← Exact.sum_eq, ← Multiset.sum_coe]
  exact Exact.eq_sum (AddsUp.tally known).sum

end Histogram

namespace Targets

variable {targets : Targets K} {entries : List (Entry K)}

/-- Adding histograms of entries adds their examples. -/
theorem foldl_plus_tally (counted : ∀ entry ∈ entries, entry.counts = targets.tally entry.indices)
    (before : List Int) :
    entries.foldl (fun total entry => Histogram.plus total entry.counts) (targets.tally before) =
      targets.tally (before ++ entries.flatMap Entry.indices) := by
  induction entries generalizing before with
  | nil =>
      rw [List.flatMap_nil, List.append_nil]
      rfl
  | cons entry rest ih =>
      rw [List.foldl_cons, counted entry List.mem_cons_self, tally, tally, Histogram.plus_tally,
        ← List.map_append, List.flatMap_cons, ← List.append_assoc]
      exact ih (fun other member => counted other (List.mem_cons_of_mem _ member)) _

/-- Taking away histograms of entries takes away their examples. -/
theorem foldl_minus_tally (counted : ∀ entry ∈ entries, entry.counts = targets.tally entry.indices)
    (after : List Int) :
    entries.foldl (fun total entry => Histogram.minus total entry.counts)
      (targets.tally (entries.flatMap Entry.indices ++ after)) = targets.tally after := by
  induction entries with
  | nil => rfl
  | cons entry rest ih =>
      rw [List.foldl_cons, counted entry List.mem_cons_self, tally, tally, List.flatMap_cons,
        List.append_assoc, List.map_append, Histogram.minus_tally]
      exact ih fun other member => counted other (List.mem_cons_of_mem _ member)

/-- Histograms of two groups of examples add up to that of all of them. -/
theorem plus_tally (ids others : List Int) :
    Histogram.plus (targets.tally ids) (targets.tally others) = targets.tally (ids ++ others) := by
  rw [tally, tally, Histogram.plus_tally, ← List.map_append]
  rfl

theorem tally_perm {ids others : List Int} (perm : ids.Perm others) :
    targets.tally ids = targets.tally others :=
  Histogram.tally_perm (perm.map _) _

end Targets

namespace Column.Describes

open Growth (lessAt GreaterAt)

variable {targets : Targets K} {value : Int → K} {ids : List Int} {column : Column K} {place : Nat}

/-- The histogram of a column is that of its examples. -/
theorem counts_eq (describes : column.Describes targets value ids) :
    column.counts = targets.tally ids := by
  have counted := Targets.foldl_plus_tally
    (fun entry member => (describes.settled entry member).counted) []
  rw [Column.counts, describes.targets_eq]
  exact counted.trans (Targets.tally_perm describes.perm)

/-- The side below a boundary is scored by the examples of its entries. -/
theorem lessAt_eq (describes : column.Describes targets value ids) {total : List K}
    (length : total.length = targets.labelCount) (place : Nat) :
    lessAt column total place = targets.tally (column.idsUpTo place) := by
  rw [lessAt, length]
  exact Targets.foldl_plus_tally
    (fun entry member => (describes.settled entry (List.mem_of_mem_take member)).counted) []

/-- So is the side above, however a search comes to its histogram. -/
theorem greaterAt_eq (describes : column.Describes targets value ids) {greater : List K}
    (isGreater : GreaterAt column (targets.tally ids) place greater) :
    greater = targets.tally (column.idsAfter place) := by
  have whole : targets.tally ids = targets.tally (column.idsUpTo place ++ column.idsAfter place) :=
    Targets.tally_perm (describes.perm_sides place).symm
  rw [whole] at isGreater
  cases isGreater with
  | oneByOne =>
      exact Targets.foldl_minus_tally
        (fun entry member => (describes.settled entry (List.mem_of_mem_take member)).counted) _
  | atOnce =>
      rw [describes.lessAt_eq (Targets.length_tally _ _), Targets.tally, List.map_append]
      exact Histogram.minus_tally _ _ _

end Column.Describes

end DecisionTree
