import Mathlib.Tactic.FieldSimp
import DecisionTree.Proofs.Growth.Optimum

/-!
# Merging two sides is never rewarded

In exact arithmetic the weighted Gini impurity of two histograms together is what the two weigh by
themselves and a sum of squares, one for each label (`Measure.weighted_gini_plus`).  The squares
vanish exactly if the labels have the same proportions on both sides.  So a boundary never scores
above the impurity of its node, and it scores below exactly if both sides have weight and their
proportions differ (`gini_never_rewards_merging`).
-/

namespace DecisionTree

variable {K : Type} [Field K] [LinearOrder K] {counts less greater : List K}

namespace Histogram

/-- Each label has the same proportion in two histograms; one without weight goes with all. -/
def Proportional (less greater : List K) : Prop :=
  ∀ (label : Nat) (count other : K), less[label]? = some count → greater[label]? = some other →
    count * greater.sum = other * less.sum

/-- Two histograms without negative weights that add up to a third one. -/
structure Divide (less greater whole : List K) : Prop where
  length_eq : less.length = greater.length
  less_nonneg : ∀ count ∈ less, 0 ≤ count
  greater_nonneg : ∀ count ∈ greater, 0 ≤ count
  plus_eq : plus less greater = whole

/-- The sum of the squared weights. -/
def squares (counts : List K) : K :=
  (counts.map fun count => count * count).sum

/-- The sum of the products of the two weights of each label. -/
def products (less greater : List K) : K :=
  (List.zipWith (fun count other => count * other) less greater).sum

/-- How far two histograms are from being proportional. -/
def disparity (less greater : List K) : K :=
  (List.zipWith (fun count other => (count * greater.sum - other * less.sum) ^ 2) less greater).sum

theorem products_comm (less greater : List K) : products less greater = products greater less := by
  rw [products, products, List.zipWith_comm]
  simp only [mul_comm]

/-- What two histograms weigh more together than by themselves. -/
def excess (less greater : List K) : K :=
  disparity less greater / (less.sum * greater.sum * (less.sum + greater.sum))

/-- The squares of combined weights in terms of those of the two histograms. -/
theorem sum_sq_combined (length : less.length = greater.length) (a b : K) :
    (List.zipWith (fun count other => (count * b + other * a) ^ 2) less greater).sum =
      b ^ 2 * squares less + 2 * a * b * products less greater + a ^ 2 * squares greater := by
  induction less generalizing greater with
  | nil =>
      obtain rfl := List.eq_nil_of_length_eq_zero length.symm
      simp [squares, products]
  | cons count rest ih =>
      obtain ⟨other, others, rfl⟩ := List.exists_cons_of_length_eq_add_one length.symm
      have tail := ih (Nat.succ.inj length)
      simp only [squares, products, List.zipWith_cons_cons, List.map_cons, List.sum_cons] at tail ⊢
      rw [tail]
      ring

theorem squares_plus (length : less.length = greater.length) :
    squares (plus less greater) = squares less + 2 * products less greater + squares greater := by
  have combined := sum_sq_combined length 1 1
  simp only [mul_one, one_pow, one_mul] at combined
  rw [← combined, squares, plus, List.map_zipWith]
  simp only [sq]

theorem disparity_eq (length : less.length = greater.length) :
    disparity less greater = greater.sum ^ 2 * squares less -
      2 * less.sum * greater.sum * products less greater + less.sum ^ 2 * squares greater := by
  have combined := sum_sq_combined length (-less.sum) greater.sum
  simp only [mul_neg, ← sub_eq_add_neg] at combined
  rw [disparity, combined]
  ring

variable [IsStrictOrderedRing K]

/-- Without weight there are neither squares nor products. -/
theorem of_weightless (nonneg : ∀ count ∈ less, 0 ≤ count) (weightless : less.sum = 0)
    (greater : List K) : squares less = 0 ∧ products less greater = 0 := by
  have zero : ∀ count ∈ less, count = 0 := fun _ member =>
    List.all_zero_of_le_zero_le_of_sum_eq_zero nonneg weightless member
  constructor
  · refine List.sum_eq_zero fun square member => ?_
    obtain ⟨count, countMember, rfl⟩ := List.mem_map.mp member
    rw [zero count countMember, zero_mul]
  · refine List.sum_eq_zero fun product member => ?_
    obtain ⟨label, inside, rfl⟩ := List.getElem_of_mem member
    rw [List.getElem_zipWith, zero _ (List.getElem_mem _), zero_mul]

theorem squares_nonneg (less greater : List K) :
    ∀ square ∈ List.zipWith (fun count other => (count * greater.sum - other * less.sum) ^ 2) less
      greater, 0 ≤ square := by
  intro square member
  obtain ⟨label, inside, rfl⟩ := List.getElem_of_mem member
  rw [List.getElem_zipWith]
  exact sq_nonneg _

theorem disparity_nonneg (less greater : List K) : 0 ≤ disparity less greater :=
  List.sum_nonneg (squares_nonneg less greater)

/-- A sum of squares vanishes only if all of them do. -/
theorem disparity_eq_zero : disparity less greater = 0 ↔ Proportional less greater := by
  constructor
  · intro vanishes label count other countFound otherFound
    have square : (List.zipWith (fun count other => (count * greater.sum - other * less.sum) ^ 2)
        less greater)[label]? = some ((count * greater.sum - other * less.sum) ^ 2) := by
      rw [List.getElem?_zipWith, countFound, otherFound]
    have zero := List.all_zero_of_le_zero_le_of_sum_eq_zero (squares_nonneg less greater) vanishes
      (List.mem_of_getElem? square)
    exact sub_eq_zero.mp (pow_eq_zero_iff two_ne_zero |>.mp zero)
  · intro proportional
    refine List.sum_eq_zero fun square member => ?_
    obtain ⟨label, inside, rfl⟩ := List.getElem_of_mem member
    rw [List.length_zipWith, Nat.lt_min] at inside
    have same := proportional label _ _ (List.getElem?_eq_getElem inside.1)
      (List.getElem?_eq_getElem inside.2)
    rw [List.getElem_zipWith, same, sub_self, zero_pow two_ne_zero]

omit [IsStrictOrderedRing K] in
/-- Two histograms with weight are proportional exactly if they have the same shares. -/
theorem proportional_iff_shares (length : less.length = greater.length) (lessHeavy : 0 < less.sum)
    (greaterHeavy : 0 < greater.sum) : Proportional less greater ↔
      less.map (· / less.sum) = greater.map (· / greater.sum) := by
  have same : ∀ count other : K,
      count / less.sum = other / greater.sum ↔ count * greater.sum = other * less.sum :=
    fun count other => div_eq_div_iff lessHeavy.ne' greaterHeavy.ne'
  constructor
  · intro proportional
    refine List.ext_getElem (by rw [List.length_map, List.length_map, length]) ?_
    intro label isLess isGreater
    rw [List.length_map] at isLess isGreater
    rw [List.getElem_map, List.getElem_map, same]
    exact proportional label _ _ (List.getElem?_eq_getElem isLess)
      (List.getElem?_eq_getElem isGreater)
  · intro shares label count other countFound otherFound
    have own := congrArg (·[label]?) shares
    simp only [List.getElem?_map, countFound, otherFound, Option.map_some] at own
    exact (same count other).mp (Option.some.inj own)

theorem excess_nonneg (lessNonneg : ∀ count ∈ less, 0 ≤ count)
    (greaterNonneg : ∀ count ∈ greater, 0 ≤ count) : 0 ≤ excess less greater := by
  have lessSum := List.sum_nonneg lessNonneg
  have greaterSum := List.sum_nonneg greaterNonneg
  exact div_nonneg (disparity_nonneg _ _)
    (mul_nonneg (mul_nonneg lessSum greaterSum) (add_nonneg lessSum greaterSum))

/-- There is no excess exactly if the two histograms are proportional. -/
theorem excess_eq_zero (lessNonneg : ∀ count ∈ less, 0 ≤ count)
    (greaterNonneg : ∀ count ∈ greater, 0 ≤ count) :
    excess less greater = 0 ↔ Proportional less greater := by
  rw [excess, div_eq_zero_iff, disparity_eq_zero, or_iff_left_iff_imp]
  intro none label count other countFound otherFound
  have lessSum := List.sum_nonneg lessNonneg
  have greaterSum := List.sum_nonneg greaterNonneg
  have zero : ∀ {counts : List K} {count : K}, (∀ count ∈ counts, 0 ≤ count) → counts.sum = 0 →
      counts[label]? = some count → count = 0 := fun nonneg weightless found =>
    List.all_zero_of_le_zero_le_of_sum_eq_zero nonneg weightless (List.mem_of_getElem? found)
  -- one of the two has no weight
  have light : less.sum = 0 ∨ greater.sum = 0 := by
    rcases mul_eq_zero.mp none with either | both
    · exact mul_eq_zero.mp either
    · exact .inl (by linarith)
  rcases light with light | light
  · rw [light, zero lessNonneg light countFound, zero_mul, mul_zero]
  · rw [light, zero greaterNonneg light otherFound, zero_mul, mul_zero]

/-- There is an excess exactly if both histograms have weight and their shares differ. -/
theorem excess_pos (length : less.length = greater.length) (lessNonneg : ∀ count ∈ less, 0 ≤ count)
    (greaterNonneg : ∀ count ∈ greater, 0 ≤ count) : 0 < excess less greater ↔
      0 < less.sum ∧ 0 < greater.sum ∧ less.map (· / less.sum) ≠ greater.map (· / greater.sum) := by
  rcases (List.sum_nonneg lessNonneg).eq_or_lt with light | lessHeavy
  · simp [excess, ← light]
  rcases (List.sum_nonneg greaterNonneg).eq_or_lt with light | greaterHeavy
  · simp [excess, ← light]
  rw [(excess_nonneg lessNonneg greaterNonneg).lt_iff_ne', ne_eq,
    excess_eq_zero lessNonneg greaterNonneg,
    proportional_iff_shares length lessHeavy greaterHeavy, and_iff_right lessHeavy,
    and_iff_right greaterHeavy]

end Histogram

namespace Measure

open Histogram

variable [IsStrictOrderedRing K]

/-- What a histogram weighs: its weight without the squares, divided by the weight. -/
theorem weighted_gini (nonneg : ∀ count ∈ counts, 0 ≤ count) :
    gini.weighted counts = counts.sum - squares counts / counts.sum := by
  simp only [weighted, gini, giniImpurity, ofProportions, Exact.sum_eq, Exact.le_iff]
  rcases (List.sum_nonneg nonneg).eq_or_lt with weightless | heavy
  · rw [if_pos weightless.ge, ← weightless, div_zero, sub_zero]
    exact zero_mul _
  · rw [if_neg (not_le_of_gt heavy)]
    have one : (Scalar.ofNat 1 : K) = 1 := Nat.cast_one
    have shares : (counts.map (· / counts.sum)).map (fun share => share * share) =
        counts.map fun count => count * count * (counts.sum ^ 2)⁻¹ := by
      rw [List.map_map]
      refine List.map_congr_left fun count _ => ?_
      simp only [Function.comp_apply]
      field_simp
    rw [one, shares, List.sum_map_mul_right, ← squares]
    field_simp

/-- Two histograms together weigh what the two weigh by themselves, and their excess. -/
theorem weighted_gini_plus (length : less.length = greater.length)
    (lessNonneg : ∀ count ∈ less, 0 ≤ count) (greaterNonneg : ∀ count ∈ greater, 0 ≤ count) :
    gini.weighted (plus less greater) =
      gini.weighted less + gini.weighted greater + excess less greater := by
  have nonneg : ∀ count ∈ plus less greater, 0 ≤ count := by
    intro count member
    obtain ⟨label, inside, rfl⟩ := List.getElem_of_mem member
    simp only [plus, List.getElem_zipWith]
    exact add_nonneg (lessNonneg _ (List.getElem_mem _)) (greaterNonneg _ (List.getElem_mem _))
  rw [weighted_gini nonneg, weighted_gini lessNonneg, weighted_gini greaterNonneg,
    sum_plus length, squares_plus length, excess, disparity_eq length]
  rcases (List.sum_nonneg lessNonneg).eq_or_lt with lessLight | lessHeavy
  · obtain ⟨squares, products⟩ := of_weightless lessNonneg lessLight.symm greater
    simp [← lessLight, squares, products]
  rcases (List.sum_nonneg greaterNonneg).eq_or_lt with greaterLight | greaterHeavy
  · obtain ⟨squares, products⟩ := of_weightless greaterNonneg greaterLight.symm less
    rw [products_comm] at products
    simp [← greaterLight, squares, products]
  · have total := (add_pos lessHeavy greaterHeavy).ne'
    have lessHeavy := lessHeavy.ne'
    have greaterHeavy := greaterHeavy.ne'
    field_simp
    ring

end Measure

namespace Growth

open Histogram DecisionTree.Measure Node

variable [IsStrictOrderedRing K] {node : Node K}

/-- If two histograms divide that of a node, the node weighs their excess more than the two. -/
theorem Node.weighs (divide : Divide less greater node.counts)
    (measured : node.impurity = gini.impurity node.counts) :
    node.weightSum = less.sum + greater.sum ∧ node.impurity * node.weightSum =
      gini.weighted less + gini.weighted greater + excess less greater := by
  have whole := weighted_gini_plus divide.length_eq divide.less_nonneg divide.greater_nonneg
  rw [divide.plus_eq] at whole
  constructor
  · rw [weightSum, Exact.sum_eq, ← divide.plus_eq, sum_plus divide.length_eq]
  · rw [← whole, measured]
    rfl

/-- The two sides of a node never score above its impurity, and below it exactly if both have weight
and their shares differ. -/
theorem Node.score_le (divide : Divide less greater node.counts)
    (measured : node.impurity = gini.impurity node.counts) (heavy : 0 < node.weightSum) :
    (gini.weighted less + gini.weighted greater) / node.weightSum ≤ node.impurity ∧
      ((gini.weighted less + gini.weighted greater) / node.weightSum < node.impurity ↔
        0 < less.sum ∧ 0 < greater.sum ∧
          less.map (· / less.sum) ≠ greater.map (· / greater.sum)) := by
  obtain ⟨-, whole⟩ := Node.weighs divide measured
  rw [div_le_iff₀ heavy, div_lt_iff₀ heavy, whole, lt_add_iff_pos_right,
    excess_pos divide.length_eq divide.less_nonneg divide.greater_nonneg]
  exact ⟨le_add_of_nonneg_right (excess_nonneg divide.less_nonneg divide.greater_nonneg), Iff.rfl⟩

/-- The histograms beside every boundary of a node that holds examples without negative weights
divide the histogram of the node. -/
theorem Node.Over.divide_boundary {population : Population K} {columns : List (Column K)}
    {column : Column K} {boundary : Boundary K} (covers : node.Over population columns)
    (nonneg : ∀ weight ∈ population.targets.weights, 0 ≤ weight) (member : column ∈ columns)
    (isBoundary : boundary ∈ boundaries column node.counts) :
    Divide boundary.less boundary.greater node.counts := by
  obtain ⟨feature, found⟩ := List.getElem?_of_mem member
  rw [covers.counts_eq] at isBoundary ⊢
  obtain ⟨consecutive, lessEq, greaterEq⟩ := (covers.groups feature column found).sides isBoundary
  have counts := Targets.tally_nonneg (labelled_nonneg nonneg)
  rw [lessEq, greaterEq]
  refine ⟨by rw [Targets.length_tally, Targets.length_tally], counts _, counts _, ?_⟩
  rw [Targets.plus_tally, Targets.tally_perm consecutive.perm_sides]

/-- A search that has found nothing yet chooses a boundary exactly if neither side counts as pure
and the shares of the labels differ. -/
theorem Node.chooses_iff (divide : Divide less greater node.counts)
    (measured : node.impurity = gini.impurity node.counts) (heavy : 0 < node.weightSum) :
    (Best.none node).improvedBy (score? gini node.weightSum less greater) = true ↔
      pureBound < gini.weighted less ∧ pureBound < gini.weighted greater ∧
        less.map (· / less.sum) ≠ greater.map (· / greater.sum) := by
  have below := (Node.score_le divide measured heavy).2
  constructor
  · intro chosen
    cases scored : score? gini node.weightSum less greater with
    | none =>
        rw [scored] at chosen
        cases chosen
    | some score =>
        obtain ⟨lessMixed, greaterMixed, rfl⟩ := score?_eq_some.mp scored
        rw [scored] at chosen
        exact ⟨Exact.lt_iff.mp lessMixed, Exact.lt_iff.mp greaterMixed,
          (below.mp (Exact.lt_iff.mp chosen)).2.2⟩
  · rintro ⟨lessMixed, greaterMixed, differ⟩
    have scored : score? gini node.weightSum less greater =
        some ((gini.weighted less + gini.weighted greater) / node.weightSum) :=
      score?_eq_some.mpr ⟨Exact.lt_iff.mpr lessMixed, Exact.lt_iff.mpr greaterMixed, rfl⟩
    have lessHeavy := weight_pos divide.less_nonneg lessMixed
    have greaterHeavy := weight_pos divide.greater_nonneg greaterMixed
    rw [Exact.sum_eq] at lessHeavy greaterHeavy
    rw [scored]
    exact Exact.lt_iff.mpr (below.mpr ⟨lessHeavy, greaterHeavy, differ⟩)

/-- Two histograms never weigh more than their sum, and the same exactly if they are proportional.
So the sides of a boundary, whose histograms divide that of the node, never score above its
impurity; they score below it exactly if both have weight and the shares of their labels differ,
and a search can choose the boundary if also neither side counts as pure. -/
theorem gini_never_rewards_merging :
    (∀ less greater : List K, less.length = greater.length → (∀ count ∈ less, 0 ≤ count) →
      (∀ count ∈ greater, 0 ≤ count) →
        gini.weighted less + gini.weighted greater ≤ gini.weighted (plus less greater) ∧
        (gini.weighted less + gini.weighted greater = gini.weighted (plus less greater) ↔
          Proportional less greater)) ∧
    (∀ (node : Node K) (less greater : List K), node.impurity = gini.impurity node.counts →
      0 < node.weightSum → Divide less greater node.counts →
        (gini.weighted less + gini.weighted greater) / node.weightSum ≤ node.impurity ∧
        ((gini.weighted less + gini.weighted greater) / node.weightSum < node.impurity ↔
          0 < less.sum ∧ 0 < greater.sum ∧
            less.map (· / less.sum) ≠ greater.map (· / greater.sum)) ∧
        ((Best.none node).improvedBy (score? gini node.weightSum less greater) = true ↔
          pureBound < gini.weighted less ∧ pureBound < gini.weighted greater ∧
            less.map (· / less.sum) ≠ greater.map (· / greater.sum))) ∧
    ∀ (population : Population K) (node : Node K) (columns : List (Column K)),
      node.Over population columns → (∀ weight ∈ population.targets.weights, 0 ≤ weight) →
        ∀ column ∈ columns, ∀ boundary ∈ boundaries column node.counts,
          Divide boundary.less boundary.greater node.counts := by
  refine ⟨fun less greater length lessNonneg greaterNonneg => ?_,
    fun node less greater measured heavy divide => ?_,
    fun population node columns covers nonneg column member boundary isBoundary =>
      covers.divide_boundary nonneg member isBoundary⟩
  · have whole := weighted_gini_plus length lessNonneg greaterNonneg
    rw [whole]
    exact ⟨le_add_of_nonneg_right (excess_nonneg lessNonneg greaterNonneg),
      left_eq_add.trans (excess_eq_zero lessNonneg greaterNonneg)⟩
  · obtain ⟨atMost, below⟩ := Node.score_le divide measured heavy
    exact ⟨atMost, below, Node.chooses_iff divide measured heavy⟩

/-- Both values of the first feature have examples of either label, so cutting between them lowers
the impurity of one half to four ninths. -/
theorem gini_never_rewards_merging_sample :
    Sample.sixNode.impurity = 1 / 2 ∧ 0 < Sample.sixNode.weightSum ∧
    Divide [2, 1] [1, 2] Sample.sixNode.counts ∧
    gini.weighted [2, 1] + gini.weighted [1, 2] ≤ gini.weighted (plus [2, 1] [(1 : ℚ), 2]) ∧
    score? gini Sample.sixNode.weightSum [2, 1] [1, 2] = some (4 / 9) ∧
    (Best.none Sample.sixNode).improvedBy
      (score? gini Sample.sixNode.weightSum [2, 1] [1, 2]) = true := by
  have heavy : 0 < Sample.sixNode.weightSum := by decide +kernel
  have divide : Divide [2, 1] [1, 2] Sample.sixNode.counts := by
    constructor <;> decide +kernel
  obtain ⟨merged, chosen, -⟩ := gini_never_rewards_merging (K := ℚ)
  have choosable := (chosen Sample.sixNode [2, 1] [1, 2] rfl heavy divide).2.2.mpr
    ⟨by decide +kernel, by decide +kernel, by decide +kernel⟩
  exact ⟨by decide +kernel, heavy, divide,
    (merged [2, 1] [1, 2] rfl divide.less_nonneg divide.greater_nonneg).1, by decide +kernel,
    choosable⟩

end Growth

end DecisionTree
