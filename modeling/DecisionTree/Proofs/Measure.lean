import DecisionTree.Proofs.Exact

/-!
# Measures that vanish on pure histograms

A histogram is pure if at most one label has positive weight.  The Gini impurity of a pure histogram
is zero in exact arithmetic, and so is the entropy: a single label has all the weight, so its
proportion is one.
-/

namespace DecisionTree

variable {K : Type} [Field K] [LinearOrder K]

/-- The number of labels with positive weight. -/
def Histogram.support (counts : List K) : Nat :=
  counts.countP fun count => 0 < count

/-- A measure is zero for weights of which at most one is positive. -/
def Measure.VanishesOnPure (measure : Measure K) : Prop :=
  ∀ counts : List K, (∀ count ∈ counts, 0 ≤ count) → Histogram.support counts ≤ 1 →
    measure.impurity counts = 0

/-- If at most one of some weights is positive but they have a positive sum, then one of them is the
sum, and all others are zero. -/
theorem Histogram.exists_of_support_le_one {counts : List K} (nonneg : ∀ count ∈ counts, 0 ≤ count)
    (pure : support counts ≤ 1) (positive : 0 < counts.sum) :
    ∃ before after, counts = before ++ counts.sum :: after ∧
      (∀ count ∈ before, count = 0) ∧ ∀ count ∈ after, count = 0 := by
  obtain ⟨count, member, heavy⟩ : ∃ count ∈ counts, 0 < count := by
    by_contra none
    push Not at none
    have zero : counts.sum = 0 :=
      List.sum_eq_zero fun count member => le_antisymm (none count member) (nonneg count member)
    exact lt_irrefl _ (zero ▸ positive)
  obtain ⟨before, after, whole⟩ := List.append_of_mem member
  have others : before.countP (fun count => 0 < count) = 0 ∧
      after.countP (fun count => 0 < count) = 0 := by
    rw [support, whole, List.countP_append, List.countP_cons_of_pos (by simpa using heavy)] at pure
    omega
  have zero : ∀ side : List K, (∀ count ∈ side, count ∈ counts) →
      side.countP (fun count => 0 < count) = 0 → ∀ count ∈ side, count = 0 := by
    intro side inside none count member
    have light := List.countP_eq_zero.mp none count member
    simp only [decide_eq_true_eq, not_lt] at light
    exact le_antisymm light (nonneg count (inside count member))
  have beforeZero := zero before (fun other otherMember => by simp [whole, otherMember]) others.1
  have afterZero := zero after (fun other otherMember => by simp [whole, otherMember]) others.2
  have sum : counts.sum = count := by
    rw [whole, List.sum_append, List.sum_cons, List.sum_eq_zero beforeZero,
      List.sum_eq_zero afterZero, zero_add, add_zero]
  exact ⟨before, after, sum.symm ▸ whole, beforeZero, afterZero⟩

namespace Measure

/-- What is applied to proportions vanishes on pure weights if it does for a single proportion of
one among zeros. -/
theorem ofProportions_eq_zero {value : List K → K}
    (single : ∀ before after, (∀ share ∈ before, share = 0) → (∀ share ∈ after, share = 0) →
      value (before ++ 1 :: after) = 0)
    {counts : List K} (nonneg : ∀ count ∈ counts, 0 ≤ count)
    (pure : Histogram.support counts ≤ 1) : ofProportions value counts = 0 := by
  simp only [ofProportions, Exact.sum_eq, Exact.le_iff]
  split
  · rfl
  next positive =>
    rw [not_le] at positive
    obtain ⟨before, after, whole, beforeZero, afterZero⟩ :=
      Histogram.exists_of_support_le_one nonneg pure positive
    have shares : counts.map (· / counts.sum) =
        before.map (· / counts.sum) ++ 1 :: after.map (· / counts.sum) := by
      refine (congrArg (List.map (· / counts.sum)) whole).trans ?_
      rw [List.map_append, List.map_cons, div_self (ne_of_gt positive)]
    have zero : ∀ side : List K, (∀ count ∈ side, count = 0) →
        ∀ share ∈ side.map (· / counts.sum), share = 0 := by
      intro side sideZero share member
      obtain ⟨count, countMember, rfl⟩ := List.mem_map.mp member
      rw [sideZero count countMember, zero_div]
    rw [shares]
    exact single _ _ (zero before beforeZero) (zero after afterZero)

theorem gini_vanishesOnPure : (gini : Measure K).VanishesOnPure := by
  intro counts nonneg pure
  simp only [gini, giniImpurity]
  refine ofProportions_eq_zero ?_ nonneg pure
  intro before after beforeZero afterZero
  have squares : ∀ side : List K, (∀ share ∈ side, share = 0) →
      (side.map fun share => share * share).sum = 0 := by
    intro side sideZero
    refine List.sum_eq_zero fun square member => ?_
    obtain ⟨share, shareMember, rfl⟩ := List.mem_map.mp member
    rw [sideZero share shareMember, zero_mul]
  rw [Exact.sum_eq, List.map_append, List.map_cons, List.sum_append, List.sum_cons,
    squares before beforeZero, squares after afterZero, zero_add, add_zero, mul_one]
  exact sub_eq_zero.mpr Nat.cast_one

/-- The entropy vanishes if the logarithm of one does. -/
theorem entropy_vanishesOnPure [IsStrictOrderedRing K] [BinaryLogarithm K]
    (log_one : BinaryLogarithm.log2 (1 : K) = 0) : (entropy : Measure K).VanishesOnPure := by
  intro counts nonneg pure
  simp only [entropy, entropyImpurity]
  refine ofProportions_eq_zero ?_ nonneg pure
  intro before after beforeZero afterZero
  have none : ∀ side : List K, (∀ share ∈ side, share = 0) → side.filter (Scalar.lt 0) = [] := by
    intro side sideZero
    refine List.filter_eq_nil_iff.mpr fun share member => ?_
    rw [sideZero share member, Exact.lt_iff]
    exact lt_irrefl _
  rw [List.filter_append, none before beforeZero, List.nil_append,
    List.filter_cons_of_pos (Exact.lt_iff.mpr zero_lt_one), none after afterZero, Exact.sum_eq,
    List.map_cons, List.map_nil, List.sum_singleton, log_one, mul_zero, neg_zero]

theorem entropy_real_vanishesOnPure : (entropy : Measure ℝ).VanishesOnPure :=
  entropy_vanishesOnPure Real.logb_one

end Measure

end DecisionTree
