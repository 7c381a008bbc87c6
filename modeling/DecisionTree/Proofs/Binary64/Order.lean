import DecisionTree.Proofs.Order
import Mathlib

/-!
# The order of binary64 numbers

`rank?` gives every float that is a number an integer: its value in units of the least
positive float, and for the infinities a bound that no finite value reaches.  Two numbers
compare like their ranks (`compare_eq`), so the comparisons of floats form an order of the
numbers.
-/

namespace DecisionTree.Binary64

open Float.Model (Format UnpackedFloat)
open Float.Model.UnpackedFloat (Sign)

/-- The largest exponent of a finite float, counted from the least one. -/
def topExponent : Nat := 2045

/-- The rank of positive infinity: the least power of two that overflows, in units of the
least positive float. -/
def infinityRank : Int := 2 ^ (53 + topExponent)

/-- A multiple of a power of two in units of the least positive float. -/
def units (mantissa : Nat) (exponent : Int) : Nat :=
  mantissa * 2 ^ (exponent + 1074).toNat

theorem units_pos {mantissa : Nat} (positive : 0 < mantissa) (exponent : Int) :
    0 < units mantissa exponent :=
  Nat.mul_pos positive (Nat.two_pow_pos _)

/-- The rank of an unpacked float; none if it is not a number. -/
def unpackedRank? : UnpackedFloat → Option Int
  | .notANumber => none
  | .infinity sign => some (sign.apply infinityRank)
  | .zero _ => some 0
  | .finite sign mantissa exponent _ =>
      some (sign.apply (units mantissa exponent))

/-- The rank of a float; none if it is not a number. -/
def rank? (value : Float) : Option Int :=
  unpackedRank? value.toModel.unpack

/-- The form of a finite float: the mantissa is full or the exponent is least. -/
structure Canonical (mantissa : Nat) (exponent : Int) : Prop where
  mantissa_lt : mantissa < 2 ^ 53
  exponent_ge : -1074 ≤ exponent
  full : 2 ^ 52 ≤ mantissa ∨ exponent = -1074

/-- Finite floats are in canonical form with a limited exponent. -/
theorem canonical_of_unpack {value : Float.Model} {sign : Sign} {mantissa : Nat} {exponent : Int}
    {positive : 0 < mantissa}
    (finite : value.unpack = .finite sign mantissa exponent positive) :
    Canonical mantissa exponent ∧ exponent ≤ 971 := by
  unfold Float.Model.unpack UnpackedFloat.unpack at finite
  simp only at finite
  split at finite
  · split at finite <;> cases finite
  next notTop =>
    have top : (UnpackedFloat.unpackExponent value.toBits.toBitVec :
        BitVec Format.binary64.exponentBits).toNat ≠ 2047 := by
      intro same
      exact notTop (BitVec.eq_of_toNat_eq same)
    have bounded := (UnpackedFloat.unpackExponent value.toBits.toBitVec :
        BitVec Format.binary64.exponentBits).isLt
    have bias : ((Format.binary64.exponentBias : Nat) : Int) +
        Format.binary64.mantissaBitsWithoutImplicit = 1075 := by decide
    have bits : (2 : Nat) ^ Format.binary64.exponentBits = 2048 := by decide
    split at finite
    next isZero =>
      split at finite
      · cases finite
      · obtain ⟨-, rfl, rfl⟩ := (UnpackedFloat.finite.injEq ..).mp finite
        have fraction := (UnpackedFloat.unpackMantissa value.toBits.toBitVec :
          BitVec Format.binary64.mantissaBitsWithoutImplicit).isLt
        have width : (2 : Nat) ^ Format.binary64.mantissaBitsWithoutImplicit = 2 ^ 52 := by decide
        have zero := congrArg BitVec.toNat isZero
        simp only [BitVec.toNat_ofNat, Nat.zero_mod] at zero
        rw [zero, bias]
        refine ⟨⟨?_, ?_, .inr ?_⟩, ?_⟩ <;> omega
    next notZero =>
      obtain ⟨-, rfl, rfl⟩ := (UnpackedFloat.finite.injEq ..).mp finite
      have fraction := (UnpackedFloat.unpackMantissa value.toBits.toBitVec :
        BitVec Format.binary64.mantissaBitsWithoutImplicit).isLt
      have width : (2 : Nat) ^ Format.binary64.mantissaBitsWithoutImplicit = 2 ^ 52 := by decide
      have positive : (UnpackedFloat.unpackExponent value.toBits.toBitVec :
          BitVec Format.binary64.exponentBits).toNat ≠ 0 := by
        intro same
        exact notZero (BitVec.eq_of_toNat_eq same)
      have whole : (1#1 ++ (UnpackedFloat.unpackMantissa value.toBits.toBitVec :
          BitVec Format.binary64.mantissaBitsWithoutImplicit)).toNat =
            2 ^ 52 + (UnpackedFloat.unpackMantissa value.toBits.toBitVec :
              BitVec Format.binary64.mantissaBitsWithoutImplicit).toNat := by
        rw [BitVec.toNat_append, ← Nat.shiftLeft_add_eq_or_of_lt fraction]
        rfl
      rw [whole, bias]
      refine ⟨⟨?_, ?_, .inl ?_⟩, ?_⟩ <;> omega

namespace Canonical

variable {mantissa other : Nat} {exponent larger : Int}

/-- A positive canonical float with a larger exponent is larger. -/
theorem lt_of_exponent_lt (canonical : Canonical mantissa exponent)
    (otherCanonical : Canonical other larger) (less : exponent < larger) :
    units mantissa exponent < units other larger := by
  have ge := canonical.exponent_ge
  have full : 2 ^ 52 ≤ other := by
    rcases otherCanonical.full with full | least
    · exact full
    · omega
  obtain ⟨gap, gapEq⟩ : ∃ gap, (larger + 1074).toNat = (exponent + 1074).toNat + 1 + gap :=
    ⟨(larger - exponent - 1).toNat, by omega⟩
  calc units mantissa exponent
      < 2 ^ 53 * 2 ^ (exponent + 1074).toNat :=
        Nat.mul_lt_mul_of_pos_right canonical.mantissa_lt (Nat.two_pow_pos _)
    _ = 2 ^ 52 * 2 ^ ((exponent + 1074).toNat + 1) := by
        rw [Nat.pow_succ, Nat.pow_succ]
        omega
    _ ≤ other * 2 ^ ((exponent + 1074).toNat + 1) := Nat.mul_le_mul_right _ full
    _ ≤ units other larger := by
        rw [units, gapEq]
        exact Nat.mul_le_mul_left _ (Nat.pow_le_pow_right (by decide) (Nat.le_add_right _ _))

/-- Canonical floats compare by exponent and then by mantissa. -/
theorem compare_eq (canonical : Canonical mantissa exponent)
    (otherCanonical : Canonical other larger) :
    (compare exponent larger).then (compare mantissa other) =
      compare (units mantissa exponent) (units other larger) := by
  rcases Int.lt_trichotomy exponent larger with less | rfl | greater
  · rw [Int.compare_eq_lt.mpr less,
      Nat.compare_eq_lt.mpr (canonical.lt_of_exponent_lt otherCanonical less)]
    rfl
  · have positive : 0 < 2 ^ (exponent + 1074).toNat := Nat.two_pow_pos _
    rw [Int.compare_eq_eq.mpr rfl, units, units]
    rcases Nat.lt_trichotomy mantissa other with less | rfl | greater
    · rw [Nat.compare_eq_lt.mpr less,
        Nat.compare_eq_lt.mpr (Nat.mul_lt_mul_of_pos_right less positive)]
      rfl
    · rw [Nat.compare_eq_eq.mpr rfl, Nat.compare_eq_eq.mpr rfl]
      rfl
    · rw [Nat.compare_eq_gt.mpr greater,
        Nat.compare_eq_gt.mpr (Nat.mul_lt_mul_of_pos_right greater positive)]
      rfl
  · rw [Int.compare_eq_gt.mpr greater,
      Nat.compare_eq_gt.mpr (otherCanonical.lt_of_exponent_lt canonical greater)]
    rfl

/-- A canonical float is given by its rank. -/
theorem eq_of_units_eq (canonical : Canonical mantissa exponent)
    (otherCanonical : Canonical other larger)
    (same : units mantissa exponent = units other larger) :
    mantissa = other ∧ exponent = larger := by
  have compared := canonical.compare_eq otherCanonical
  rw [Nat.compare_eq_eq.mpr same, Ordering.then_eq_eq, Int.compare_eq_eq, Nat.compare_eq_eq]
    at compared
  exact ⟨compared.2, compared.1⟩

theorem units_lt (canonical : Canonical mantissa exponent) {top : Nat}
    (limited : (exponent + 1074).toNat ≤ top) : units mantissa exponent < 2 ^ (53 + top) := by
  rw [Nat.pow_add]
  exact Nat.mul_lt_mul_of_lt_of_le canonical.mantissa_lt
    (Nat.pow_le_pow_right (by decide) limited) (Nat.two_pow_pos _)

/-- No finite float reaches the rank of infinity. -/
theorem lt_infinityRank (canonical : Canonical mantissa exponent) (limited : exponent ≤ 971) :
    (units mantissa exponent : Int) < infinityRank := by
  have limitedUnits : (exponent + 1074).toNat ≤ topExponent := by
    unfold topExponent
    omega
  have bound := Int.ofNat_lt.mpr (canonical.units_lt limitedUnits)
  rwa [Int.natCast_pow] at bound

end Canonical

theorem infinityRank_pos : 0 < infinityRank := by
  unfold infinityRank
  exact Int.pow_pos (by decide)

/-- Ranks of finite floats lie between those of the infinities. -/
theorem abs_rank_lt {value : Float.Model} {sign : Sign} {mantissa : Nat} {exponent : Int}
    {positive : 0 < mantissa}
    (finite : value.unpack = .finite sign mantissa exponent positive) :
    0 < units mantissa exponent ∧ (units mantissa exponent : Int) < infinityRank := by
  obtain ⟨canonical, limited⟩ := canonical_of_unpack finite
  exact ⟨units_pos positive exponent, canonical.lt_infinityRank limited⟩

/-- An ordering is the result of a comparison if the compared numbers are ordered that way. -/
theorem compare_of_ordered {ordering : Ordering} {left right : Int}
    (ordered : match ordering with
      | .lt => left < right
      | .eq => left = right
      | .gt => right < left) : ordering = compare left right := by
  cases ordering with
  | lt => exact (Int.compare_eq_lt.mpr ordered).symm
  | eq => exact (Int.compare_eq_eq.mpr ordered).symm
  | gt => exact (Int.compare_eq_gt.mpr ordered).symm

theorem compare_natCast (left right : Nat) :
    compare left right = compare (left : Int) (right : Int) := by
  apply compare_of_ordered
  rcases Nat.lt_trichotomy left right with less | rfl | greater
  · rw [Nat.compare_eq_lt.mpr less]
    exact Int.ofNat_lt.mpr less
  · rw [Nat.compare_eq_eq.mpr rfl]
  · rw [Nat.compare_eq_gt.mpr greater]
    exact Int.ofNat_lt.mpr greater

theorem compare_swap_neg (left right : Int) :
    (compare left right).swap = compare (-left) (-right) := by
  apply compare_of_ordered
  rcases Int.lt_trichotomy left right with less | rfl | greater
  · rw [Int.compare_eq_lt.mpr less]
    exact Int.neg_lt_neg less
  · rw [Int.compare_eq_eq.mpr rfl]
    rfl
  · rw [Int.compare_eq_gt.mpr greater]
    exact Int.neg_lt_neg greater

/-- Two numbers compare like their ranks. -/
theorem compare_eq (left right : Float.Model) :
    left.unpack.compare right.unpack =
      (unpackedRank? left.unpack).bind fun first =>
        (unpackedRank? right.unpack).map fun second => compare first second := by
  have top := infinityRank_pos
  cases leftEq : left.unpack with
  | notANumber => cases right.unpack <;> rfl
  | infinity sign =>
      cases rightEq : right.unpack with
      | notANumber => cases sign <;> rfl
      | infinity other =>
          have opposite : -infinityRank < infinityRank := by omega
          cases sign with
          | negative =>
              cases other with
              | negative => exact congrArg some (Int.compare_eq_eq.mpr rfl).symm
              | positive => exact congrArg some (Int.compare_eq_lt.mpr opposite).symm
          | positive =>
              cases other with
              | negative => exact congrArg some (Int.compare_eq_gt.mpr opposite).symm
              | positive => exact congrArg some (Int.compare_eq_eq.mpr rfl).symm
      | zero other =>
          cases sign <;> refine congrArg some (compare_of_ordered ?_) <;>
            simp only [Sign.apply] <;> omega
      | finite other mantissa exponent positive =>
          have bounds := abs_rank_lt rightEq
          cases sign <;> cases other <;> refine congrArg some (compare_of_ordered ?_) <;>
            simp only [Sign.apply] <;> omega
  | zero sign =>
      cases rightEq : right.unpack with
      | notANumber => rfl
      | infinity other =>
          cases other <;> refine congrArg some (compare_of_ordered ?_) <;>
            simp only [Sign.apply] <;> omega
      | zero other => rfl
      | finite other mantissa exponent positive =>
          have bounds := abs_rank_lt rightEq
          cases other <;> refine congrArg some (compare_of_ordered ?_) <;>
            simp only [Sign.apply] <;> omega
  | finite sign mantissa exponent positive =>
      have bounds := abs_rank_lt leftEq
      cases rightEq : right.unpack with
      | notANumber => cases sign <;> rfl
      | infinity other =>
          cases sign <;> cases other <;> refine congrArg some (compare_of_ordered ?_) <;>
            simp only [Sign.apply] <;> omega
      | zero other =>
          cases sign <;> refine congrArg some (compare_of_ordered ?_) <;>
            simp only [Sign.apply] <;> omega
      | finite other otherMantissa otherExponent otherPositive =>
          have otherBounds := abs_rank_lt rightEq
          have canonical :=
            (canonical_of_unpack leftEq).1.compare_eq (canonical_of_unpack rightEq).1
          rw [compare_natCast (units _ _)] at canonical
          cases sign with
          | negative =>
              cases other with
              | negative =>
                  refine congrArg some ((congrArg Ordering.swap canonical).trans ?_)
                  exact compare_swap_neg _ _
              | positive =>
                  refine congrArg some (compare_of_ordered ?_)
                  simp only [Sign.apply]
                  omega
          | positive =>
              cases other with
              | negative =>
                  refine congrArg some (compare_of_ordered ?_)
                  simp only [Sign.apply]
                  omega
              | positive => exact congrArg some canonical

/-- A float is less than another one if both are numbers with ascending ranks. -/
theorem lt_iff {left right : Float} :
    Scalar.lt left right = true ↔
      ∃ first second, rank? left = some first ∧ rank? right = some second ∧ first < second := by
  have compared : Scalar.lt left right =
      (left.toModel.unpack.compare right.toModel.unpack == some .lt) :=
    Bool.decide_eq_true.trans Bool.decide_eq_true
  rw [compared, compare_eq, rank?, rank?]
  cases unpackedRank? left.toModel.unpack with
  | none => simp
  | some first =>
      cases unpackedRank? right.toModel.unpack with
      | none => simp
      | some second => simp [Int.compare_eq_lt]

/-- A float equals another one if both are numbers of the same rank. -/
theorem eq_iff {left right : Float} :
    Scalar.eq left right = true ↔ ∃ rank, rank? left = some rank ∧ rank? right = some rank := by
  have compared : Scalar.eq left right =
      (left.toModel.unpack.compare right.toModel.unpack == some .eq) := rfl
  rw [compared, compare_eq, rank?, rank?]
  cases unpackedRank? left.toModel.unpack with
  | none => simp
  | some first =>
      cases unpackedRank? right.toModel.unpack with
      | none => simp
      | some second =>
          simp only [Option.bind_some, Option.map_some, beq_iff_eq, Option.some.injEq,
            Int.compare_eq_eq]
          constructor
          · rintro rfl
            exact ⟨first, rfl, rfl⟩
          · rintro ⟨rank, rfl, rfl⟩
            rfl

theorem le_iff {left right : Float} :
    Scalar.le left right = true ↔
      ∃ first second, rank? left = some first ∧ rank? right = some second ∧ first ≤ second := by
  have compared : Scalar.le left right =
      (left.toModel.unpack.compare right.toModel.unpack).any (·.isLE) :=
    Bool.decide_eq_true.trans Bool.decide_eq_true
  rw [compared, compare_eq, rank?, rank?]
  cases unpackedRank? left.toModel.unpack with
  | none => simp
  | some first =>
      cases unpackedRank? right.toModel.unpack with
      | none => simp
      | some second => simp [Int.isLE_compare]

/-- A float is a number if it has a rank. -/
theorem isNumber_iff {value : Float} :
    Scalar.isNumber value = true ↔ ∃ rank, rank? value = some rank := by
  rw [Scalar.isNumber, eq_iff]
  simp

/-- The comparisons of floats form an order of the numbers. -/
instance : Scalar.Ordered Float where
  isNumber_of_lt less := by
    obtain ⟨first, second, leftRank, rightRank, -⟩ := lt_iff.mp less
    exact ⟨isNumber_iff.mpr ⟨first, leftRank⟩, isNumber_iff.mpr ⟨second, rightRank⟩⟩
  eq_iff {left right} := by
    simp only [isNumber_iff, eq_iff, Bool.eq_false_iff, ne_eq, lt_iff]
    constructor
    · rintro ⟨rank, leftRank, rightRank⟩
      refine ⟨⟨rank, leftRank⟩, ⟨rank, rightRank⟩, ?_, ?_⟩
      · rintro ⟨first, second, firstRank, secondRank, less⟩
        rw [leftRank] at firstRank
        rw [rightRank] at secondRank
        cases firstRank
        cases secondRank
        exact Int.lt_irrefl _ less
      · rintro ⟨first, second, firstRank, secondRank, less⟩
        rw [rightRank] at firstRank
        rw [leftRank] at secondRank
        cases firstRank
        cases secondRank
        exact Int.lt_irrefl _ less
    · rintro ⟨⟨first, leftRank⟩, ⟨second, rightRank⟩, notLess, notGreater⟩
      have notBelow : ¬ first < second := fun less =>
        notLess ⟨first, second, leftRank, rightRank, less⟩
      have notAbove : ¬ second < first := fun less =>
        notGreater ⟨second, first, rightRank, leftRank, less⟩
      have same : first = second := by omega
      exact ⟨first, leftRank, same ▸ rightRank⟩
  le_iff {left right} := by
    rw [le_iff, lt_iff, eq_iff]
    constructor
    · rintro ⟨first, second, leftRank, rightRank, atMost⟩
      rcases Int.lt_or_eq_of_le atMost with less | rfl
      · exact .inl ⟨first, second, leftRank, rightRank, less⟩
      · exact .inr ⟨first, leftRank, rightRank⟩
    · rintro (⟨first, second, leftRank, rightRank, less⟩ | ⟨rank, leftRank, rightRank⟩)
      · exact ⟨first, second, leftRank, rightRank, Int.le_of_lt less⟩
      · exact ⟨rank, rank, leftRank, rightRank, Int.le_refl _⟩
  lt_trans {left middle right} less more := by
    obtain ⟨first, second, leftRank, middleRank, firstLess⟩ := lt_iff.mp less
    obtain ⟨other, third, otherRank, rightRank, otherLess⟩ := lt_iff.mp more
    rw [middleRank] at otherRank
    cases otherRank
    exact lt_iff.mpr ⟨first, third, leftRank, rightRank, Int.lt_trans firstLess otherLess⟩
  lt_or_lt {left right} middle less number := by
    obtain ⟨first, third, leftRank, rightRank, firstLess⟩ := lt_iff.mp less
    obtain ⟨second, middleRank⟩ := isNumber_iff.mp number
    rcases Int.lt_or_le first second with below | above
    · exact .inl (lt_iff.mpr ⟨first, second, leftRank, middleRank, below⟩)
    · exact .inr (lt_iff.mpr ⟨second, third, middleRank, rightRank, by omega⟩)

end DecisionTree.Binary64
