import DecisionTree.Proofs.Binary64.Rounding

/-!
# Quotients of floats

A quotient is computed with enough bits, and with account of the rest, before it is rounded.  So
the rounded quotient is on no other side of a short number than the exact one (`rank_quotient`).
Ranks count multiples of the least positive float, so the rank of the dividend is scaled by that of
one.
-/

namespace DecisionTree.Binary64

open Float.Model (Format UnpackedFloat)
open Float.Model.UnpackedFloat

/-- A number of at most 53 bits is short at every exponent. -/
theorem short_units {mantissa : Nat} (small : mantissa ≤ 2 ^ 53) (exponent : Int) :
    Short (units mantissa exponent) :=
  ⟨mantissa, (exponent + 1074).toNat, small, rfl⟩

/-- The rank of one. -/
def oneRank : Nat :=
  units 1 0

/-- The exponent at which a quotient is computed. -/
def quotientExponent (mantissa divisor : Nat) (exponent other : Int) : Int :=
  min (exponent - other) (max (mantissa.log2 + exponent - (divisor.log2 + other) - 53) (-1074))

variable {mantissa divisor : Nat} {exponent other : Int}

/-- The dividend is shifted before it is divided. -/
theorem div_finite (sign : Sign) (positive : 0 < mantissa) (nonzero : 0 < divisor) {shift : Nat}
    (shiftEq : (exponent - other - quotientExponent mantissa divisor exponent other).toNat =
      shift) :
    UnpackedFloat.div Format.binary64 (.finite sign mantissa exponent positive)
        (.finite .positive divisor other nonzero) =
      roundWithAccuracy Format.binary64 sign (mantissa * 2 ^ shift / divisor)
        (quotientExponent mantissa divisor exponent other)
        (accuracyOfFraction (mantissa * 2 ^ shift % divisor) divisor) := by
  have bits : (Format.binary64.mantissaBits : Int) = 53 := by decide
  have least : Format.binary64.minExponent = -1074 := by decide
  have exponentEq : min (exponent - other) (Format.binary64.targetExponent
      (Float.Model.totalExponent mantissa exponent - Float.Model.totalExponent divisor other)) =
        quotientExponent mantissa divisor exponent other := by
    rw [Format.targetExponent, Float.Model.totalExponent, Float.Model.totalExponent, bits, least,
      quotientExponent]
    omega
  simp only [UnpackedFloat.div, divCore, exponentEq, shiftEq, Nat.shiftLeft_eq]
  cases sign <;> rfl

/-- Above the least exponent the shifted dividend is long enough for a full quotient. -/
theorem full_quotient (positive : 0 < mantissa) (nonzero : 0 < divisor) {shift : Nat}
    (shiftEq : (exponent - other - quotientExponent mantissa divisor exponent other).toNat =
      shift)
    (above : -1074 < quotientExponent mantissa divisor exponent other) :
    2 ^ 52 ≤ mantissa * 2 ^ shift / divisor := by
  rw [Nat.le_div_iff_mul_le nonzero]
  have less : divisor < 2 ^ (divisor.log2 + 1) := Nat.lt_log2_self
  have large : 2 ^ mantissa.log2 ≤ mantissa := Nat.log2_self_le (Nat.ne_of_gt positive)
  have enough : 52 + (divisor.log2 + 1) ≤ mantissa.log2 + shift := by
    unfold quotientExponent at shiftEq above
    omega
  calc 2 ^ 52 * divisor
      ≤ 2 ^ 52 * 2 ^ (divisor.log2 + 1) := Nat.mul_le_mul_left _ (Nat.le_of_lt less)
    _ = 2 ^ (52 + (divisor.log2 + 1)) := (Nat.pow_add ..).symm
    _ ≤ 2 ^ (mantissa.log2 + shift) := Nat.pow_le_pow_right (by decide) enough
    _ = 2 ^ mantissa.log2 * 2 ^ shift := Nat.pow_add ..
    _ ≤ mantissa * 2 ^ shift := Nat.mul_le_mul_right _ large

/-- The rounded quotient of two positive numbers is on no other side of a short number than the
exact one. -/
theorem rank_quotient (sign : Sign) (positive : 0 < mantissa) (nonzero : 0 < divisor)
    (least : -1074 ≤ exponent) (otherLeast : -1074 ≤ other) :
    ∃ quotient : Nat, unpackedRank? (Float.Model.pack (UnpackedFloat.div Format.binary64
        (.finite sign mantissa exponent positive)
        (.finite .positive divisor other nonzero))).unpack = some (sign.apply (clamp quotient)) ∧
      ∀ number, Short number →
        (units mantissa exponent * oneRank ≤ number * units divisor other → quotient ≤ number) ∧
        (number * units divisor other ≤ units mantissa exponent * oneRank →
          number ≤ quotient) := by
  obtain ⟨shift, shiftEq⟩ : ∃ shift,
      (exponent - other - quotientExponent mantissa divisor exponent other).toNat = shift :=
    ⟨_, rfl⟩
  obtain ⟨cut, cutEq⟩ : ∃ cut, (target (mantissa * 2 ^ shift / divisor)
      (quotientExponent mantissa divisor exponent other) -
        quotientExponent mantissa divisor exponent other).toNat = cut :=
    ⟨_, rfl⟩
  have full := full_quotient positive nonzero shiftEq
  rw [div_finite sign positive nonzero shiftEq]
  have belowDifference : quotientExponent mantissa divisor exponent other ≤ exponent - other :=
    Int.min_le_left ..
  generalize quotientExponent mantissa divisor exponent other = start at *
  generalize quotientEq : mantissa * 2 ^ shift / divisor = computed at *
  have log (above : -1074 < start) : 52 ≤ computed.log2 := by
    have := full above
    exact (Nat.le_log2 (by omega)).mpr this
  have fits : start ≤ target computed start := by
    unfold target
    omega
  have cutPositive : 0 < divisor * 2 ^ cut := Nat.mul_pos nonzero (Nat.two_pow_pos cut)
  have rounds := ((Residue.ofFraction (mantissa * 2 ^ shift) nonzero).shiftRight nonzero
    cut).rounds cutPositive
  have parts : mantissa * 2 ^ shift / (divisor * 2 ^ cut) = computed / 2 ^ cut := by
    rw [← Nat.div_div_eq_div_mul, quotientEq]
  have below := shifted_lt cutEq
  have fullOrLeast := shifted_full cutEq fits
  rw [quotientEq] at rounds
  have bounds := parts ▸ rounds.bounds
  refine ⟨_, rank_roundWithAccuracy sign fits (by rw [cutEq]) (by omega) (by omega),
    fun number short => ?_⟩
  -- both sides of a comparison of the exact quotient are scaled by a power of two
  have scale : 2 ^ (other + 1074).toNat * (mantissa * 2 ^ shift *
        2 ^ (target computed start + 1074).toNat) =
      2 ^ cut * (units mantissa exponent * oneRank) := by
    have powers : (other + 1074).toNat + shift + (target computed start + 1074).toNat =
        cut + (exponent + 1074).toNat + (0 + 1074 : Int).toNat := by
      have : -1074 ≤ target computed start := Int.le_max_right _ _
      omega
    calc 2 ^ (other + 1074).toNat * (mantissa * 2 ^ shift *
          2 ^ (target computed start + 1074).toNat)
        = mantissa *
            2 ^ ((other + 1074).toNat + shift + (target computed start + 1074).toNat) := by
          rw [Nat.pow_add, Nat.pow_add]
          ring
      _ = 2 ^ cut * (units mantissa exponent * oneRank) := by
          rw [powers, Nat.pow_add, Nat.pow_add, oneRank, units, units]
          ring
  have otherScale : 2 ^ (other + 1074).toNat * (number * (divisor * 2 ^ cut)) =
      2 ^ cut * (number * units divisor other) := by
    rw [units]
    ring
  have large : (target computed start + 1074).toNat = 0 ∨
      2 ^ 52 ≤ mantissa * 2 ^ shift / (divisor * 2 ^ cut) := by
    rw [parts]
    omega
  obtain ⟨above, below⟩ := rounds.between cutPositive large short
  constructor
  · intro less
    refine above (Nat.le_of_mul_le_mul_left ?_ (Nat.two_pow_pos (other + 1074).toNat))
    rw [scale, otherScale]
    exact Nat.mul_le_mul_left _ less
  · intro less
    refine below (Nat.le_of_mul_le_mul_left ?_ (Nat.two_pow_pos (other + 1074).toNat))
    rw [scale, otherScale]
    exact Nat.mul_le_mul_left _ less

end DecisionTree.Binary64
