import DecisionTree.Proofs.Binary64.Order

/-!
# Rounding to binary64

Rounding cuts a number to 53 bits, or to a multiple of the least positive float, and goes to
the nearer of the two candidates, so no number of that length is nearer (`rank_round`).
`rank_pack` is the last step of every operation: a number in canonical form keeps its rank, or
gets that of an infinity if it is too large.
-/

namespace DecisionTree.Binary64

open Float.Model (Format UnpackedFloat totalExponent)
open Float.Model.UnpackedFloat

/-- The exponent that a number is rounded to. -/
def target (mantissa : Nat) (exponent : Int) : Int :=
  max (mantissa.log2 + exponent - 52) (-1074)

theorem targetExponent_eq (mantissa : Nat) (exponent : Int) :
    Format.binary64.targetExponent (totalExponent mantissa exponent) =
      target mantissa exponent := by
  have bits : (Format.binary64.mantissaBits : Int) = 53 := by decide
  have least : Format.binary64.minExponent = -1074 := by decide
  rw [Format.targetExponent, totalExponent, bits, least, target]
  congr 1
  omega

/-- The result of a division with rest, rounded to the nearer side. -/
def Rounds (number divisor result : Nat) : Prop :=
  (result = number / divisor ∧ 2 * (number % divisor) ≤ divisor) ∨
    (result = number / divisor + 1 ∧ divisor ≤ 2 * (number % divisor))

theorem Rounds.bounds {number divisor result : Nat} (rounds : Rounds number divisor result) :
    number / divisor ≤ result ∧ result ≤ number / divisor + 1 := by
  rcases rounds with ⟨same, -⟩ | ⟨same, -⟩ <;> omega

/-- The residual bits of a quotient say how the rest compares with one half of the divisor. -/
structure Residue (extended : ExtendedMantissa) (number divisor : Nat) : Prop where
  mantissa_eq : extended.mantissa = number / divisor
  roundBit_eq : extended.roundBit = decide (divisor ≤ 2 * (number % divisor))
  stickyBit_eq : extended.stickyBit =
    decide (number % divisor ≠ 0 ∧ 2 * (number % divisor) ≠ divisor)

namespace Residue

variable {extended : ExtendedMantissa} {number divisor : Nat}

/-- The accuracy of a quotient keeps account of the rest. -/
theorem ofFraction (number : Nat) (positive : 0 < divisor) :
    Residue (ExtendedMantissa.ofMantissaAndAccuracy (number / divisor)
      (accuracyOfFraction (number % divisor) divisor)) number divisor := by
  rw [accuracyOfFraction]
  by_cases none : number % divisor = 0
  · rw [if_pos none]
    exact ⟨rfl, (decide_eq_false (by omega)).symm, (decide_eq_false (by omega)).symm⟩
  · rw [if_neg none]
    rcases Nat.lt_trichotomy (2 * (number % divisor)) divisor with less | half | more
    · rw [Nat.compare_eq_lt.mpr less]
      exact ⟨rfl, (decide_eq_false (by omega)).symm, (decide_eq_true (by omega)).symm⟩
    · rw [Nat.compare_eq_eq.mpr half]
      exact ⟨rfl, (decide_eq_true (by omega)).symm, (decide_eq_false (by omega)).symm⟩
    · rw [Nat.compare_eq_gt.mpr more]
      exact ⟨rfl, (decide_eq_true (by omega)).symm, (decide_eq_true (by omega)).symm⟩

theorem shiftRightOne (positive : 0 < divisor) (residue : Residue extended number divisor) :
    Residue extended.shiftRightOne number (divisor * 2) := by
  have below : number % divisor < divisor := Nat.mod_lt _ positive
  have remainder : number % (divisor * 2) =
      number % divisor + divisor * (number / divisor % 2) := Nat.mod_mul
  constructor
  · rw [ExtendedMantissa.shiftRightOne, residue.mantissa_eq, Nat.div_div_eq_div_mul]
  · rw [ExtendedMantissa.shiftRightOne, residue.mantissa_eq, remainder]
    rcases Nat.mod_two_eq_zero_or_one (number / divisor) with even | odd
    · rw [even, Nat.mul_zero, Nat.add_zero]
      simp only [bne_self_eq_false]
      rw [eq_comm, decide_eq_false_iff_not]
      omega
    · rw [odd, Nat.mul_one]
      rw [eq_comm]
      simp only [Nat.reduceBEq, bne, Bool.not_false, decide_eq_true_eq]
      omega
  · rw [ExtendedMantissa.shiftRightOne, residue.roundBit_eq, residue.stickyBit_eq, remainder,
      ← Bool.decide_or, decide_eq_decide]
    rcases Nat.mod_two_eq_zero_or_one (number / divisor) with even | odd
    · rw [even, Nat.mul_zero, Nat.add_zero]
      omega
    · rw [odd, Nat.mul_one]
      omega

/-- Shifting keeps account of what is cut off. -/
theorem shiftRight (positive : 0 < divisor) (residue : Residue extended number divisor)
    (shift : Nat) : Residue (extended >>> shift) number (divisor * 2 ^ shift) := by
  induction shift with
  | zero => rwa [Nat.pow_zero, Nat.mul_one]
  | succ shift ih =>
      rw [Nat.pow_succ, ← Nat.mul_assoc]
      exact ih.shiftRightOne (Nat.mul_pos positive (Nat.two_pow_pos shift))

/-- What is cut off a whole number. -/
theorem ofShift (number shift : Nat) :
    Residue (ExtendedMantissa.ofMantissaAndAccuracy number .exact >>> shift) number
      (2 ^ shift) := by
  have whole := (ofFraction number Nat.one_pos).shiftRight Nat.one_pos shift
  rwa [Nat.div_one, Nat.mod_one, Nat.one_mul] at whole

/-- The rounded mantissa is on the nearer side. -/
theorem rounds (positive : 0 < divisor) (residue : Residue extended number divisor) :
    Rounds number divisor extended.roundedMantissa := by
  obtain ⟨mantissa, roundBit, stickyBit⟩ := extended
  obtain ⟨mantissaEq, roundEq, stickyEq⟩ := residue
  simp only at mantissaEq roundEq stickyEq
  subst mantissaEq
  unfold Rounds
  cases roundBit with
  | false =>
      rw [eq_comm, decide_eq_false_iff_not] at roundEq
      refine .inl ⟨?_, by omega⟩
      cases stickyBit <;> rfl
  | true =>
      rw [eq_comm, decide_eq_true_eq] at roundEq
      cases stickyBit with
      | true => exact .inr ⟨rfl, roundEq⟩
      | false =>
          rw [eq_comm, decide_eq_false_iff_not] at stickyEq
          have half : 2 * (number % divisor) = divisor := by omega
          have result : ExtendedMantissa.roundedMantissa ⟨number / divisor, true, false⟩ =
              number / divisor + number / divisor % 2 := rfl
          rw [result]
          rcases Nat.mod_two_eq_zero_or_one (number / divisor) with even | odd
          · exact .inl ⟨by omega, by omega⟩
          · exact .inr ⟨by omega, by omega⟩

end Residue

/-- The rounding of a number that is cut to its first 53 bits has at most one bit more. -/
theorem shiftToTargetExponent_eq (mantissa : Nat) (exponent : Int) (accuracy : Accuracy) :
    shiftToTargetExponent Format.binary64 mantissa exponent accuracy =
      (ExtendedMantissa.ofMantissaAndAccuracy mantissa accuracy >>>
          (target mantissa exponent - exponent).toNat,
        exponent + (target mantissa exponent - exponent).toNat) := by
  rw [shiftToTargetExponent, targetExponent_eq]
  rfl

/-- A mantissa of at most 53 bits is not shifted. -/
theorem shift_of_lt {mantissa : Nat} {exponent : Int} (small : mantissa < 2 ^ 53)
    (least : -1074 ≤ exponent) :
    shiftToTargetExponent Format.binary64 mantissa exponent .exact =
      (⟨mantissa, false, false⟩, exponent) := by
  have log : mantissa.log2 ≤ 52 := by
    by_cases zero : mantissa = 0
    · simp [zero]
    · have := (Nat.log2_lt zero).mpr small
      omega
  have none : (target mantissa exponent - exponent).toNat = 0 := by
    unfold target
    omega
  rw [shiftToTargetExponent_eq, none, Int.natCast_zero, Int.add_zero]
  rfl

/-- A mantissa that rounding has made one bit too long is shifted by one. -/
theorem shift_of_eq {exponent : Int} (least : -1074 ≤ exponent) :
    shiftToTargetExponent Format.binary64 (2 ^ 53) exponent .exact =
      (⟨2 ^ 52, false, false⟩, exponent + 1) := by
  have one : (target (2 ^ 53) exponent - exponent).toNat = 1 := by
    have log : (2 ^ 53 : Nat).log2 = 53 := Nat.log2_two_pow
    unfold target
    rw [log]
    omega
  rw [shiftToTargetExponent_eq, one]
  rfl

/-- The result of rounding: the rounded mantissa, shifted if it has become too long. -/
theorem roundWithAccuracy_eq {mantissa rounded : Nat} {exponent : Int} {accuracy : Accuracy}
    (sign : Sign) (fits : exponent ≤ target mantissa exponent)
    (roundedEq : (ExtendedMantissa.ofMantissaAndAccuracy mantissa accuracy >>>
      (target mantissa exponent - exponent).toNat).roundedMantissa = rounded)
    (small : rounded ≤ 2 ^ 53) :
    roundWithAccuracy Format.binary64 sign mantissa exponent accuracy =
      if positive : 0 < rounded then
        if rounded < 2 ^ 53 then .finite sign rounded (target mantissa exponent) positive
        else .finite sign (2 ^ 52) (target mantissa exponent + 1) (Nat.two_pow_pos 52)
      else .zero sign := by
  have least : -1074 ≤ target mantissa exponent := Int.le_max_right _ _
  have exponentEq : exponent + ((target mantissa exponent - exponent).toNat : Int) =
      target mantissa exponent := by omega
  rw [roundWithAccuracy, shiftToTargetExponent_eq]
  dsimp only
  rw [roundedEq, exponentEq]
  by_cases short : rounded < 2 ^ 53
  · rw [shift_of_lt short least]
    by_cases zero : rounded = 0
    · subst zero
      rfl
    · have positive : 0 < rounded := Nat.pos_of_ne_zero zero
      simp only [zero, positive, short, dif_neg, dif_pos, if_pos, not_false_eq_true]
  · have long : rounded = 2 ^ 53 := by omega
    subst long
    rw [shift_of_eq least]
    rfl

/-- The rank of a signed magnitude, which is that of an infinity if the magnitude is too
large. -/
def clamp (magnitude : Nat) : Int :=
  min (magnitude : Int) infinityRank

theorem unpackSign_packComponents (sign : Sign) (exponent : BitVec 11) (fraction : BitVec 52) :
    unpackSign (packComponents Format.binary64 sign exponent fraction) = sign.toBitVec := by
  have whole : (sign.toBitVec ++ exponent ++ fraction).extractLsb' 63 1 = sign.toBitVec := by
    rw [BitVec.extractLsb'_append_eq_of_le (by decide),
      BitVec.extractLsb'_append_eq_of_le (by decide)]
    cases sign <;> rfl
  exact whole

theorem ofBitVec_toBitVec (sign : Sign) : Sign.ofBitVec sign.toBitVec = sign := by
  cases sign <;> rfl

theorem apply_zero (sign : Sign) : sign.apply 0 = 0 := by
  cases sign <;> rfl

/-- The rank of a float that is packed from its three fields. -/
theorem rank_packComponents (sign : Sign) (exponent : BitVec 11) (fraction : BitVec 52) :
    unpackedRank? (UnpackedFloat.unpack Format.binary64
      (packComponents Format.binary64 sign exponent fraction)) =
      if exponent = -1#11 then
        if fraction = 0#52 then some (sign.apply infinityRank) else none
      else if exponent = 0#11 then some (sign.apply fraction.toNat)
      else some (sign.apply (units (2 ^ 52 + fraction.toNat) (exponent.toNat - 1075))) := by
  have bias : ((Format.binary64.exponentBias : Nat) : Int) + (52 : Nat) = 1075 := by decide
  have least : ((0 : Nat) : Int) - 1075 + 1 = -1074 := by decide
  have unit (count : Nat) : units count (-1074) = count := Nat.mul_one count
  have whole : (1#1 ++ fraction).toNat = 2 ^ 52 + fraction.toNat := by
    rw [BitVec.toNat_append, ← Nat.shiftLeft_add_eq_or_of_lt fraction.isLt]
    rfl
  simp only [UnpackedFloat.unpack, unpackExponent_packComponents, unpackMantissa_packComponents,
    unpackSign_packComponents, ofBitVec_toBitVec]
  split
  · split <;> rfl
  · split
    next isZero =>
      subst isZero
      split
      next noFraction =>
        subst noFraction
        exact congrArg some (apply_zero sign).symm
      next =>
        simp only [unpackedRank?, bias, BitVec.toNat_ofNat, Nat.zero_mod, least, unit]
    next =>
      simp only [unpackedRank?, bias, whole]

variable {mantissa : Nat} {exponent : Int}

theorem clamp_of_lt {magnitude : Nat} (less : (magnitude : Int) < infinityRank) :
    clamp magnitude = magnitude := by
  unfold clamp
  omega

theorem le_units (full : 2 ^ 52 ≤ mantissa) {top : Nat}
    (large : top + 1 ≤ (exponent + 1074).toNat) : 2 ^ (53 + top) ≤ units mantissa exponent := by
  have same : 53 + top = 52 + (top + 1) := by omega
  rw [same, Nat.pow_add]
  exact Nat.mul_le_mul full (Nat.pow_le_pow_right (by decide) large)

/-- A number with a full mantissa and too large an exponent reaches the rank of infinity. -/
theorem infinityRank_le (full : 2 ^ 52 ≤ mantissa) (large : 972 ≤ exponent) :
    infinityRank ≤ (units mantissa exponent : Int) := by
  have largeUnits : topExponent + 1 ≤ (exponent + 1074).toNat := by
    unfold topExponent
    omega
  have bound := Int.ofNat_le.mpr (le_units full largeUnits)
  rwa [Int.natCast_pow] at bound

/-- The exponent field of a packed float. -/
theorem biased_eq (exponent : Int) :
    (exponent + (Format.binary64.exponentBias : Int) + ((52 : Nat) : Int)).toNat =
      (exponent + 1075).toNat := by
  have bias : (Format.binary64.exponentBias : Int) = 1023 := by decide
  rw [bias]
  omega

/-- A canonical number keeps its rank when it is packed, unless it is too large. -/
theorem rank_pack (sign : Sign) (canonical : Canonical mantissa exponent)
    (positive : 0 < mantissa) :
    unpackedRank? (Float.Model.pack (.finite sign mantissa exponent positive)).unpack =
      some (sign.apply (clamp (units mantissa exponent))) := by
  have packed : (Float.Model.pack (.finite sign mantissa exponent positive)).unpack =
      UnpackedFloat.unpack Format.binary64 (UnpackedFloat.pack Format.binary64
        (.finite sign mantissa exponent positive)) := rfl
  have bits : (2 : Nat) ^ Format.binary64.exponentBits = 2048 := by decide
  have width : Format.binary64.mantissaBits = 53 := by decide
  have least := canonical.exponent_ge
  rw [packed, UnpackedFloat.pack]
  simp only [biased_eq, bits, width]
  by_cases large : 972 ≤ exponent
  · have full : 2 ^ 52 ≤ mantissa := by
      rcases canonical.full with full | isLeast
      · exact full
      · omega
    have overflows : clamp (units mantissa exponent) = infinityRank := by
      have := infinityRank_le full large
      unfold clamp
      omega
    rw [if_pos (by omega), packedInfinity, overflows]
    exact (rank_packComponents sign (-1#11) 0#52).trans (if_pos rfl)
  · rw [if_neg (by omega), clamp_of_lt (canonical.lt_infinityRank (by omega))]
    by_cases full : 2 ^ 52 ≤ mantissa
    · have log : mantissa.log2 = 52 :=
        (Nat.log2_eq_iff (Nat.ne_of_gt positive)).mpr ⟨full, canonical.mantissa_lt⟩
      have field : (BitVec.ofNat 11 (exponent + 1075).toNat).toNat = (exponent + 1075).toNat := by
        rw [BitVec.toNat_ofNat]
        omega
      have fraction : 2 ^ 52 + (BitVec.ofNat 52 mantissa).toNat = mantissa := by
        have := canonical.mantissa_lt
        rw [BitVec.toNat_ofNat]
        omega
      have notTop : BitVec.ofNat 11 (exponent + 1075).toNat ≠ -1#11 := by
        intro same
        have := congrArg BitVec.toNat same
        rw [field] at this
        have top : (-1#11 : BitVec 11).toNat = 2047 := by decide
        omega
      have notZero : BitVec.ofNat 11 (exponent + 1075).toNat ≠ 0#11 := by
        intro same
        have := congrArg BitVec.toNat same
        rw [field] at this
        have zero : (0#11 : BitVec 11).toNat = 0 := by decide
        omega
      rw [log, if_pos rfl]
      refine (rank_packComponents sign _ _).trans ?_
      rw [if_neg notTop, if_neg notZero, field, fraction]
      congr 4
      omega
    · have isLeast : exponent = -1074 := by
        rcases canonical.full with isFull | isLeast
        · exact absurd isFull full
        · exact isLeast
      have log : mantissa.log2 < 52 :=
        (Nat.log2_lt (Nat.ne_of_gt positive)).mpr (Nat.lt_of_not_le full)
      have fraction : (BitVec.ofNat 52 mantissa).toNat = mantissa := by
        rw [BitVec.toNat_ofNat]
        omega
      rw [if_neg (by omega)]
      refine (rank_packComponents sign _ _).trans ?_
      rw [if_neg (by decide), if_pos rfl, fraction, isLeast]
      exact congrArg (fun count : Nat => some (sign.apply (count : Int)))
        (Nat.mul_one mantissa).symm

theorem rank_pack_infinity (sign : Sign) :
    unpackedRank? (Float.Model.pack (.infinity sign)).unpack = some (sign.apply infinityRank) :=
  (rank_packComponents sign (-1#11) 0#52).trans (if_pos rfl)

theorem rank_pack_zero (sign : Sign) :
    unpackedRank? (Float.Model.pack (.zero sign)).unpack = some 0 :=
  (rank_packComponents sign 0#11 0#52).trans (congrArg some (apply_zero sign))

theorem rank_pack_notANumber : unpackedRank? (Float.Model.pack .notANumber).unpack = none :=
  (rank_packComponents .positive (-1#11) (1#52 <<< 51)).trans rfl

/-- A rounded result has the rank of the rounded mantissa at the exponent it is rounded to. -/
theorem rank_roundWithAccuracy {accuracy : Accuracy} (sign : Sign) {rounded : Nat}
    (fits : exponent ≤ target mantissa exponent)
    (roundedEq : (ExtendedMantissa.ofMantissaAndAccuracy mantissa accuracy >>>
      (target mantissa exponent - exponent).toNat).roundedMantissa = rounded)
    (small : rounded ≤ 2 ^ 53) (full : 2 ^ 52 ≤ rounded ∨ target mantissa exponent = -1074) :
    unpackedRank? (Float.Model.pack
        (roundWithAccuracy Format.binary64 sign mantissa exponent accuracy)).unpack =
      some (sign.apply (clamp (units rounded (target mantissa exponent)))) := by
  have least : -1074 ≤ target mantissa exponent := Int.le_max_right _ _
  rw [roundWithAccuracy_eq sign fits roundedEq small]
  split
  next positive =>
    split
    next short => exact rank_pack sign ⟨short, least, full⟩ positive
    next long =>
      obtain rfl : rounded = 2 ^ 53 := by omega
      have canonical : Canonical (2 ^ 52) (target mantissa exponent + 1) :=
        ⟨by decide, by omega, .inl (Nat.le_refl _)⟩
      have same : units (2 ^ 52) (target mantissa exponent + 1) =
          units (2 ^ 53) (target mantissa exponent) := by
        have next : (target mantissa exponent + 1 + 1074).toNat =
            (target mantissa exponent + 1074).toNat + 1 := by omega
        rw [units, units, next, Nat.pow_succ]
        omega
      rw [rank_pack sign canonical (Nat.two_pow_pos 52), same]
  next zero =>
    obtain rfl : rounded = 0 := by omega
    have none : clamp (units 0 (target mantissa exponent)) = 0 := by
      have top := infinityRank_pos
      rw [units, Nat.zero_mul, clamp]
      omega
    rw [rank_pack_zero, none, apply_zero]

/-- A multiple of a power of two with at most 53 bits, or the next power of two. -/
def Short (number : Nat) : Prop :=
  ∃ mantissa exponent : Nat, mantissa ≤ 2 ^ 53 ∧ number = mantissa * 2 ^ exponent

/-- No short number is nearer to a number than a result. -/
def Nearest (number result : Nat) : Prop :=
  ∀ other, Short other → ((result : Int) - number).natAbs ≤ ((other : Int) - number).natAbs

/-- Between two neighbouring multiples of a power of two there is no short number that exceeds
`2 ^ 52` of them. -/
theorem Short.le_or_ge {other unit quotient : Nat} (short : Short other)
    (large : unit = 0 ∨ 2 ^ 52 ≤ quotient) :
    other ≤ quotient * 2 ^ unit ∨ (quotient + 1) * 2 ^ unit ≤ other := by
  obtain ⟨mantissa, exponent, small, rfl⟩ := short
  by_cases divides : unit ≤ exponent
  · obtain ⟨gap, rfl⟩ := Nat.exists_eq_add_of_le divides
    have whole : mantissa * 2 ^ (unit + gap) = (mantissa * 2 ^ gap) * 2 ^ unit := by
      rw [Nat.pow_add, Nat.mul_assoc, Nat.mul_comm (2 ^ gap)]
    rw [whole]
    rcases Nat.lt_or_ge quotient (mantissa * 2 ^ gap) with less | atLeast
    · exact .inr (Nat.mul_le_mul_right _ less)
    · exact .inl (Nat.mul_le_mul_right _ atLeast)
  · obtain ⟨gap, rfl⟩ := Nat.exists_eq_add_of_lt (Nat.lt_of_not_le divides)
    have full : 2 ^ 52 ≤ quotient := by omega
    refine .inl ?_
    calc mantissa * 2 ^ exponent
        ≤ 2 ^ 53 * 2 ^ exponent := Nat.mul_le_mul_right _ small
      _ ≤ 2 ^ 52 * 2 ^ (exponent + gap + 1) := by
          rw [show (2 : Nat) ^ 53 = 2 ^ 52 * 2 from rfl, Nat.mul_assoc]
          refine Nat.mul_le_mul_left _ ?_
          rw [Nat.mul_comm, ← Nat.pow_succ]
          exact Nat.pow_le_pow_right (by decide) (by omega)
      _ ≤ quotient * 2 ^ (exponent + gap + 1) := Nat.mul_le_mul_right _ full

/-- The rounded mantissa gives a nearest number, in any unit. -/
theorem Rounds.nearest {number shift result : Nat} (rounds : Rounds number (2 ^ shift) result)
    (scale : Nat) (large : shift + scale = 0 ∨ 2 ^ 52 ≤ number / 2 ^ shift) :
    Nearest (number * 2 ^ scale) (result * 2 ^ (shift + scale)) := by
  intro other short
  have unit : 2 ^ (shift + scale) = 2 ^ shift * 2 ^ scale := Nat.pow_add 2 shift scale
  have gap := short.le_or_ge large
  have whole : number * 2 ^ scale = number / 2 ^ shift * 2 ^ (shift + scale) +
      number % 2 ^ shift * 2 ^ scale := by
    rw [unit, ← Nat.mul_assoc, ← Nat.add_mul, Nat.div_add_mod']
  have below : number % 2 ^ shift * 2 ^ scale < 2 ^ (shift + scale) := by
    rw [unit]
    exact Nat.mul_lt_mul_of_pos_right (Nat.mod_lt _ (Nat.two_pow_pos _)) (Nat.two_pow_pos _)
  rw [Nat.add_mul, Nat.one_mul] at gap
  have sides : (result * 2 ^ (shift + scale) = number / 2 ^ shift * 2 ^ (shift + scale) ∧
        2 * (number % 2 ^ shift * 2 ^ scale) ≤ 2 ^ (shift + scale)) ∨
      (result * 2 ^ (shift + scale) =
          number / 2 ^ shift * 2 ^ (shift + scale) + 2 ^ (shift + scale) ∧
        2 ^ (shift + scale) ≤ 2 * (number % 2 ^ shift * 2 ^ scale)) := by
    rcases rounds with ⟨rfl, half⟩ | ⟨rfl, half⟩
    · refine .inl ⟨rfl, ?_⟩
      rw [unit, ← Nat.mul_assoc]
      exact Nat.mul_le_mul_right _ half
    · refine .inr ⟨by rw [Nat.add_mul, Nat.one_mul], ?_⟩
      rw [unit, ← Nat.mul_assoc]
      exact Nat.mul_le_mul_right _ half
  generalize result * 2 ^ (shift + scale) = rounded at *
  generalize number / 2 ^ shift * 2 ^ (shift + scale) = lower at *
  generalize number % 2 ^ shift * 2 ^ scale = rest at *
  omega

/-- The rounded quotient is on no other side of a short number than the quotient, in any unit. -/
theorem Rounds.between {number divisor result unit other : Nat}
    (rounds : Rounds number divisor result) (positive : 0 < divisor)
    (large : unit = 0 ∨ 2 ^ 52 ≤ number / divisor) (short : Short other) :
    (number * 2 ^ unit ≤ other * divisor → result * 2 ^ unit ≤ other) ∧
      (other * divisor ≤ number * 2 ^ unit → other ≤ result * 2 ^ unit) := by
  have gap := short.le_or_ge large
  have whole : number * 2 ^ unit =
      number / divisor * 2 ^ unit * divisor + number % divisor * 2 ^ unit := by
    rw [Nat.mul_right_comm, ← Nat.add_mul, Nat.div_add_mod']
  have below : number % divisor * 2 ^ unit < 2 ^ unit * divisor := by
    rw [Nat.mul_comm (2 ^ unit)]
    exact Nat.mul_lt_mul_of_pos_right (Nat.mod_lt _ positive) (Nat.two_pow_pos unit)
  have atLeast : number / divisor ≤ result := by
    rcases rounds with ⟨rfl, -⟩ | ⟨rfl, -⟩ <;> omega
  have atMost : result ≤ number / divisor + 1 := by
    rcases rounds with ⟨rfl, -⟩ | ⟨rfl, -⟩ <;> omega
  constructor
  · intro less
    rcases gap with before | after
    · -- the quotient is the short number, so it is exact
      have beforeTimes := Nat.mul_le_mul_right divisor before
      have exact : number % divisor = 0 := by
        have none : number % divisor * 2 ^ unit = 0 := by omega
        exact (Nat.mul_eq_zero.mp none).resolve_right (Nat.ne_of_gt (Nat.two_pow_pos unit))
      have same : result = number / divisor := by
        rcases rounds with ⟨same, -⟩ | ⟨-, half⟩
        · exact same
        · omega
      rw [same]
      exact Nat.le_of_mul_le_mul_right (by omega) positive
    · exact Nat.le_trans (Nat.mul_le_mul_right _ atMost) after
  · intro less
    rcases gap with before | after
    · exact Nat.le_trans before (Nat.mul_le_mul_right _ atLeast)
    · have afterTimes := Nat.mul_le_mul_right divisor after
      rw [Nat.add_mul, Nat.one_mul, Nat.add_mul] at afterTimes
      omega

/-- Of a number that is not too long at the exponent it is rounded to, all bits are kept. -/
theorem rank_roundWithAccuracy_of_eq (sign : Sign) (aligned : target mantissa exponent = exponent) :
    unpackedRank? (Float.Model.pack
        (roundWithAccuracy Format.binary64 sign mantissa exponent .exact)).unpack =
      some (sign.apply (clamp (units mantissa exponent))) := by
  have unshifted : (target mantissa exponent - exponent).toNat = 0 := by omega
  have short : mantissa.log2 ≤ 52 := by
    unfold target at aligned
    omega
  have small : mantissa ≤ 2 ^ 53 := by
    by_cases zero : mantissa = 0
    · rw [zero]
      exact Nat.zero_le _
    · exact Nat.le_of_lt ((Nat.log2_lt zero).mp (by omega))
  have full : 2 ^ 52 ≤ mantissa ∨ target mantissa exponent = -1074 := by
    by_cases least : target mantissa exponent = -1074
    · exact .inr least
    · have log : 52 ≤ mantissa.log2 := by
        unfold target at aligned least
        omega
      have nonzero : mantissa ≠ 0 := by
        rintro rfl
        rw [Nat.log2_zero] at log
        omega
      exact .inl ((Nat.le_log2 nonzero).mp log)
  have kept : (ExtendedMantissa.ofMantissaAndAccuracy mantissa .exact >>>
      (target mantissa exponent - exponent).toNat).roundedMantissa = mantissa := by
    rw [unshifted]
    rfl
  rw [rank_roundWithAccuracy sign (Int.le_of_eq aligned.symm) kept small full, aligned]

theorem log2_shiftLeft (positive : 0 < mantissa) (shift : Nat) :
    (mantissa <<< shift).log2 = mantissa.log2 + shift := by
  induction shift with
  | zero => rfl
  | succ shift ih =>
      have nonzero : mantissa <<< shift ≠ 0 := by
        rw [Nat.shiftLeft_eq]
        exact Nat.ne_of_gt (Nat.mul_pos positive (Nat.two_pow_pos shift))
      rw [Nat.shiftLeft_succ, Nat.log2_two_mul nonzero, ih]
      rfl

section Shifted

variable {shift : Nat} (shiftEq : (target mantissa exponent - exponent).toNat = shift)
include shiftEq

/-- What is left of a mantissa after the shift to the exponent that it is rounded to. -/
theorem shifted_lt : mantissa / 2 ^ shift < 2 ^ 53 := by
  by_cases zero : mantissa = 0
  · rw [zero, Nat.zero_div]
    decide
  · apply Nat.div_lt_of_lt_mul
    rw [← Nat.pow_add]
    apply (Nat.log2_lt zero).mp
    unfold target at shiftEq
    omega

theorem shifted_full (fits : exponent ≤ target mantissa exponent) :
    2 ^ 52 ≤ mantissa / 2 ^ shift ∨ target mantissa exponent = -1074 := by
  by_cases isLeast : target mantissa exponent = -1074
  · exact .inr isLeast
  · have long : 52 + shift ≤ mantissa.log2 := by
      unfold target at fits shiftEq isLeast
      omega
    have nonzero : mantissa ≠ 0 := by
      rintro rfl
      rw [Nat.log2_zero] at long
      omega
    refine .inl ((Nat.le_div_iff_mul_le (Nat.two_pow_pos shift)).mpr ?_)
    rw [← Nat.pow_add]
    exact (Nat.le_log2 nonzero).mp long

end Shifted

/-- Rounding a number gives the rank of a nearest number, or of an infinity if that is too
large. -/
theorem rank_round (sign : Sign) (positive : 0 < mantissa) (least : -1074 ≤ exponent) :
    ∃ result, unpackedRank? (Float.Model.pack
        (round Format.binary64 sign mantissa exponent)).unpack =
          some (sign.apply (clamp result)) ∧ Nearest (units mantissa exponent) result := by
  rw [UnpackedFloat.round, targetExponent_eq, decreaseExponent]
  dsimp only
  by_cases enough : target mantissa exponent ≤ exponent
  · -- the number is short enough, so it is exact
    obtain ⟨shift, shiftEq⟩ : ∃ shift, (exponent - target mantissa exponent).toNat = shift :=
      ⟨_, rfl⟩
    have aligned : target (mantissa <<< shift) (exponent - shift) = exponent - shift := by
      have log := log2_shiftLeft positive shift
      unfold target at enough shiftEq ⊢
      omega
    have same : units (mantissa <<< shift) (exponent - shift) = units mantissa exponent := by
      have scale : (exponent + 1074).toNat = shift + (exponent - shift + 1074).toNat := by
        unfold target at enough shiftEq
        omega
      rw [units, units, Nat.shiftLeft_eq, scale, Nat.pow_add, Nat.mul_assoc]
    rw [shiftEq]
    refine ⟨units mantissa exponent, ?_, fun other _ => ?_⟩
    · rw [rank_roundWithAccuracy_of_eq sign aligned, same]
    · rw [Int.sub_self]
      exact Nat.zero_le _
  · obtain ⟨shift, shiftEq⟩ : ∃ shift, (target mantissa exponent - exponent).toNat = shift :=
      ⟨_, rfl⟩
    have unshifted : (exponent - target mantissa exponent).toNat = 0 := by omega
    have rounds := (Residue.ofShift mantissa shift).rounds (Nat.two_pow_pos shift)
    have below := shifted_lt shiftEq
    have full := shifted_full shiftEq (by omega)
    have bounds := rounds.bounds
    have scale : (target mantissa exponent + 1074).toNat = shift + (exponent + 1074).toNat := by
      omega
    rw [unshifted, Nat.shiftLeft_zero, Int.natCast_zero, Int.sub_zero]
    refine ⟨_, rank_roundWithAccuracy sign (by omega) (by rw [shiftEq]) (by omega) (by omega), ?_⟩
    rw [units, units, scale]
    exact rounds.nearest _ (by omega)

end DecisionTree.Binary64
