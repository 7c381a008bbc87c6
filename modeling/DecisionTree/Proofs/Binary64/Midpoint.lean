import DecisionTree.Proofs.Binary64.Quotient

/-!
# The midpoint of two floats

The sum of two finite floats is rounded to a nearest float (`rank_add`), and halving it loses at
most half of the least positive float (`rank_half`).  So the rounded midpoint of two finite floats
lies strictly between them exactly if their sum does not overflow and if there is any float between
them (`separates_midpoint_iff`).
-/

namespace DecisionTree.Binary64

open Float.Model (Format UnpackedFloat)
open Float.Model.UnpackedFloat

/-- A rank, or that of an infinity if it is too large or too small. -/
def limited (rank : Int) : Int :=
  max (-infinityRank) (min rank infinityRank)

/-- A rank of a float that is neither infinite nor other than a number. -/
def IsFinite (rank : Int) : Prop :=
  -infinityRank < rank ∧ rank < infinityRank

theorem limited_eq {rank : Int} (finite : IsFinite rank) : limited rank = rank := by
  obtain ⟨above, below⟩ := finite
  unfold limited
  omega

theorem apply_clamp (sign : Sign) (magnitude : Nat) :
    sign.apply (clamp magnitude) = limited (sign.apply magnitude) := by
  have top := infinityRank_pos
  cases sign <;> simp only [Sign.apply, clamp, limited] <;> omega

theorem isFinite_apply {sign : Sign} {magnitude : Nat} (less : (magnitude : Int) < infinityRank) :
    IsFinite (sign.apply magnitude) := by
  have top := infinityRank_pos
  cases sign <;> simp only [Sign.apply, IsFinite] <;> omega

/-- A float is finite if its rank is. -/
theorem isFinite_iff {value : Float} :
    value.isFinite = true ↔ ∃ rank, rank? value = some rank ∧ IsFinite rank := by
  have top := infinityRank_pos
  have same : value.isFinite = value.toModel.unpack.isFinite := rfl
  rw [same, rank?]
  cases unpacked : value.toModel.unpack with
  | notANumber => simp [UnpackedFloat.isFinite, unpackedRank?]
  | infinity sign =>
      simp only [UnpackedFloat.isFinite, unpackedRank?, Option.some.injEq, Bool.false_eq_true,
        false_iff, not_exists, not_and]
      rintro rank rfl ⟨above, below⟩
      cases sign <;> simp only [Sign.apply] at above below <;> omega
  | zero sign =>
      simp only [UnpackedFloat.isFinite, unpackedRank?, Option.some.injEq, true_iff]
      refine ⟨0, rfl, ?_, ?_⟩ <;> omega
  | finite sign mantissa exponent positive =>
      simp only [UnpackedFloat.isFinite, unpackedRank?, Option.some.injEq, true_iff]
      exact ⟨_, rfl, isFinite_apply (abs_rank_lt unpacked).2⟩

/-- A finite float with all its data: a zero, or a number in canonical form. -/
theorem unpack_of_isFinite {value : Float} {rank : Int} (found : rank? value = some rank)
    (finite : IsFinite rank) :
    (∃ sign, value.toModel.unpack = .zero sign ∧ rank = 0) ∨
      ∃ sign mantissa exponent positive,
        value.toModel.unpack = .finite sign mantissa exponent positive ∧
          Canonical mantissa exponent ∧ exponent ≤ 971 ∧
            rank = sign.apply (units mantissa exponent) := by
  rw [rank?] at found
  obtain ⟨above, below⟩ := finite
  cases unpacked : value.toModel.unpack with
  | notANumber =>
      rw [unpacked] at found
      cases found
  | infinity sign =>
      rw [unpacked] at found
      obtain rfl := Option.some.inj found
      cases sign <;> simp only [Sign.apply] at above below <;> omega
  | zero sign =>
      rw [unpacked] at found
      exact .inl ⟨sign, rfl, (Option.some.inj found).symm⟩
  | finite sign mantissa exponent positive =>
      rw [unpacked] at found
      obtain ⟨canonical, limited⟩ := canonical_of_unpack unpacked
      exact .inr ⟨sign, mantissa, exponent, positive, rfl, canonical, limited,
        (Option.some.inj found).symm⟩

/-- Twice the rank of a finite float is short. -/
theorem short_two_mul {value : Float} {rank : Int} (found : rank? value = some rank)
    (finite : IsFinite rank) : Short (2 * rank).natAbs := by
  rcases unpack_of_isFinite found finite with
    ⟨sign, -, rfl⟩ | ⟨sign, mantissa, exponent, -, -, canonical, -, rfl⟩
  · exact ⟨0, 0, by decide, rfl⟩
  · refine ⟨mantissa, (exponent + 1074).toNat + 1, Nat.le_of_lt canonical.mantissa_lt, ?_⟩
    rw [Nat.pow_succ, ← Nat.mul_assoc]
    cases sign <;> simp only [Sign.apply, units] <;> omega

/-- Nearest numbers with their signs. -/
theorem Nearest.signed {number result : Nat} (nearest : Nearest number result) (sign : Sign)
    {other : Int} (short : Short other.natAbs) :
    (sign.apply result - sign.apply number).natAbs ≤ (other - sign.apply number).natAbs := by
  have toZero := nearest 0 ⟨0, 0, by decide, rfl⟩
  have toOther := nearest other.natAbs short
  cases sign <;> simp only [Sign.apply] <;> omega

/-- Packing a finite float that was just unpacked changes nothing. -/
theorem rank_pack_unpack {value : Float.Model} {sign : Sign} {mantissa : Nat} {exponent : Int}
    {positive : 0 < mantissa}
    (unpacked : value.unpack = .finite sign mantissa exponent positive) :
    unpackedRank? (Float.Model.pack (.finite sign mantissa exponent positive)).unpack =
      some (sign.apply (units mantissa exponent)) := by
  obtain ⟨canonical, -⟩ := canonical_of_unpack unpacked
  rw [rank_pack sign canonical positive, clamp_of_lt (abs_rank_lt unpacked).2]

theorem apply_mul (sign : Sign) (left right : Int) :
    sign.apply (left * right) = sign.apply left * right := by
  cases sign with
  | positive => rfl
  | negative => exact (Int.neg_mul _ _).symm

/-- A signed number is rounded to a nearest one. -/
theorem rank_normalize (mantissa : Int) {exponent : Int} (least : -1074 ≤ exponent) :
    ∃ result, unpackedRank? (Float.Model.pack
        (normalize Format.binary64 mantissa exponent .positive)).unpack = some (limited result) ∧
      ∀ other : Int, Short other.natAbs →
        (result - mantissa * 2 ^ (exponent + 1074).toNat).natAbs ≤
          (other - mantissa * 2 ^ (exponent + 1074).toNat).natAbs := by
  have exact : ∀ sign : Sign, sign.apply (mantissa.natAbs : Int) = mantissa →
      sign.apply (units mantissa.natAbs exponent) = mantissa * 2 ^ (exponent + 1074).toNat := by
    intro sign signed
    rw [units, Int.natCast_mul, Int.natCast_pow, apply_mul, signed]
    rfl
  have rounded : ∀ sign : Sign, sign.apply (mantissa.natAbs : Int) = mantissa → mantissa ≠ 0 →
      ∃ result, unpackedRank? (Float.Model.pack
          (round Format.binary64 sign mantissa.natAbs exponent)).unpack = some (limited result) ∧
        ∀ other : Int, Short other.natAbs →
          (result - mantissa * 2 ^ (exponent + 1074).toNat).natAbs ≤
            (other - mantissa * 2 ^ (exponent + 1074).toNat).natAbs := by
    intro sign signed nonzero
    obtain ⟨result, found, nearest⟩ := rank_round sign (Int.natAbs_pos.mpr nonzero) least
    refine ⟨sign.apply result, by rw [found, apply_clamp], fun other short => ?_⟩
    rw [← exact sign signed]
    exact nearest.signed sign short
  rw [UnpackedFloat.normalize]
  split
  next negative =>
    have less := Int.compare_eq_lt.mp negative
    rw [show (-mantissa).toNat = mantissa.natAbs by omega]
    exact rounded .negative (by simp only [Sign.apply]; omega) (Int.ne_of_lt less)
  next zero =>
    obtain rfl := Int.compare_eq_eq.mp zero
    have top := infinityRank_pos
    refine ⟨0, ?_, fun other _ => ?_⟩
    · rw [rank_pack_zero, limited_eq ⟨by omega, top⟩]
    · rw [Int.zero_mul]
      exact Nat.zero_le _
  next positive =>
    have greater := Int.compare_eq_gt.mp positive
    rw [show mantissa.toNat = mantissa.natAbs by omega]
    exact rounded .positive (by simp only [Sign.apply]; omega) (Int.ne_of_gt greater)

/-- Lowering the exponent of a number does not change it. -/
theorem apply_decreaseExponent (sign : Sign) (mantissa : Nat) {exponent lower : Int}
    (below : lower ≤ exponent) (least : -1074 ≤ lower) :
    sign.apply (decreaseExponent mantissa exponent lower).1 * 2 ^ (lower + 1074).toNat =
      sign.apply (units mantissa exponent) := by
  have scale : (exponent + 1074).toNat = (exponent - lower).toNat + (lower + 1074).toNat := by omega
  simp only [decreaseExponent, Nat.shiftLeft_eq]
  rw [units, scale, Nat.pow_add, ← Nat.mul_assoc, ← apply_mul,
    Int.natCast_mul (mantissa * _) (2 ^ _), Int.natCast_pow]
  rfl

/-- Floats of the same finite rank are made of the same data, unless they are zeros. -/
theorem unpack_eq_or_zero {left right : Float} {rank : Int} (leftRank : rank? left = some rank)
    (rightRank : rank? right = some rank) (finite : IsFinite rank) :
    left.toModel.unpack = right.toModel.unpack ∨
      (∃ sign, left.toModel.unpack = .zero sign) ∧ ∃ sign, right.toModel.unpack = .zero sign := by
  rcases unpack_of_isFinite leftRank finite with
    ⟨sign, leftZero, rankEq⟩ |
      ⟨sign, mantissa, exponent, positive, leftEq, canonical, -, rankEq⟩ <;>
  rcases unpack_of_isFinite rightRank finite with
    ⟨other, rightZero, otherEq⟩ |
      ⟨other, otherMantissa, otherExponent, otherPositive, rightEq, otherCanonical, -, otherEq⟩
  · exact .inr ⟨⟨sign, leftZero⟩, other, rightZero⟩
  · have := units_pos otherPositive otherExponent
    cases other <;> simp only [Sign.apply] at otherEq <;> omega
  · have := units_pos positive exponent
    cases sign <;> simp only [Sign.apply] at rankEq <;> omega
  · have := units_pos positive exponent
    have := units_pos otherPositive otherExponent
    obtain ⟨rfl, same⟩ : sign = other ∧
        units mantissa exponent = units otherMantissa otherExponent := by
      cases sign <;> cases other <;> simp only [Sign.apply] at rankEq otherEq <;>
        first | exact ⟨rfl, by omega⟩ | omega
    obtain ⟨rfl, rfl⟩ := canonical.eq_of_units_eq otherCanonical same
    exact .inl (leftEq.trans rightEq.symm)

/-- A number that is not finite is an infinity. -/
theorem unpack_of_not_isFinite {value : Float} {rank : Int} (found : rank? value = some rank)
    (infinite : ¬ IsFinite rank) :
    ∃ sign, value.toModel.unpack = .infinity sign ∧ rank = sign.apply infinityRank := by
  have top := infinityRank_pos
  rw [rank?] at found
  cases unpacked : value.toModel.unpack with
  | notANumber =>
      rw [unpacked] at found
      cases found
  | infinity sign =>
      rw [unpacked] at found
      exact ⟨sign, rfl, (Option.some.inj found).symm⟩
  | zero sign =>
      rw [unpacked] at found
      obtain rfl := Option.some.inj found
      refine absurd ⟨?_, ?_⟩ infinite <;> omega
  | finite sign mantissa exponent positive =>
      rw [unpacked] at found
      obtain rfl := Option.some.inj found
      exact absurd (isFinite_apply (abs_rank_lt unpacked).2) infinite

/-- Equal numbers are made of the same data, unless they are zeros. -/
theorem unpack_of_eq {left right : Float} (same : Scalar.eq left right = true) :
    left.toModel.unpack = right.toModel.unpack ∨
      (∃ sign, left.toModel.unpack = .zero sign) ∧ ∃ sign, right.toModel.unpack = .zero sign := by
  obtain ⟨rank, leftRank, rightRank⟩ := eq_iff.mp same
  by_cases finite : IsFinite rank
  · exact unpack_eq_or_zero leftRank rightRank finite
  · have top := infinityRank_pos
    obtain ⟨sign, leftEq, rankEq⟩ := unpack_of_not_isFinite leftRank finite
    obtain ⟨other, rightEq, otherEq⟩ := unpack_of_not_isFinite rightRank finite
    obtain rfl : sign = other := by
      cases sign <;> cases other <;> simp only [Sign.apply] at rankEq otherEq <;>
        first | rfl | omega
    exact .inl (leftEq.trans rightEq.symm)

theorem rank_zero_add {left right : Float} {sign : Sign} {rank : Int}
    (zero : left.toModel.unpack = .zero sign) (found : rank? right = some rank)
    (finite : IsFinite rank) : rank? (left + right) = some rank := by
  have added : rank? (left + right) = unpackedRank? (Float.Model.pack
      (UnpackedFloat.add Format.binary64 left.toModel.unpack right.toModel.unpack)).unpack := rfl
  rw [added, zero]
  rcases unpack_of_isFinite found finite with
    ⟨other, rightZero, rfl⟩ | ⟨other, mantissa, exponent, positive, rightEq, -, -, rfl⟩
  · rw [rightZero]
    cases sign <;> cases other <;> exact rank_pack_zero _
  · rw [rightEq]
    exact rank_pack_unpack rightEq

theorem rank_add_zero {left right : Float} {sign : Sign} {rank : Int}
    (found : rank? left = some rank) (finite : IsFinite rank)
    (zero : right.toModel.unpack = .zero sign) : rank? (left + right) = some rank := by
  have added : rank? (left + right) = unpackedRank? (Float.Model.pack
      (UnpackedFloat.add Format.binary64 left.toModel.unpack right.toModel.unpack)).unpack := rfl
  rw [added, zero]
  rcases unpack_of_isFinite found finite with
    ⟨other, leftZero, rfl⟩ | ⟨other, mantissa, exponent, positive, leftEq, -, -, rfl⟩
  · rw [leftZero]
    cases sign <;> cases other <;> exact rank_pack_zero _
  · rw [leftEq]
    exact rank_pack_unpack leftEq

/-- The sum of two finite floats is a nearest float, or infinite if that is too large. -/
theorem rank_add {left right : Float} {first second : Int} (leftRank : rank? left = some first)
    (rightRank : rank? right = some second) (leftFinite : IsFinite first)
    (rightFinite : IsFinite second) :
    ∃ sum, rank? (left + right) = some (limited sum) ∧
      ∀ other : Int, Short other.natAbs →
        (sum - (first + second)).natAbs ≤ (other - (first + second)).natAbs := by
  have exact : ∀ sum : Int, sum = first + second → ∀ other : Int, Short other.natAbs →
      (sum - (first + second)).natAbs ≤ (other - (first + second)).natAbs := by
    intro sum same other _
    rw [same, Int.sub_self]
    exact Nat.zero_le _
  rcases unpack_of_isFinite leftRank leftFinite with
    ⟨sign, leftZero, rfl⟩ |
      ⟨sign, mantissa, exponent, positive, leftEq, canonical, -, rfl⟩
  · refine ⟨second, ?_, exact second (Int.zero_add _).symm⟩
    rw [limited_eq rightFinite]
    exact rank_zero_add leftZero rightRank rightFinite
  rcases unpack_of_isFinite rightRank rightFinite with
    ⟨other, rightZero, rfl⟩ |
      ⟨other, otherMantissa, otherExponent, otherPositive, rightEq, otherCanonical, -, rfl⟩
  · refine ⟨_, ?_, exact _ (Int.add_zero _).symm⟩
    rw [limited_eq leftFinite]
    exact rank_add_zero leftRank leftFinite rightZero
  · have least : -1074 ≤ min exponent otherExponent := by
      have := canonical.exponent_ge
      have := otherCanonical.exponent_ge
      omega
    obtain ⟨sum, found, nearest⟩ := rank_normalize
      (sign.apply (decreaseExponent mantissa exponent (min exponent otherExponent)).1 +
        other.apply (decreaseExponent otherMantissa otherExponent
          (min exponent otherExponent)).1) least
    have added : rank? (left + right) = unpackedRank? (Float.Model.pack
        (UnpackedFloat.add Format.binary64 left.toModel.unpack right.toModel.unpack)).unpack := rfl
    rw [added, leftEq, rightEq]
    refine ⟨sum, found, ?_⟩
    rwa [Int.add_mul, apply_decreaseExponent sign mantissa (Int.min_le_left _ _) least,
      apply_decreaseExponent other otherMantissa (Int.min_le_right _ _) least] at nearest

/-- The rank of a sum does not depend on the signs of zeros. -/
theorem rank_add_congr {left right other last : Float} {first second : Int}
    (leftRank : rank? left = some first) (otherRank : rank? other = some first)
    (rightRank : rank? right = some second) (lastRank : rank? last = some second)
    (leftFinite : IsFinite first) (rightFinite : IsFinite second) :
    rank? (left + right) = rank? (other + last) := by
  rcases unpack_eq_or_zero leftRank otherRank leftFinite with
    leftEq | ⟨⟨sign, leftZero⟩, _, otherZero⟩
  · rcases unpack_eq_or_zero rightRank lastRank rightFinite with
      rightEq | ⟨⟨sign, rightZero⟩, _, lastZero⟩
    · have added : ∀ one two : Float, rank? (one + two) = unpackedRank? (Float.Model.pack
          (UnpackedFloat.add Format.binary64 one.toModel.unpack two.toModel.unpack)).unpack :=
        fun _ _ => rfl
      rw [added, added, leftEq, rightEq]
    · rw [rank_add_zero leftRank leftFinite rightZero, rank_add_zero otherRank leftFinite lastZero]
  · rw [rank_zero_add leftZero rightRank rightFinite, rank_zero_add otherZero lastRank rightFinite]

/-- Equal numbers that are taken away from a larger one leave the same, whatever the sign of a
zero. -/
theorem sub_congr {value left right : Float} (same : Scalar.eq left right = true)
    (less : Scalar.lt left value = true) : value - left = value - right := by
  have difference : ∀ other : Float, value - other = ⟨Float.Model.pack
      (UnpackedFloat.sub Format.binary64 value.toModel.unpack other.toModel.unpack)⟩ :=
    fun _ => rfl
  rw [difference, difference]
  rcases unpack_of_eq same with unpackEq | ⟨⟨sign, leftZero⟩, other, rightZero⟩
  · rw [unpackEq]
  · obtain ⟨first, second, leftRank, valueRank, positive⟩ := lt_iff.mp less
    rw [leftZero, rightZero]
    cases unpacked : value.toModel.unpack with
    | notANumber => rfl
    | infinity _ => rfl
    | finite _ _ _ _ => rfl
    | zero _ =>
        rw [rank?, leftZero] at leftRank
        rw [rank?, unpacked] at valueRank
        obtain rfl := Option.some.inj leftRank
        obtain rfl := Option.some.inj valueRank
        exact absurd positive (Int.lt_irrefl 0)

/-- The halves of a short number, rounded down and up, are short. -/
theorem short_halves {mantissa : Nat} (small : mantissa < 2 ^ 53) (exponent : Int) :
    Short (units mantissa exponent / 2) ∧ Short ((units mantissa exponent + 1) / 2) := by
  rw [units]
  cases (exponent + 1074).toNat with
  | zero =>
      rw [Nat.pow_zero, Nat.mul_one]
      exact ⟨⟨mantissa / 2, 0, by omega, (Nat.mul_one _).symm⟩,
        ⟨(mantissa + 1) / 2, 0, by omega, (Nat.mul_one _).symm⟩⟩
  | succ shift =>
      have double : mantissa * 2 ^ (shift + 1) = 2 * (mantissa * 2 ^ shift) := by
        rw [Nat.pow_succ, ← Nat.mul_assoc, Nat.mul_comm]
      rw [double]
      exact ⟨⟨mantissa, shift, Nat.le_of_lt small, by omega⟩,
        ⟨mantissa, shift, Nat.le_of_lt small, by omega⟩⟩

/-- Half of a finite float is off by at most one half of the least positive float. -/
theorem rank_half {value : Float} {rank : Int} (found : rank? value = some rank)
    (finite : IsFinite rank) :
    ∃ half, rank? (value / Scalar.ofNat 2) = some half ∧ (2 * half - rank).natAbs ≤ 1 := by
  have divided : rank? (value / Scalar.ofNat 2) = unpackedRank? (Float.Model.pack
      (UnpackedFloat.div Format.binary64 value.toModel.unpack
        (.finite .positive (2 ^ 52) (-51) (Nat.two_pow_pos 52)))).unpack := rfl
  rw [divided]
  rcases unpack_of_isFinite found finite with
    ⟨sign, unpacked, rfl⟩ | ⟨sign, mantissa, exponent, positive, unpacked, canonical, -, rfl⟩
  · rw [unpacked]
    exact ⟨0, rank_pack_zero _, by decide⟩
  · rw [unpacked]
    have bound := (abs_rank_lt unpacked).2
    have positiveUnits := (abs_rank_lt unpacked).1
    obtain ⟨half, halved, between⟩ := rank_quotient sign positive (Nat.two_pow_pos 52)
      canonical.exponent_ge (by decide : -1074 ≤ (-51 : Int))
    have two (number : Nat) : number * units (2 ^ 52) (-51) = 2 * number * oneRank := by
      have same : units (2 ^ 52) (-51) = 2 * oneRank := by decide +kernel
      rw [same, ← Nat.mul_assoc, Nat.mul_comm number]
    obtain ⟨down, up⟩ := short_halves canonical.mantissa_lt exponent
    have atLeast := (between _ down).2 (by
      rw [two]
      exact Nat.mul_le_mul_right _ (by omega))
    have atMost := (between _ up).1 (by
      rw [two]
      exact Nat.mul_le_mul_right _ (by omega))
    refine ⟨_, halved, ?_⟩
    rw [clamp_of_lt (by omega)]
    cases sign <;> simp only [Sign.apply] <;> omega

theorem rank_bounds {value : Float} {rank : Int} (found : rank? value = some rank) :
    -infinityRank ≤ rank ∧ rank ≤ infinityRank := by
  have top := infinityRank_pos
  rw [rank?] at found
  cases unpacked : value.toModel.unpack with
  | notANumber =>
      rw [unpacked] at found
      cases found
  | infinity sign =>
      rw [unpacked] at found
      obtain rfl := Option.some.inj found
      cases sign <;> simp only [Sign.apply] <;> omega
  | zero sign =>
      rw [unpacked] at found
      obtain rfl := Option.some.inj found
      omega
  | finite sign mantissa exponent positive =>
      rw [unpacked] at found
      obtain rfl := Option.some.inj found
      have bounds := abs_rank_lt unpacked
      cases sign <;> simp only [Sign.apply] <;> omega

/-- A sum with an operand that is not finite is infinite or not a number. -/
theorem isFinite_of_add_ne {left right : UnpackedFloat}
    (number : UnpackedFloat.add Format.binary64 left right ≠ .notANumber)
    (bounded : ∀ sign, UnpackedFloat.add Format.binary64 left right ≠ .infinity sign) :
    left.isFinite = true ∧ right.isFinite = true := by
  cases left with
  | notANumber => exact absurd rfl number
  | infinity sign =>
      cases right with
      | notANumber => exact absurd rfl number
      | infinity other =>
          cases sign <;> cases other
          · exact absurd rfl (bounded .negative)
          · exact absurd rfl number
          · exact absurd rfl number
          · exact absurd rfl (bounded .positive)
      | zero other => exact absurd rfl (bounded sign)
      | finite other mantissa exponent positive => exact absurd rfl (bounded sign)
  | zero sign =>
      cases right with
      | notANumber => exact absurd rfl number
      | infinity other => exact absurd rfl (bounded other)
      | zero other => exact ⟨rfl, rfl⟩
      | finite other mantissa exponent positive => exact ⟨rfl, rfl⟩
  | finite sign mantissa exponent positive =>
      cases right with
      | notANumber => exact absurd rfl number
      | infinity other => exact absurd rfl (bounded other)
      | zero other => exact ⟨rfl, rfl⟩
      | finite other otherMantissa otherExponent otherPositive => exact ⟨rfl, rfl⟩

theorem not_isFinite_infinity (sign : Sign) : ¬ IsFinite (sign.apply infinityRank) := by
  rintro ⟨above, below⟩
  cases sign <;> simp only [Sign.apply] at above below <;> omega

/-- Only finite floats have a finite sum. -/
theorem isFinite_of_add {left right : Float} (finite : (left + right).isFinite = true) :
    left.isFinite = true ∧ right.isFinite = true := by
  obtain ⟨rank, found, rankFinite⟩ := isFinite_iff.mp finite
  have added : rank? (left + right) = unpackedRank? (Float.Model.pack
      (UnpackedFloat.add Format.binary64 left.toModel.unpack right.toModel.unpack)).unpack := rfl
  rw [added] at found
  apply isFinite_of_add_ne
  · intro same
    rw [same, rank_pack_notANumber] at found
    cases found
  · intro sign same
    rw [same, rank_pack_infinity] at found
    exact not_isFinite_infinity sign ((Option.some.inj found) ▸ rankFinite)

/-- Sums of equal floats are both finite or both not. -/
theorem isFinite_add_congr {left right other last : Float}
    (leftSame : Scalar.eq left other = true) (rightSame : Scalar.eq right last = true)
    (finite : (left + right).isFinite = true) : (other + last).isFinite = true := by
  obtain ⟨first, leftRank, otherRank⟩ := eq_iff.mp leftSame
  obtain ⟨second, rightRank, lastRank⟩ := eq_iff.mp rightSame
  obtain ⟨leftFinite, rightFinite⟩ := isFinite_of_add finite
  obtain ⟨_, sameLeft, firstFinite⟩ := isFinite_iff.mp leftFinite
  obtain rfl := Option.some.inj (leftRank.symm.trans sameLeft)
  obtain ⟨_, sameRight, secondFinite⟩ := isFinite_iff.mp rightFinite
  obtain rfl := Option.some.inj (rightRank.symm.trans sameRight)
  obtain ⟨sum, sumRank, sumFinite⟩ := isFinite_iff.mp finite
  refine isFinite_iff.mpr ⟨sum, ?_, sumFinite⟩
  rw [← rank_add_congr leftRank otherRank rightRank lastRank firstFinite secondFinite, sumRank]

/-- Only a finite float has a finite half. -/
theorem isFinite_of_half {value : Float} {rank : Int}
    (found : rank? (value / Scalar.ofNat 2) = some rank) (finite : IsFinite rank) :
    value.isFinite = true := by
  have divided : rank? (value / Scalar.ofNat 2) = unpackedRank? (Float.Model.pack
      (UnpackedFloat.div Format.binary64 value.toModel.unpack
        (.finite .positive (2 ^ 52) (-51) (Nat.two_pow_pos 52)))).unpack := rfl
  rw [divided] at found
  have same : value.isFinite = value.toModel.unpack.isFinite := rfl
  rw [same]
  cases unpacked : value.toModel.unpack with
  | notANumber =>
      have quotient : UnpackedFloat.div Format.binary64 .notANumber
          (.finite .positive (2 ^ 52) (-51) (Nat.two_pow_pos 52)) = .notANumber := rfl
      rw [unpacked, quotient, rank_pack_notANumber] at found
      cases found
  | infinity sign =>
      have quotient : UnpackedFloat.div Format.binary64 (.infinity sign)
          (.finite .positive (2 ^ 52) (-51) (Nat.two_pow_pos 52)) =
            .infinity (sign / .positive) := rfl
      rw [unpacked, quotient, rank_pack_infinity] at found
      exact absurd ((Option.some.inj found) ▸ finite) (not_isFinite_infinity _)
  | zero sign => rfl
  | finite sign mantissa exponent positive => rfl

/-- The rounded midpoint of two floats lies strictly between them exactly if their sum is finite and
there is a float between them. -/
theorem separates_midpoint_iff {lower upper : Float} (less : Scalar.lt lower upper = true) :
    Scalar.Separates lower (Scalar.midpoint lower upper) upper ↔
      (lower + upper).isFinite = true ∧
        ∃ between : Float, Scalar.lt lower between = true ∧ Scalar.lt between upper = true := by
  obtain ⟨first, second, lowerRank, upperRank, firstLess⟩ := lt_iff.mp less
  have lowerBounds := rank_bounds lowerRank
  have upperBounds := rank_bounds upperRank
  constructor
  · rintro ⟨above, below⟩
    refine ⟨?_, _, above, below⟩
    obtain ⟨own, half, ownRank, halfRank, ownLess⟩ := lt_iff.mp above
    obtain ⟨other, last, otherRank, lastRank, otherLess⟩ := lt_iff.mp below
    obtain rfl := Option.some.inj (lowerRank.symm.trans ownRank)
    obtain rfl := Option.some.inj (upperRank.symm.trans lastRank)
    obtain rfl := Option.some.inj (halfRank.symm.trans otherRank)
    exact isFinite_of_half halfRank ⟨by omega, by omega⟩
  · rintro ⟨finite, between, above, below⟩
    obtain ⟨own, middle, ownRank, middleRank, ownLess⟩ := lt_iff.mp above
    obtain ⟨other, last, otherRank, lastRank, otherLess⟩ := lt_iff.mp below
    obtain rfl := Option.some.inj (lowerRank.symm.trans ownRank)
    obtain rfl := Option.some.inj (upperRank.symm.trans lastRank)
    obtain rfl := Option.some.inj (middleRank.symm.trans otherRank)
    obtain ⟨lowerFinite, upperFinite⟩ := isFinite_of_add finite
    obtain ⟨_, sameLower, firstFinite⟩ := isFinite_iff.mp lowerFinite
    obtain rfl := Option.some.inj (lowerRank.symm.trans sameLower)
    obtain ⟨_, sameUpper, secondFinite⟩ := isFinite_iff.mp upperFinite
    obtain rfl := Option.some.inj (upperRank.symm.trans sameUpper)
    obtain ⟨sum, sumRank, nearest⟩ := rank_add lowerRank upperRank firstFinite secondFinite
    obtain ⟨_, sameSum, sumFinite⟩ := isFinite_iff.mp finite
    obtain rfl := Option.some.inj (sumRank.symm.trans sameSum)
    obtain ⟨half, halfRank, halved⟩ := rank_half sumRank sumFinite
    have sumEq : limited sum = sum := by
      obtain ⟨notLow, notHigh⟩ := sumFinite
      unfold limited at notLow notHigh ⊢
      omega
    rw [sumEq] at halved
    -- twice the float between is short, so the sum is at least as near to the exact sum
    have near := nearest (2 * middle) (short_two_mul middleRank ⟨by omega, by omega⟩)
    constructor
    · exact lt_iff.mpr ⟨first, half, lowerRank, halfRank, by omega⟩
    · exact lt_iff.mpr ⟨half, second, halfRank, upperRank, by omega⟩

end DecisionTree.Binary64
