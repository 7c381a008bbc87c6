import DecisionTree.Proofs.Binary64.Midpoint
import DecisionTree.Proofs.Sums

/-!
# Sums and shares of floats that are not negative

A rounded sum of floats that are not negative is at least as large as each of them, and no larger
than any short number that the exact sum does not exceed (`NonNegative.add`).  So it lies between
its largest term and as many times a power of two as there are terms
(`Sums.le_total`, `Sums.total_le`).  The share of a part in a total is at most one, and what it is
worth at least does not depend on rounding (`NonNegative.div`).
-/

namespace DecisionTree

namespace Binary64

open Float.Model (Format UnpackedFloat)
open Float.Model.UnpackedFloat

/-- How many times the least positive float a float is, if it is not negative. -/
def magnitude (value : Float) : Nat :=
  ((rank? value).getD 0).toNat

/-- A number that is not negative, infinity included. -/
def NonNegative (value : Float) : Prop :=
  rank? value = some (magnitude value : Int)

theorem magnitude_of_rank {value : Float} {rank : Nat} (found : rank? value = some (rank : Int)) :
    magnitude value = rank := by
  rw [magnitude, found]
  rfl

theorem NonNegative.of_rank {value : Float} {rank : Nat}
    (found : rank? value = some (rank : Int)) : NonNegative value := by
  rw [NonNegative, magnitude_of_rank found, found]

/-- What holds of the rank of a number that is not negative holds of its magnitude. -/
theorem NonNegative.of_exists {value : Float} (property : Nat → Prop)
    (ranked : ∃ rank : Nat, rank? value = some (rank : Int) ∧ property rank) :
    NonNegative value ∧ property (magnitude value) := by
  obtain ⟨rank, found, holds⟩ := ranked
  rw [magnitude_of_rank found]
  exact ⟨.of_rank found, holds⟩

theorem rank_zero : rank? (0 : Float) = some ((0 : Nat) : Int) := by
  decide

theorem nonNegative_iff {value : Float} : NonNegative value ↔ Scalar.le 0 value = true := by
  rw [le_iff]
  constructor
  · intro found
    exact ⟨_, _, rank_zero, found, Int.natCast_nonneg _⟩
  · rintro ⟨zero, rank, zeroRank, found, nonneg⟩
    obtain rfl := Option.some.inj (rank_zero.symm.trans zeroRank)
    obtain ⟨natural, rfl⟩ := Int.eq_ofNat_of_zero_le nonneg
    exact .of_rank found

namespace NonNegative

variable {value left right : Float}

theorem isFinite_iff (nonNegative : NonNegative value) :
    value.isFinite = true ↔ (magnitude value : Int) < infinityRank := by
  have top := infinityRank_pos
  rw [Binary64.isFinite_iff]
  constructor
  · rintro ⟨rank, found, -, below⟩
    obtain rfl := Option.some.inj (nonNegative.symm.trans found)
    exact below
  · intro below
    exact ⟨_, nonNegative, by omega, below⟩

theorem isFinite_rank (nonNegative : NonNegative value) (finite : value.isFinite = true) :
    IsFinite (magnitude value) := by
  have top := infinityRank_pos
  have := nonNegative.isFinite_iff.mp finite
  exact ⟨by omega, this⟩

theorem lt_zero_iff (nonNegative : NonNegative value) :
    Scalar.lt 0 value = true ↔ 0 < magnitude value := by
  rw [lt_iff]
  constructor
  · rintro ⟨zero, rank, zeroRank, found, positive⟩
    obtain rfl := Option.some.inj (rank_zero.symm.trans zeroRank)
    obtain rfl := Option.some.inj (nonNegative.symm.trans found)
    exact Int.natCast_pos.mp positive
  · intro positive
    exact ⟨_, _, rank_zero, nonNegative, Int.natCast_pos.mpr positive⟩

/-- A finite number that is not negative is a zero or a positive number in canonical form. -/
theorem unpack_of_isFinite (nonNegative : NonNegative value) (finite : value.isFinite = true) :
    (magnitude value = 0 ∧ ∃ sign, value.toModel.unpack = .zero sign) ∨
      ∃ mantissa exponent positive,
        value.toModel.unpack = .finite .positive mantissa exponent positive ∧
          Canonical mantissa exponent ∧ magnitude value = units mantissa exponent := by
  rcases Binary64.unpack_of_isFinite nonNegative (nonNegative.isFinite_rank finite) with
    ⟨sign, unpacked, none⟩ | ⟨sign, mantissa, exponent, positive, unpacked, canonical, -, rankEq⟩
  · exact .inl ⟨by omega, sign, unpacked⟩
  · have := units_pos positive exponent
    cases sign with
    | positive =>
        exact .inr ⟨mantissa, exponent, positive, unpacked, canonical, Int.ofNat.inj rankEq⟩
    | negative =>
        simp only [Sign.apply] at rankEq
        omega

/-- The magnitude of a finite float is short. -/
theorem short (nonNegative : NonNegative value) (finite : value.isFinite = true) :
    Short (magnitude value) := by
  rcases nonNegative.unpack_of_isFinite finite with
    ⟨none, -⟩ | ⟨mantissa, exponent, -, -, canonical, same⟩
  · exact ⟨0, 0, by decide, none⟩
  · rw [same]
    exact short_units (Nat.le_of_lt canonical.mantissa_lt) exponent

/-- Nothing that is not negative exceeds infinity. -/
theorem magnitude_le (nonNegative : NonNegative value) :
    (magnitude value : Int) ≤ infinityRank :=
  (rank_bounds nonNegative).2

/-- A number that is not negative and not finite is positive infinity. -/
theorem unpack_infinity (nonNegative : NonNegative value) (infinite : value.isFinite = false) :
    value.toModel.unpack = .infinity .positive := by
  have top := infinityRank_pos
  have notFinite : ¬ IsFinite (magnitude value) := by
    intro finite
    have := nonNegative.isFinite_iff.mpr finite.2
    rw [infinite] at this
    cases this
  obtain ⟨sign, unpacked, rankEq⟩ := unpack_of_not_isFinite nonNegative notFinite
  cases sign with
  | positive => exact unpacked
  | negative =>
      simp only [Sign.apply] at rankEq
      omega

/-- A sum with an infinite term is infinite. -/
theorem rank_add_infinity (first : NonNegative left) (second : NonNegative right)
    (infinite : left.isFinite = false ∨ right.isFinite = false) :
    rank? (left + right) = some infinityRank := by
  have added : rank? (left + right) = unpackedRank? (Float.Model.pack
      (UnpackedFloat.add Format.binary64 left.toModel.unpack right.toModel.unpack)).unpack := rfl
  have sum : UnpackedFloat.add Format.binary64 left.toModel.unpack right.toModel.unpack =
      .infinity .positive := by
    rcases Bool.eq_false_or_eq_true left.isFinite with leftFinite | leftInfinite
    · have rightInfinite := infinite.resolve_left (by simp [leftFinite])
      rw [second.unpack_infinity rightInfinite]
      rcases first.unpack_of_isFinite leftFinite with
        ⟨-, sign, unpacked⟩ | ⟨mantissa, exponent, positive, unpacked, -⟩ <;>
        rw [unpacked] <;> rfl
    · rw [first.unpack_infinity leftInfinite]
      rcases Bool.eq_false_or_eq_true right.isFinite with rightFinite | rightInfinite
      · rcases second.unpack_of_isFinite rightFinite with
          ⟨-, sign, unpacked⟩ | ⟨mantissa, exponent, positive, unpacked, -⟩ <;>
          rw [unpacked] <;> rfl
      · rw [second.unpack_infinity rightInfinite]
        rfl
  rw [added, sum, rank_pack_infinity]
  rfl

/-- The rounded sum is no smaller than its terms, and no larger than a short number that the exact
sum does not exceed. -/
theorem add (first : NonNegative left) (second : NonNegative right) :
    NonNegative (left + right) ∧
      (magnitude left ≤ magnitude (left + right) ∧ magnitude right ≤ magnitude (left + right)) ∧
        ∀ bound, Short bound → magnitude left + magnitude right ≤ bound →
          magnitude (left + right) ≤ bound := by
  have top := infinityRank_pos
  have leftTop := first.magnitude_le
  have rightTop := second.magnitude_le
  refine of_exists (fun rank => (magnitude left ≤ rank ∧ magnitude right ≤ rank) ∧
    ∀ bound, Short bound → magnitude left + magnitude right ≤ bound → rank ≤ bound) ?_
  by_cases infinite : left.isFinite = false ∨ right.isFinite = false
  · have natural : infinityRank = (infinityRank.toNat : Int) := by omega
    have large : infinityRank ≤ magnitude left ∨ infinityRank ≤ magnitude right := by
      rw [Bool.eq_false_iff, Bool.eq_false_iff, ne_eq, ne_eq, first.isFinite_iff,
        second.isFinite_iff] at infinite
      omega
    exact ⟨infinityRank.toNat, natural ▸ first.rank_add_infinity second infinite, by omega,
      fun bound _ less => by omega⟩
  · simp only [not_or, Bool.not_eq_false] at infinite
    obtain ⟨leftFinite, rightFinite⟩ := infinite
    obtain ⟨sum, found, nearest⟩ := rank_add first second (first.isFinite_rank leftFinite)
      (second.isFinite_rank rightFinite)
    -- either term and the bound are short, so the rounded sum is at least as near to the exact one
    have fromLeft := nearest (magnitude left : Int) (first.short leftFinite)
    have fromRight := nearest (magnitude right : Int) (second.short rightFinite)
    have natural : limited sum = ((limited sum).toNat : Int) := by
      unfold limited
      omega
    rw [natural] at found
    refine ⟨_, found, ?_, fun bound short less => ?_⟩
    · unfold limited
      omega
    · have := nearest (bound : Int) short
      unfold limited
      omega

/-- The share of a part in a finite total is at most one, and no smaller than a short number that
the exact share reaches. -/
theorem div (part : NonNegative left) (total : NonNegative right)
    (less : magnitude left ≤ magnitude right) (positive : 0 < magnitude right)
    (finite : right.isFinite = true) :
    NonNegative (left / right) ∧ magnitude (left / right) ≤ oneRank ∧
      ∀ number, Short number → number * magnitude right ≤ magnitude left * oneRank →
        number ≤ magnitude (left / right) := by
  have divided : rank? (left / right) = unpackedRank? (Float.Model.pack
      (UnpackedFloat.div Format.binary64 left.toModel.unpack right.toModel.unpack)).unpack := rfl
  have bounded := total.isFinite_iff.mp finite
  refine of_exists (fun rank => rank ≤ oneRank ∧ ∀ number, Short number →
    number * magnitude right ≤ magnitude left * oneRank → number ≤ rank) ?_
  rcases total.unpack_of_isFinite finite with
    ⟨none, -⟩ | ⟨divisor, other, nonzero, rightEq, rightCanonical, rightUnits⟩
  · omega
  rcases part.unpack_of_isFinite (part.isFinite_iff.mpr (by omega)) with
    ⟨none, sign, leftEq⟩ | ⟨mantissa, exponent, above, leftEq, canonical, leftUnits⟩
  · rw [divided, leftEq, rightEq, none]
    refine ⟨0, rank_pack_zero _, Nat.zero_le _, fun number _ reached => ?_⟩
    rw [Nat.zero_mul] at reached
    exact Nat.le_of_mul_le_mul_right (by omega) positive
  · obtain ⟨quotient, found, between⟩ := rank_quotient .positive above nonzero
      canonical.exponent_ge rightCanonical.exponent_ge
    rw [← leftUnits, ← rightUnits] at between
    have atMost : quotient ≤ oneRank := by
      refine (between oneRank (short_units (by decide) 0)).1 ?_
      rw [Nat.mul_comm oneRank]
      exact Nat.mul_le_mul_right _ less
    have one : (oneRank : Int) < infinityRank := by decide +kernel
    rw [divided, leftEq, rightEq, found, clamp_of_lt (by omega)]
    exact ⟨quotient, rfl, atMost, fun number short => (between number short).2⟩

/-- There is no positive share in an infinite total. -/
theorem div_infinity (total : NonNegative right) (infinite : right.isFinite = false) :
    Scalar.lt 0 (left / right) = false := by
  have divided : rank? (left / right) = unpackedRank? (Float.Model.pack
      (UnpackedFloat.div Format.binary64 left.toModel.unpack right.toModel.unpack)).unpack := rfl
  have noShare : rank? (left / right) = none ∨ rank? (left / right) = some 0 := by
    rw [divided, total.unpack_infinity infinite]
    cases left.toModel.unpack with
    | notANumber => exact .inl rank_pack_notANumber
    | infinity sign => exact .inl rank_pack_notANumber
    | zero sign => exact .inr (rank_pack_zero _)
    | finite sign mantissa exponent positive => exact .inr (rank_pack_zero _)
  rw [Bool.eq_false_iff, ne_eq, lt_iff]
  rintro ⟨zero, rank, zeroRank, found, positive⟩
  obtain rfl := Option.some.inj (rank_zero.symm.trans zeroRank)
  rcases noShare with none | none
  · rw [none] at found
    cases found
  · rw [none] at found
    obtain rfl := Option.some.inj found
    exact absurd positive (Int.lt_irrefl 0)

end NonNegative

section OfNat

variable {number : Nat}

theorem units_eq_mul (number : Nat) : units number 0 = number * oneRank := by
  rw [oneRank, units, units, Nat.one_mul]

theorem mul_oneRank_lt (small : number < 2 ^ 53) :
    ((number * oneRank : Nat) : Int) < infinityRank := by
  have most : ((2 ^ 53 * oneRank : Nat) : Int) < infinityRank := by decide +kernel
  have := Nat.mul_le_mul_right oneRank (Nat.le_of_lt small)
  omega

/-- A natural number of at most 53 bits is not rounded. -/
theorem rank_toFloat (small : number < 2 ^ 53) :
    rank? number.toUInt64.toFloat = some ((number * oneRank : Nat) : Int) := by
  have converted : rank? number.toUInt64.toFloat = unpackedRank? (Float.Model.pack
      (normalize Format.binary64 number.toUInt64.toNat 0 .positive)).unpack := rfl
  have word : number.toUInt64.toNat = number := UInt64.toNat_ofNat_of_lt' (by
    rw [UInt64.size]
    omega)
  have exact : (number : Int) * 2 ^ (0 + 1074 : Int).toNat = (number * oneRank : Nat) := by
    rw [← units_eq_mul, units, Int.natCast_mul, Int.natCast_pow]
    rfl
  obtain ⟨result, found, nearest⟩ := rank_normalize (number : Int) (by decide : (-1074 : Int) ≤ 0)
  rw [exact] at nearest
  have itself := nearest (number * oneRank : Nat)
    (units_eq_mul number ▸ short_units (Nat.le_of_lt small) 0)
  obtain rfl : result = (number * oneRank : Nat) := by omega
  have top := infinityRank_pos
  rw [converted, word, found, limited_eq ⟨by omega, mul_oneRank_lt small⟩]

/-- Multiplying a finite float by one changes nothing. -/
theorem rank_mul_one {value one : Float} {rank : Int}
    (isOne : one.toModel.unpack = .finite .positive (2 ^ 52) (-52) (Nat.two_pow_pos 52))
    (found : rank? value = some rank) (finite : IsFinite rank) :
    rank? (value * one) = some rank := by
  have product : rank? (value * one) = unpackedRank? (Float.Model.pack
      (UnpackedFloat.mul Format.binary64 value.toModel.unpack one.toModel.unpack)).unpack := rfl
  rw [product, isOne]
  rcases unpack_of_isFinite found finite with
    ⟨sign, unpacked, rfl⟩ | ⟨sign, mantissa, exponent, positive, unpacked, canonical, _, rfl⟩
  · rw [unpacked]
    exact rank_pack_zero _
  · have multiplied : UnpackedFloat.mul Format.binary64 (.finite sign mantissa exponent positive)
        (.finite .positive (2 ^ 52) (-52) (Nat.two_pow_pos 52)) =
          roundWithAccuracy Format.binary64 sign (mantissa * 2 ^ 52) (exponent + -52) .exact := by
      cases sign <;> rfl
    have aligned : target (mantissa * 2 ^ 52) (exponent + -52) = exponent := by
      have log := log2_shiftLeft positive 52
      rw [Nat.shiftLeft_eq] at log
      have short : mantissa.log2 < 53 :=
        (Nat.log2_lt (Nat.ne_of_gt positive)).mpr canonical.mantissa_lt
      have least := canonical.exponent_ge
      unfold target
      rcases canonical.full with full | isLeast
      · have := (Nat.le_log2 (Nat.ne_of_gt positive)).mpr full
        omega
      · omega
    have shiftEq : (exponent - (exponent + -52)).toNat = 52 := by omega
    have rounded : (ExtendedMantissa.ofMantissaAndAccuracy (mantissa * 2 ^ 52) .exact >>>
        52).roundedMantissa = mantissa := by
      have rounds := (Residue.ofShift (mantissa * 2 ^ 52) 52).rounds (Nat.two_pow_pos 52)
      rcases rounds with ⟨same, -⟩ | ⟨-, half⟩ <;> omega
    rw [unpacked, multiplied, rank_roundWithAccuracy sign (by rw [aligned]; omega)
      (by rw [aligned, shiftEq, rounded]) (Nat.le_of_lt canonical.mantissa_lt)
      (by rw [aligned]; exact canonical.full), aligned, clamp_of_lt (abs_rank_lt unpacked).2]

/-- A natural number of at most 53 bits is a float. -/
theorem rank_ofNat (small : number < 2 ^ 53) :
    rank? (Scalar.ofNat number) = some ((number * oneRank : Nat) : Int) := by
  have top := infinityRank_pos
  have read : (Scalar.ofNat number : Float) =
      number.toUInt64.toFloat * Float.exactlyRepresentablePowersOfTen[0] := by
    have unfolded : (Scalar.ofNat number : Float) = Float.ofScientific number false 0 := rfl
    rw [unfolded, Float.ofScientific, dif_pos ⟨small, by decide⟩]
    rfl
  rw [read]
  exact rank_mul_one rfl (rank_toFloat small) ⟨by omega, mul_oneRank_lt small⟩

end OfNat

theorem rank_one : rank? (Scalar.ofNat 1) = some (oneRank : Int) := by
  rw [rank_ofNat (by decide), Nat.one_mul]

theorem short_mul_pow {number : Nat} (small : number ≤ 2 ^ 53) (shift : Nat) :
    Short (number * 2 ^ shift) :=
  ⟨number, shift, small, rfl⟩

/-- One is far more than the least positive float. -/
theorem two_pow_le_oneRank : 2 ^ 54 ≤ oneRank := by
  decide +kernel

end Binary64

namespace Sums

open Binary64

variable {terms : Multiset Float} {total : Float}

theorem nonNegative (sums : Sums terms total) (each : ∀ term ∈ terms, NonNegative term) :
    NonNegative total := by
  induction sums with
  | zero => exact .of_rank rank_zero
  | term value => exact each value (Multiset.mem_singleton_self value)
  | add left right leftIh rightIh =>
      have first := leftIh fun term member => each term (Multiset.mem_add.mpr (.inl member))
      have second := rightIh fun term member => each term (Multiset.mem_add.mpr (.inr member))
      exact (first.add second).1

/-- No term exceeds its sum. -/
theorem le_total (sums : Sums terms total) (each : ∀ term ∈ terms, NonNegative term) :
    ∀ term ∈ terms, magnitude term ≤ magnitude total := by
  induction sums with
  | zero => exact fun term member => absurd member (Multiset.notMem_zero term)
  | term value => exact fun term member => (Multiset.mem_singleton.mp member) ▸ Nat.le_refl _
  | add left right leftIh rightIh =>
      have leftEach := fun term member => each term (Multiset.mem_add.mpr (.inl member))
      have rightEach := fun term member => each term (Multiset.mem_add.mpr (.inr member))
      obtain ⟨-, ⟨first, second⟩, -⟩ :=
        (left.nonNegative leftEach).add (right.nonNegative rightEach)
      intro term member
      rcases Multiset.mem_add.mp member with inLeft | inRight
      · exact (leftIh leftEach term inLeft).trans first
      · exact (rightIh rightEach term inRight).trans second

/-- A sum of so many terms is at most so many times a bound whose multiples are short. -/
theorem total_le (sums : Sums terms total) {bound : Nat}
    (short : ∀ count ≤ terms.card, Short (count * bound))
    (each : ∀ term ∈ terms, NonNegative term ∧ magnitude term ≤ bound) :
    magnitude total ≤ terms.card * bound := by
  induction sums with
  | zero => exact (magnitude_of_rank rank_zero).le.trans (Nat.zero_le _)
  | term value =>
      rw [Multiset.card_singleton, Nat.one_mul]
      exact (each value (Multiset.mem_singleton_self value)).2
  | add left right leftIh rightIh =>
      rw [Multiset.card_add] at short ⊢
      have leftEach := fun term member => each term (Multiset.mem_add.mpr (.inl member))
      have rightEach := fun term member => each term (Multiset.mem_add.mpr (.inr member))
      have first := left.nonNegative fun term member => (leftEach term member).1
      have second := right.nonNegative fun term member => (rightEach term member).1
      refine (first.add second).2.2 _ (short _ (Nat.le_refl _)) ?_
      rw [Nat.add_mul]
      exact Nat.add_le_add
        (leftIh (fun count few => short count (by omega)) leftEach)
        (rightIh (fun count few => short count (by omega)) rightEach)

/-- Some term of a sum is not much smaller than the sum. -/
theorem exists_large (sums : Sums terms total) (each : ∀ term ∈ terms, NonNegative term)
    (nonempty : terms ≠ 0) (few : terms.card ≤ 2 ^ 53) :
    ∃ term ∈ terms, magnitude total ≤ 2 ^ 54 * magnitude term := by
  obtain ⟨term, member, largest⟩ := Multiset.exists_max_image magnitude nonempty
  refine ⟨term, member, ?_⟩
  -- a bound with short multiples that is at most twice the largest term
  obtain ⟨bound, short, atLeast, atMost⟩ : ∃ bound, (∀ count ≤ terms.card,
      Short (count * bound)) ∧ magnitude term ≤ bound ∧ bound ≤ 2 * magnitude term := by
    rcases Nat.eq_zero_or_pos (magnitude term) with zero | positive
    · exact ⟨0, fun count _ => ⟨0, 0, Nat.zero_le _, rfl⟩, by omega, by omega⟩
    · refine ⟨2 ^ ((magnitude term).log2 + 1),
        fun count less => short_mul_pow (less.trans few) _, Nat.le_of_lt Nat.lt_log2_self, ?_⟩
      rw [Nat.pow_succ, Nat.mul_comm]
      exact Nat.mul_le_mul_left 2 (Nat.log2_self_le (Nat.ne_of_gt positive))
  calc magnitude total
      ≤ terms.card * bound := sums.total_le short
          fun other isOther => ⟨each other isOther, (largest other isOther).trans atLeast⟩
    _ ≤ 2 ^ 53 * (2 * magnitude term) := Nat.mul_le_mul few atMost
    _ = 2 ^ 54 * magnitude term := by omega

end Sums

end DecisionTree
