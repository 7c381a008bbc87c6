import DecisionTree.Atom.Basic
import DecisionTree.Proofs.Binary64.Order

/-!
# The exact value of a float and its fields

`Binary64.ofFloat` reads a float off its bits.  It gives the parts that the float is made of
(`ofFloat_eq`), so a float equals the integer zero exactly if it is one of the two zeros
(`Atom.equal_zero`).
-/

namespace DecisionTree

namespace Binary64

open Float.Model (Format UnpackedFloat)
open Float.Model.UnpackedFloat (Sign unpackExponent unpackMantissa unpackSign)

/-- The exact value of an unpacked float. -/
def ofUnpacked : UnpackedFloat → Binary64
  | .notANumber => .nan
  | .infinity sign => .infinite (sign == .negative)
  | .zero sign => .finite (sign == .negative) 0 (-1074)
  | .finite sign mantissa exponent _ => .finite (sign == .negative) mantissa exponent

section Fields

variable (bits : BitVec Format.binary64.numBits)

theorem toNat_unpackExponent : (unpackExponent bits).toNat = (bits.toNat >>> 52) % 2048 := by
  simp [unpackExponent]

theorem toNat_unpackMantissa : (unpackMantissa bits).toNat = bits.toNat % leadingBit := by
  simp [unpackMantissa]
  rfl

theorem negative_unpackSign :
    (Sign.ofBitVec (unpackSign bits) == .negative) = bits.toNat.testBit 63 := by
  have field : (unpackSign bits).toNat = bits.toNat / 2 ^ 63 % 2 := by
    simp [unpackSign, Nat.shiftRight_eq_div_pow]
  rw [Nat.testBit_eq_decide_div_mod_eq, ← field, Sign.ofBitVec]
  split
  next positive =>
    rw [positive]
    rfl
  next negative =>
    have : (unpackSign bits).toNat ≠ 0 := fun same => negative (BitVec.eq_of_toNat_eq same)
    have : (unpackSign bits).toNat = 1 := by omega
    rw [this]
    rfl

/-- What the three fields of a float stand for. -/
theorem ofUnpacked_unpack :
    ofUnpacked (UnpackedFloat.unpack Format.binary64 bits) =
      if (unpackExponent bits).toNat = 2047 then
        if (unpackMantissa bits).toNat = 0 then
          .infinite (Sign.ofBitVec (unpackSign bits) == .negative)
        else .nan
      else if (unpackExponent bits).toNat = 0 then
        .finite (Sign.ofBitVec (unpackSign bits) == .negative) (unpackMantissa bits).toNat (-1074)
      else
        .finite (Sign.ofBitVec (unpackSign bits) == .negative)
          (leadingBit + (unpackMantissa bits).toNat) ((unpackExponent bits).toNat - 1075) := by
  have top : unpackExponent bits = -1#11 ↔ (unpackExponent bits).toNat = 2047 :=
    ⟨fun same => by rw [same]; rfl, fun same => BitVec.eq_of_toNat_eq same⟩
  have least : unpackExponent bits = 0#11 ↔ (unpackExponent bits).toNat = 0 :=
    ⟨fun same => by rw [same]; rfl, fun same => BitVec.eq_of_toNat_eq same⟩
  have empty : unpackMantissa bits = 0#52 ↔ (unpackMantissa bits).toNat = 0 :=
    ⟨fun same => by rw [same]; rfl, fun same => BitVec.eq_of_toNat_eq same⟩
  have whole : (1#1 ++ unpackMantissa bits).toNat = leadingBit + (unpackMantissa bits).toNat := by
    rw [BitVec.toNat_append, ← Nat.shiftLeft_add_eq_or_of_lt (unpackMantissa bits).isLt]
    rfl
  simp only [UnpackedFloat.unpack, top, least, empty]
  split
  · split <;> rfl
  · split
    next zero =>
      split
      next none => simp only [ofUnpacked, none]
      next => simp only [ofUnpacked, zero]; rfl
    next => simp only [ofUnpacked, whole]; rfl

end Fields

/-- The bits of a float spell out its parts. -/
theorem ofFloat_eq (value : Float) : ofFloat value = ofUnpacked value.toModel.unpack := by
  rw [Float.Model.unpack, ofUnpacked_unpack, negative_unpackSign, toNat_unpackExponent,
    toNat_unpackMantissa]
  rfl

/-- Only a float without a mantissa is the integer zero. -/
theorem toInt?_finite_eq_zero {negative : Bool} {mantissa : Nat} {exponent : Int} :
    (Binary64.finite negative mantissa exponent).toInt? = some 0 ↔ mantissa = 0 := by
  have quotient : numerator mantissa exponent % denominator exponent = 0 →
      numerator mantissa exponent / denominator exponent = 0 → mantissa = 0 := by
    intro divides none
    have parts := Nat.div_add_mod (numerator mantissa exponent) (denominator exponent)
    rw [divides, none, numerator, Nat.shiftLeft_eq] at parts
    have : mantissa * 2 ^ exponent.toNat = 0 := by omega
    exact (Nat.mul_eq_zero.mp this).resolve_right (Nat.two_pow_pos _).ne'
  constructor
  · intro zero
    simp only [toInt?] at zero
    split at zero
    next divides =>
      refine quotient divides ?_
      have := Option.some.inj zero
      split at this <;> omega
    next => cases zero
  · rintro rfl
    cases negative <;> simp [toInt?, numerator]

/-- The integer zero has the rank zero. -/
theorem toInt?_eq_zero {value : Float} :
    (ofFloat value).toInt? = some 0 ↔ rank? value = some 0 := by
  rw [ofFloat_eq, rank?]
  cases value.toModel.unpack with
  | notANumber => simp [ofUnpacked, toInt?, unpackedRank?]
  | infinity sign =>
      have := infinityRank_pos
      have : sign.apply infinityRank ≠ 0 := by cases sign <;> simp only [Sign.apply] <;> omega
      simp [ofUnpacked, toInt?, unpackedRank?, this]
  | zero sign => simp [ofUnpacked, toInt?_finite_eq_zero, unpackedRank?]
  | finite sign mantissa exponent positive =>
      have := units_pos positive exponent
      have : sign.apply (units mantissa exponent) ≠ 0 := by
        cases sign <;> simp only [Sign.apply] <;> omega
      simp [ofUnpacked, toInt?_finite_eq_zero, unpackedRank?, this, positive.ne']

/-- The floats that equal zero have the rank zero. -/
theorem eq_zero {value : Float} : Scalar.eq value 0 = true ↔ rank? value = some 0 := by
  have rankZero : rank? (0 : Float) = some 0 := by decide
  simp [eq_iff, rankZero]

end Binary64

/-- A float is the integer zero if it equals the float zero, whatever its sign. -/
theorem Atom.equal_zero (value : Float) :
    (Atom.float value).equal (.int 0) = Scalar.eq value 0 := by
  rw [Bool.eq_iff_iff, Binary64.eq_zero, ← Binary64.toInt?_eq_zero]
  simp [equal, integer?]

end DecisionTree
