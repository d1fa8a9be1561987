import TreeGrowth.Decimal.Fixed
import TreeGrowth.Decimal.Reader
import TreeGrowth.Grammar.Rule
import TreeGrowth.Proofs.Numeric.Machine
import Mathlib

/-!
# Weights to two places

A weight from zero up to one is written as a number of hundredths, at most a
hundred, and every number of hundredths reads back as a weight that needs no
more bounding.

Decimal texts are computed from a machine number taken apart, while machine
numbers are compared in their unpacked form.  Both read the same sign, exponent
and fraction bits, and a number below one has so small an exponent that its
mantissa is less than the power of two that it is divided by.
-/

namespace TreeGrowth

open Float.Model Float.Model.UnpackedFloat

/-! ## Two ways to take a machine number apart -/

namespace Binary64

def ofUnpacked : Float.Model.UnpackedFloat → Binary64
  | .notANumber => .nan
  | .infinity s => .infinite (s == .negative)
  | .zero s => .finite (s == .negative) 0 (-1074)
  | .finite s mantissa exponent _ =>
      .finite (s == .negative) mantissa exponent

section Fields

variable (bits : BitVec Format.binary64.numBits)

theorem toNat_unpackMantissa :
    (unpackMantissa bits).toNat = bits.toNat % 2 ^ 52 := by
  simp [unpackMantissa]

theorem toNat_unpackExponent :
    (unpackExponent bits).toNat = bits.toNat / 2 ^ 52 % 2 ^ 11 := by
  simp [unpackExponent, Nat.shiftRight_eq_div_pow]

theorem toNat_unpackSign :
    (unpackSign bits).toNat = bits.toNat / 2 ^ 63 := by
  have hlt : bits.toNat < 2 ^ 64 := bits.isLt
  simp only [unpackSign, BitVec.toNat_cast, BitVec.extractLsb_toNat,
    Nat.shiftRight_eq_div_pow]
  omega

theorem ofBitVec_unpackSign_beq :
    (Sign.ofBitVec (unpackSign bits) == .negative) =
      decide (bits.toNat / 2 ^ 63 = 1) := by
  have hlt : bits.toNat < 2 ^ 64 := bits.isLt
  have hzero : unpackSign bits = 0#1 ↔ (unpackSign bits).toNat = 0 :=
    BitVec.toNat_inj.symm
  rw [toNat_unpackSign] at hzero
  rw [Sign.ofBitVec]
  split
  next hpositive =>
    rw [hzero.mp hpositive]
    rfl
  next hnegative =>
    have hone : bits.toNat / 2 ^ 63 = 1 := by
      have hne := hzero.not.mp hnegative
      omega
    rw [hone]
    rfl

end Fields

theorem ofFloat_eq_ofUnpacked (x : Float) :
    ofFloat x = ofUnpacked x.toModel.unpack := by
  let bits : BitVec Format.binary64.numBits := x.toModel.toBits.toBitVec
  change (if bits.toNat / 2 ^ 52 % 2 ^ 11 = 2047 then
      if bits.toNat % 2 ^ 52 = 0 then
        Binary64.infinite (decide (bits.toNat / 2 ^ 63 = 1))
      else .nan
    else if bits.toNat / 2 ^ 52 % 2 ^ 11 = 0 then
      .finite (decide (bits.toNat / 2 ^ 63 = 1)) (bits.toNat % 2 ^ 52) (-1074)
    else .finite (decide (bits.toNat / 2 ^ 63 = 1))
      (2 ^ 52 + bits.toNat % 2 ^ 52)
      (((bits.toNat / 2 ^ 52 % 2 ^ 11 : Nat) : Int) - 1075)) =
    ofUnpacked (UnpackedFloat.unpack Format.binary64 bits)
  rw [← toNat_unpackExponent, ← toNat_unpackMantissa,
    ← ofBitVec_unpackSign_beq]
  -- The conditions on numbers and on bit vectors are the same.
  have hspecial : unpackExponent bits = -1#11 ↔
      (unpackExponent bits).toNat = 2047 := BitVec.toNat_inj.symm
  have hlow : unpackExponent bits = 0#11 ↔
      (unpackExponent bits).toNat = 0 := BitVec.toNat_inj.symm
  have hzero : unpackMantissa bits = 0#52 ↔
      (unpackMantissa bits).toNat = 0 := BitVec.toNat_inj.symm
  unfold UnpackedFloat.unpack
  simp only
  by_cases hall : unpackExponent bits = -1#11
  · rw [if_pos hall, if_pos (hspecial.mp hall)]
    by_cases hnone : unpackMantissa bits = 0#52
    · rw [if_pos hnone, if_pos (hzero.mp hnone)]
      rfl
    · rw [if_neg hnone, if_neg (hzero.not.mp hnone)]
      rfl
  rw [if_neg hall, if_neg (hspecial.not.mp hall)]
  by_cases hsubnormal : unpackExponent bits = 0#11
  · rw [if_pos hsubnormal, if_pos (hlow.mp hsubnormal)]
    by_cases hnone : unpackMantissa bits = 0#52
    · rw [dif_pos hnone, hzero.mp hnone]
      rfl
    · rw [dif_neg hnone, hlow.mp hsubnormal]
      rfl
  · rw [if_neg hsubnormal, if_neg (hlow.not.mp hsubnormal)]
    have hleading : (1#1 ++ unpackMantissa bits).toNat =
        2 ^ 52 + (unpackMantissa bits).toNat := by
      have hlt : (unpackMantissa bits).toNat < 2 ^ 52 :=
        (unpackMantissa bits).isLt
      rw [BitVec.toNat_append, ← Nat.shiftLeft_add_eq_or_of_lt hlt]
      rfl
    simp only [ofUnpacked, hleading]
    rfl

end Binary64

/-! ## Machine numbers below one -/

theorem exponent_lt_of_lt_one {x : Float} {mantissa : Nat} {exponent : Int}
    {hpos : 0 < mantissa}
    (hunpack : x.toModel.unpack = .finite .positive mantissa exponent hpos)
    (hlt : x < 1.0) : mantissa < 2 ^ 53 ∧ exponent < -52 := by
  obtain ⟨hmantissa, -, -, hnormal⟩ := canonicalParts_of_unpack hunpack
  rw [lt_iff_compare, hunpack, unpack_one] at hlt
  have horder := Option.some.inj hlt
  rw [Ordering.then_eq_lt, compare_lt_iff_lt, compare_lt_iff_lt,
    compare_eq_iff_eq] at horder
  refine ⟨hmantissa, ?_⟩
  omega

theorem Ratio.round_le (q : Ratio) {bound : Nat}
    (hq : q.numerator < bound * q.denominator) : q.round ≤ bound := by
  have hwhole : q.numerator / q.denominator < bound :=
    Nat.div_lt_of_lt_mul (by rwa [Nat.mul_comm] at hq)
  unfold Ratio.round
  simp only
  split
  next => omega
  next => split <;> omega

namespace Decimal

/-- Fewer than one is written as at most a hundred hundredths; only zero may
have a sign. -/
theorem exists_fixed_two {p : Float} (hfinite : Scalar.isFinite p = true)
    (hnonneg : ¬p < 0.0) (hlt : p < 1.0) :
    ∃ negative n, n ≤ 100 ∧ (negative = true → n = 0) ∧
      fixed 2 p = signed negative (withPlaces 2 n) := by
  have hparts := Binary64.ofFloat_eq_ofUnpacked p
  have hfinite' : p.toModel.unpack.isFinite = true := hfinite
  cases hunpack : p.toModel.unpack with
  | notANumber => simp [hunpack, UnpackedFloat.isFinite] at hfinite'
  | infinity s => simp [hunpack, UnpackedFloat.isFinite] at hfinite'
  | zero s =>
      refine ⟨s == .negative, 0, by omega, fun _ => rfl, ?_⟩
      rw [fixed, hparts, hunpack]
      cases s <;> decide +kernel
  | finite s mantissa exponent hpos =>
      cases s with
      | negative =>
          rw [lt_iff_compare, hunpack, unpack_zero] at hnonneg
          exact absurd rfl hnonneg
      | positive =>
          obtain ⟨hmantissa, hexponent⟩ := exponent_lt_of_lt_one hunpack hlt
          refine ⟨false, (Ratio.ofPowers mantissa exponent 2).round, ?_,
            by simp, ?_⟩
          · apply Ratio.round_le
            have hpower : 2 ^ 53 ≤ 2 ^ (-exponent).toNat :=
              Nat.pow_le_pow_right (by decide) (by omega)
            have hexact : exponent.toNat = 0 := by omega
            simp only [Ratio.ofPowers, hexact]
            change mantissa * 2 ^ 0 * 10 ^ 2 <
              100 * (2 ^ (-exponent).toNat * 10 ^ 0)
            omega
          · rw [fixed, hparts, hunpack]
            rfl

/-- Every number of hundredths reads back as a weight within its bounds. -/
theorem readDecimal?_hundredths (negative : Bool) {n : Nat} (hn : n ≤ 100)
    (hsign : negative = true → n = 0) :
    ∃ q : Float, readDecimal? (signed negative (withPlaces 2 n)) = some q ∧
      Scalar.isFinite q = true ∧ Rule.boundedProbability q = q := by
  have hall : ∀ n ≤ 100, ∀ negative : Bool, (negative = true → n = 0) →
      (readDecimal? (signed negative (withPlaces 2 n))).any
        (fun q : Float => Scalar.isFinite q &&
          decide (Rule.boundedProbability q = q)) = true := by
    decide +kernel
  have hvalue := hall n hn negative hsign
  cases hread : readDecimal? (signed negative (withPlaces 2 n)) with
  | none => simp [hread] at hvalue
  | some q =>
      rw [hread, Option.any_some, Bool.and_eq_true,
        decide_eq_true_eq] at hvalue
      exact ⟨q, rfl, hvalue⟩

end Decimal

namespace Rule

/-- A weight that is kept in bounds is a share. -/
theorem isShare_boundedProbability {p : Float}
    (hp : Scalar.isFinite p = true) :
    Machine.IsShare (boundedProbability p) := by
  rw [boundedProbability, if_pos hp]
  exact Machine.isShare_clamp hp

theorem isFinite_boundedProbability {p : Float}
    (hp : Scalar.isFinite p = true) :
    Scalar.isFinite (boundedProbability p) = true :=
  (isShare_boundedProbability hp).isFinite

theorem isFinite_of_boundedProbability {p : Float}
    (hp : Scalar.isFinite (boundedProbability p) = true) :
    Scalar.isFinite p = true := by
  by_contra hother
  rw [boundedProbability, if_neg hother] at hp
  exact hother hp

theorem not_boundedProbability_lt_zero {p : Float}
    (hp : Scalar.isFinite p = true) : ¬boundedProbability p < 0.0 := by
  obtain ⟨hfinite, hnonneg, -⟩ := isShare_boundedProbability hp
  exact (Machine.not_lt_iff_le hfinite Machine.isFinite_zero).mpr hnonneg

end Rule

end TreeGrowth
