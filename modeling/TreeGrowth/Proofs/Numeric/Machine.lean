import TreeGrowth.Numeric.Scalar
import Mathlib

/-!
# Machine numbers that are finite

A finite machine number is a sign, a mantissa and an exponent, and two of them
compare as these parts do one after the other; so the finite numbers are
linearly preordered, with the two zeros as equals.

A product is rounded, yet the product with a share, a number from zero up to
one, is finite again and no greater in magnitude.  For a share is a mantissa
divided by a power of two that is not less, so the exact product lies below the
first factor, which is itself a number to round to.
-/

namespace TreeGrowth

open Float.Model Float.Model.UnpackedFloat

/-! ## Machine numbers taken apart -/

theorem unpack_zero : (0.0 : Float).toModel.unpack = .zero .positive := by
  have hbits : (0.0 : Float) = ⟨⟨0, ⟨by decide⟩⟩⟩ := by decide +kernel
  rw [hbits]
  rfl

theorem unpack_one : (1.0 : Float).toModel.unpack =
    .finite .positive (2 ^ 52) (-52) (by decide) := by
  have hbits : (1.0 : Float) = ⟨⟨0x3ff0000000000000, ⟨by decide⟩⟩⟩ := by
    decide +kernel
  rw [hbits]
  rfl

theorem lt_iff_compare (x y : Float) :
    x < y ↔
      x.toModel.unpack.compare y.toModel.unpack = some .lt := by
  change decide (x.toModel < y.toModel) = true ↔ _
  rw [decide_eq_true_eq]
  change (x.toModel.unpack.compare y.toModel.unpack == some .lt) = true ↔ _
  exact beq_iff_eq

theorem le_iff_compare (x y : Float) :
    x ≤ y ↔
      (x.toModel.unpack.compare y.toModel.unpack).any Ordering.isLE = true := by
  change decide (x.toModel ≤ y.toModel) = true ↔ _
  rw [decide_eq_true_eq]
  exact Iff.rfl

/-- The mantissa of a finite number has at most 53 bits, and exactly so many
unless the exponent is the least. -/
structure CanonicalParts (mantissa : Nat) (exponent : Int) : Prop where
  mantissa_lt : mantissa < 2 ^ 53
  least_le : -1074 ≤ exponent
  le_greatest : exponent ≤ 971
  normal : exponent = -1074 ∨ 2 ^ 52 ≤ mantissa

theorem canonicalParts_of_unpack {bits : BitVec Format.binary64.numBits}
    {s : Sign} {mantissa : Nat} {exponent : Int} {hpos : 0 < mantissa}
    (hunpack : UnpackedFloat.unpack Format.binary64 bits =
      .finite s mantissa exponent hpos) :
    CanonicalParts mantissa exponent := by
  have hfield : (unpackExponent bits).toNat < 2 ^ 11 :=
    (unpackExponent bits).isLt
  unfold UnpackedFloat.unpack at hunpack
  simp only at hunpack
  split at hunpack
  next => split at hunpack <;> simp at hunpack
  next hlarge =>
    have hbelow : (unpackExponent bits).toNat ≠ 2047 :=
      fun h => hlarge (BitVec.toNat_inj.mp h)
    split at hunpack
    next hlow =>
      split at hunpack
      next => simp at hunpack
      next =>
        obtain ⟨-, rfl, rfl⟩ := UnpackedFloat.finite.inj hunpack
        have hlt : (unpackMantissa bits).toNat < 2 ^ 52 :=
          (unpackMantissa bits).isLt
        rw [hlow]
        exact ⟨by omega, by decide, by decide, .inl rfl⟩
    next hhigh =>
      have habove : (unpackExponent bits).toNat ≠ 0 :=
        fun h => hhigh (BitVec.toNat_inj.mp h)
      obtain ⟨-, rfl, rfl⟩ := UnpackedFloat.finite.inj hunpack
      have hbias : (Format.binary64.exponentBias : Int) + 52 = 1075 := by decide
      refine ⟨(1#1 ++ unpackMantissa bits).isLt, ?_, ?_, .inr ?_⟩
      · omega
      · omega
      · rw [BitVec.toNat_append]
        exact Nat.left_le_or

/-- The fields of a number that is neither infinite nor undefined. -/
theorem unpack_packComponents_normal (s : Sign) {field : Nat} {m : Nat}
    (hlow : 0 < field) (hhigh : field < 2047)
    (hm : 2 ^ 52 ≤ m) (hm' : m < 2 ^ 53) :
    UnpackedFloat.unpack Format.binary64
        (packComponents Format.binary64 s (BitVec.ofNat 11 field)
          (BitVec.ofNat 52 m)) =
      .finite s m (field - 1075) (by omega) := by
  have hfield : (BitVec.ofNat 11 field).toNat = field := by
    rw [BitVec.toNat_ofNat]
    omega
  have hnotall : BitVec.ofNat 11 field ≠ -1#11 := by
    intro h
    have hvalue := congrArg BitVec.toNat h
    rw [hfield] at hvalue
    exact hhigh.ne hvalue
  have hnotzero : BitVec.ofNat 11 field ≠ 0#11 := by
    intro h
    have hvalue := congrArg BitVec.toNat h
    rw [hfield] at hvalue
    exact hlow.ne' hvalue
  have hleading : (1#1 ++ BitVec.ofNat 52 m).toNat = m := by
    rw [BitVec.toNat_append, ← Nat.shiftLeft_add_eq_or_of_lt (BitVec.isLt _),
      BitVec.toNat_ofNat]
    change 2 ^ 52 + m % 2 ^ 52 = m
    omega
  unfold UnpackedFloat.unpack
  simp only [unpackExponent_packComponents, unpackMantissa_packComponents,
    unpackSign_packComponents, Sign.ofBitVec_toBitVec]
  rw [if_neg hnotall, if_neg hnotzero]
  simp only [hleading, hfield]
  rfl

theorem unpack_packComponents_subnormal (s : Sign) {m : Nat}
    (hm : 0 < m) (hm' : m < 2 ^ 52) :
    UnpackedFloat.unpack Format.binary64
        (packComponents Format.binary64 s 0#11 (BitVec.ofNat 52 m)) =
      .finite s m (-1074) hm := by
  have hmantissa : (BitVec.ofNat 52 m).toNat = m := by
    rw [BitVec.toNat_ofNat]
    omega
  have hnotzero : BitVec.ofNat 52 m ≠ 0#52 := by
    intro h
    have hvalue := congrArg BitVec.toNat h
    rw [hmantissa] at hvalue
    exact hm.ne' hvalue
  have hnotall : (0#11 : BitVec 11) ≠ -1#11 := by decide
  unfold UnpackedFloat.unpack
  simp only [unpackExponent_packComponents, unpackMantissa_packComponents,
    unpackSign_packComponents, Sign.ofBitVec_toBitVec]
  rw [if_neg hnotall, if_pos trivial, dif_neg hnotzero]
  simp only [hmantissa]
  rfl

/-- A number in canonical form is packed without loss. -/
theorem unpack_pack_finite (s : Sign) {m : Nat} {e : Int}
    (hm : 0 < m) (hparts : CanonicalParts m e) :
    UnpackedFloat.unpack Format.binary64
        (UnpackedFloat.pack Format.binary64 (.finite s m e hm)) =
      .finite s m e hm := by
  obtain ⟨hlt, hleast, hgreatest, hnormal⟩ := hparts
  have hbias : e + (Format.binary64.exponentBias : Int) +
      (Format.binary64.mantissaBitsWithoutImplicit : Int) = e + 1075 := by
    rw [add_assoc]
    rfl
  have hfits : ¬2 ^ Format.binary64.exponentBits ≤ (e + 1075).toNat + 1 := by
    change ¬2048 ≤ (e + 1075).toNat + 1
    omega
  unfold UnpackedFloat.pack
  simp only [hbias]
  rw [if_neg hfits]
  by_cases hfull : 2 ^ 52 ≤ m
  · have hlog : m.log2 = 52 := (Nat.log2_eq_iff hm.ne').mpr ⟨hfull, hlt⟩
    have hfullLength : m.log2 + 1 = Format.binary64.mantissaBits := by
      rw [hlog]
      rfl
    rw [if_pos hfullLength,
      unpack_packComponents_normal s (by omega) (by omega) hfull hlt]
    congr 1
    omega
  · have hleastExponent : e = -1074 := hnormal.resolve_right hfull
    have hlog : m.log2 < 52 := (Nat.log2_lt hm.ne').mpr (Nat.not_le.mp hfull)
    have hshort : ¬m.log2 + 1 = Format.binary64.mantissaBits := by
      change ¬m.log2 + 1 = 53
      omega
    subst hleastExponent
    rw [if_neg hshort]
    exact unpack_packComponents_subnormal s hm (Nat.not_le.mp hfull)

theorem unpack_packedInfinity (s : Sign) :
    UnpackedFloat.unpack Format.binary64
      (packedInfinity Format.binary64 s) = .infinity s := by
  cases s <;> rfl

/-- A number whose exponent is too great is packed as infinity. -/
theorem unpack_pack_of_le (s : Sign) {m : Nat} {e : Int} (hm : 0 < m)
    (he : 972 ≤ e) :
    UnpackedFloat.unpack Format.binary64
        (UnpackedFloat.pack Format.binary64 (.finite s m e hm)) =
      .infinity s := by
  have hbias : e + (Format.binary64.exponentBias : Int) +
      (Format.binary64.mantissaBitsWithoutImplicit : Int) = e + 1075 := by
    rw [add_assoc]
    rfl
  have hlarge : 2 ^ Format.binary64.exponentBits ≤ (e + 1075).toNat + 1 := by
    change 2048 ≤ (e + 1075).toNat + 1
    omega
  unfold UnpackedFloat.pack
  simp only [hbias]
  rw [if_pos hlarge, unpack_packedInfinity]

/-! ## Order -/

namespace Machine

/-- What finite numbers compare by: sign, exponent and mantissa. -/
def rank : UnpackedFloat → ℤ ×ₗ ℤ ×ₗ ℤ
  | .finite .negative mantissa exponent _ =>
      toLex (-1, toLex (-exponent, -mantissa))
  | .finite .positive mantissa exponent _ =>
      toLex (1, toLex (exponent, mantissa))
  | _ => toLex (0, toLex (0, 0))

theorem compare_neg (a b : ℤ) : compare (-a) (-b) = (compare a b).swap := by
  rw [← cmp_eq_compare, ← cmp_eq_compare, cmp_swap]
  apply StrictAnti.cmp_map_eq
  intro a b hlt
  exact neg_lt_neg hlt

theorem compare_natCast (a b : ℕ) : compare (a : ℤ) (b : ℤ) = compare a b := by
  rw [← cmp_eq_compare, ← cmp_eq_compare]
  exact Nat.strictMono_cast.cmp_map_eq a b

theorem compare_eq_compare_rank {x y : UnpackedFloat}
    (hx : x.isFinite = true) (hy : y.isFinite = true) :
    x.compare y = some (compare (rank x) (rank y)) := by
  match x, y with
  | .zero _, .zero _ => rfl
  | .zero _, .finite .negative .. => rfl
  | .zero _, .finite .positive .. => rfl
  | .finite .negative .., .zero _ => rfl
  | .finite .positive .., .zero _ => rfl
  | .finite .negative .., .finite .positive .. => rfl
  | .finite .positive .., .finite .negative .. => rfl
  | .finite .negative m e _, .finite .negative m' e' _ =>
      have hparts : compare (rank (.finite .negative m e ‹_›))
            (rank (.finite .negative m' e' ‹_›)) =
          (compare (-e) (-e')).then (compare (-(m : ℤ)) (-(m' : ℤ))) := rfl
      rw [hparts, compare_neg, compare_neg, compare_natCast,
        ← Ordering.swap_then]
      rfl
  | .finite .positive m e _, .finite .positive m' e' _ =>
      have hparts : compare (rank (.finite .positive m e ‹_›))
            (rank (.finite .positive m' e' ‹_›)) =
          (compare e e').then (compare (m : ℤ) (m' : ℤ)) := rfl
      rw [hparts, compare_natCast]
      rfl

theorem lt_iff_rank {x y : Float} (hx : Scalar.isFinite x = true)
    (hy : Scalar.isFinite y = true) :
    x < y ↔ rank x.toModel.unpack < rank y.toModel.unpack := by
  rw [lt_iff_compare, compare_eq_compare_rank hx hy, Option.some_inj,
    compare_lt_iff_lt]

theorem le_iff_rank {x y : Float} (hx : Scalar.isFinite x = true)
    (hy : Scalar.isFinite y = true) :
    x ≤ y ↔ rank x.toModel.unpack ≤ rank y.toModel.unpack := by
  rw [le_iff_compare, compare_eq_compare_rank hx hy, Option.any_some,
    ← Ordering.ne_gt_iff_isLE]
  exact compare_le_iff_le

theorem le_self {x : Float} (hx : Scalar.isFinite x = true) : x ≤ x :=
  (le_iff_rank hx hx).mpr le_rfl

theorem le_of_le_of_le {x y z : Float} (hx : Scalar.isFinite x = true)
    (hy : Scalar.isFinite y = true) (hz : Scalar.isFinite z = true)
    (hxy : x ≤ y) (hyz : y ≤ z) : x ≤ z := by
  rw [le_iff_rank hx hy] at hxy
  rw [le_iff_rank hy hz] at hyz
  rw [le_iff_rank hx hz]
  exact hxy.trans hyz

theorem not_lt_iff_le {x y : Float} (hx : Scalar.isFinite x = true)
    (hy : Scalar.isFinite y = true) : ¬x < y ↔ y ≤ x := by
  rw [lt_iff_rank hx hy, le_iff_rank hy hx, not_lt]

/-! ## Bounds -/

theorem isFinite_zero : Scalar.isFinite (0.0 : Float) = true := by
  decide +kernel

theorem isFinite_one : Scalar.isFinite (1.0 : Float) = true := by
  decide +kernel

theorem isFinite_atLeast {lo x : Float} (hlo : Scalar.isFinite lo = true)
    (hx : Scalar.isFinite x = true) :
    Scalar.isFinite (Scalar.atLeast lo x) = true := by
  rw [Scalar.atLeast]
  split <;> assumption

theorem le_atLeast {lo x : Float} (hlo : Scalar.isFinite lo = true)
    (hx : Scalar.isFinite x = true) : lo ≤ Scalar.atLeast lo x := by
  rw [Scalar.atLeast]
  split
  next => exact le_self hlo
  next hge => exact (not_lt_iff_le hx hlo).mp hge

theorem atLeast_le {lo x bound : Float} (hlo : lo ≤ bound) (hx : x ≤ bound) :
    Scalar.atLeast lo x ≤ bound := by
  rw [Scalar.atLeast]
  split <;> assumption

/-- A share is a finite number from zero up to one. -/
structure IsShare (x : Float) : Prop where
  isFinite : Scalar.isFinite x = true
  nonneg : (0.0 : Float) ≤ x
  le_one : x ≤ 1.0

instance (x : Float) : Decidable (IsShare x) :=
  decidable_of_iff (Scalar.isFinite x = true ∧ (0.0 : Float) ≤ x ∧ x ≤ 1.0)
    ⟨fun ⟨hfinite, hnonneg, hle⟩ => ⟨hfinite, hnonneg, hle⟩,
      fun ⟨hfinite, hnonneg, hle⟩ => ⟨hfinite, hnonneg, hle⟩⟩

theorem isShare_clamp {x : Float} (hx : Scalar.isFinite x = true) :
    IsShare (Scalar.clamp 0.0 1.0 x) := by
  have hraised := isFinite_atLeast isFinite_zero hx
  rw [Scalar.clamp, Scalar.atMost]
  split
  next => exact ⟨isFinite_one, by decide +kernel, by decide +kernel⟩
  next hle =>
    exact ⟨hraised, le_atLeast isFinite_zero hx,
      (not_lt_iff_le isFinite_one hraised).mp hle⟩

/-! ## Zeros -/

/-- The number is one of the two zeros. -/
def IsZero (x : Float) : Prop :=
  ∃ s, x.toModel.unpack = .zero s

theorem isZero_zero : IsZero 0.0 := ⟨_, unpack_zero⟩

theorem compare_zero (s : Sign) (y : UnpackedFloat) :
    (zero s).compare y = (zero .positive).compare y := by
  match y with
  | .notANumber | .zero _ | .infinity .negative | .infinity .positive
  | .finite .negative .. | .finite .positive .. => rfl

theorem IsZero.lt_iff {x : Float} (hx : IsZero x) (y : Float) :
    x < y ↔ 0.0 < y := by
  obtain ⟨s, hx⟩ := hx
  rw [lt_iff_compare, lt_iff_compare, hx, unpack_zero, compare_zero]

theorem isZero_of_nonpos {x : Float} (hx : x ≤ 0.0) (hnonneg : ¬x < 0.0) :
    IsZero x := by
  rw [le_iff_compare, unpack_zero] at hx
  rw [lt_iff_compare, unpack_zero] at hnonneg
  unfold IsZero
  cases hparts : x.toModel.unpack with
  | notANumber => simp [hparts, UnpackedFloat.compare] at hx
  | infinity s =>
      rw [hparts] at hx hnonneg
      cases s with
      | negative => exact absurd rfl hnonneg
      | positive => simp [UnpackedFloat.compare] at hx
  | zero s => exact ⟨s, rfl⟩
  | finite s m e hm =>
      rw [hparts] at hx hnonneg
      cases s with
      | negative => exact absurd rfl hnonneg
      | positive => simp [UnpackedFloat.compare] at hx

/-- A number that compares equal to zero is one of the two zeros. -/
theorem isZero_of_agree {x : Float} (hx : Scalar.agree x 0.0 = true) :
    IsZero x := by
  rw [Scalar.agree, Bool.and_eq_true, decide_eq_true_eq, decide_eq_true_eq]
    at hx
  obtain ⟨hle, hge⟩ := hx
  apply isZero_of_nonpos hle
  rw [le_iff_compare, unpack_zero] at hge
  rw [lt_iff_compare, unpack_zero]
  intro hlt
  match hparts : x.toModel.unpack with
  | .notANumber | .zero _ | .infinity .positive | .finite .positive .. =>
      simp [hparts, UnpackedFloat.compare] at hlt
  | .infinity .negative | .finite .negative .. =>
      simp [hparts, UnpackedFloat.compare] at hge

theorem isZero_clamp {x : Float} (hx : x ≤ 0.0) :
    IsZero (Scalar.clamp 0.0 1.0 x) := by
  have hraised : IsZero (Scalar.atLeast 0.0 x) := by
    rw [Scalar.atLeast]
    split
    next => exact isZero_zero
    next hnonneg => exact isZero_of_nonpos hx hnonneg
  rw [Scalar.clamp, Scalar.atMost]
  split
  next habove =>
    obtain ⟨s, hzero⟩ := hraised
    rw [lt_iff_compare, hzero, unpack_one] at habove
    simp [UnpackedFloat.compare] at habove
  next => exact hraised

/-! ## Rounding -/

theorem mantissa_shiftRight (em : ExtendedMantissa) (k : Nat) :
    (em >>> k).mantissa = em.mantissa / 2 ^ k := by
  induction k with
  | zero =>
      rw [pow_zero, Nat.div_one]
      rfl
  | succ k ih =>
      change (em >>> k).mantissa / 2 = _
      rw [ih, Nat.div_div_eq_div_mul, pow_succ]

theorem shiftRight_mul_two_pow (n k : Nat) :
    (⟨n * 2 ^ k, false, false⟩ : ExtendedMantissa) >>> k =
      ⟨n, false, false⟩ := by
  induction k generalizing n with
  | zero =>
      rw [pow_zero, mul_one]
      rfl
  | succ k ih =>
      rw [pow_succ', ← mul_assoc]
      change ((⟨n * 2 * 2 ^ k, false, false⟩ : ExtendedMantissa) >>>
        k).shiftRightOne = _
      rw [ih]
      simp [ExtendedMantissa.shiftRightOne]

theorem mantissa_le_roundedMantissa (em : ExtendedMantissa) :
    em.mantissa ≤ em.roundedMantissa := by
  obtain ⟨m, roundBit, stickyBit⟩ := em
  cases roundBit <;> cases stickyBit <;>
    simp [ExtendedMantissa.roundedMantissa, ExtendedMantissa.accuracy,
      Accuracy.roundToNearestEven]

theorem roundedMantissa_le_succ (em : ExtendedMantissa) :
    em.roundedMantissa ≤ em.mantissa + 1 := by
  obtain ⟨m, roundBit, stickyBit⟩ := em
  cases roundBit <;> cases stickyBit <;>
    simp only [ExtendedMantissa.roundedMantissa, ExtendedMantissa.accuracy,
      Accuracy.roundToNearestEven] <;> omega

/-- A whole number of units without its last `k` bits, rounded. -/
def rounded (n k : Nat) : Nat :=
  ((⟨n, false, false⟩ : ExtendedMantissa) >>> k).roundedMantissa

theorem div_le_rounded (n k : Nat) : n / 2 ^ k ≤ rounded n k := by
  have hle := mantissa_le_roundedMantissa
    ((⟨n, false, false⟩ : ExtendedMantissa) >>> k)
  rwa [mantissa_shiftRight] at hle

/-- Rounding does not pass a bound that needs no rounding. -/
theorem rounded_le {n k bound : Nat} (hn : n ≤ bound * 2 ^ k) :
    rounded n k ≤ bound := by
  rcases hn.eq_or_lt with rfl | hlt
  · rw [rounded, shiftRight_mul_two_pow]
    exact Nat.le_refl bound
  · have hwhole : n / 2 ^ k < bound := Nat.div_lt_of_lt_mul (by
      rwa [Nat.mul_comm] at hlt)
    have hle := roundedMantissa_le_succ
      ((⟨n, false, false⟩ : ExtendedMantissa) >>> k)
    rw [mantissa_shiftRight] at hle
    exact hle.trans hwhole

theorem roundWithAccuracy_eq (s : Sign) (n : Nat) (e : Int) :
    let k := (max (n.log2 + 1 + e - 53) (-1074) - e).toNat
    let e' := e + k
    let k' := (max ((rounded n k).log2 + 1 + e' - 53) (-1074) - e').toNat
    roundWithAccuracy Format.binary64 s n e .exact =
      if h : rounded n k / 2 ^ k' = 0 then .zero s
      else .finite s (rounded n k / 2 ^ k') (e' + k')
        (Nat.pos_of_ne_zero h) := by
  intro k e' k'
  have hmantissa : ((⟨rounded n k, false, false⟩ : ExtendedMantissa) >>>
      k').mantissa = rounded n k / 2 ^ k' := mantissa_shiftRight _ _
  simp only [← hmantissa]
  rfl

/-- A mantissa that fits is not shifted again. -/
theorem second_shift_of_lt {R : Nat} {t : Int} (hlt : R < 2 ^ 53)
    (ht : -1074 ≤ t) :
    (max (R.log2 + 1 + t - 53) (-1074) - t).toNat = 0 := by
  have hlog : R.log2 < 53 := by
    by_cases hzero : R = 0
    · rw [hzero]
      decide
    · exact (Nat.log2_lt hzero).mpr hlt
  omega

theorem second_shift_of_full {t : Int} (ht : -1074 ≤ t) :
    (max ((2 ^ 53 : Nat).log2 + 1 + t - 53) (-1074) - t).toNat = 1 := by
  rw [Nat.log2_two_pow]
  omega

/-- The exponent is great enough for the bits of the number. -/
theorem rounded_le_full {n k : Nat} {e t : Int}
    (ht : t = max (n.log2 + 1 + e - 53) (-1074)) (hk : e + k = t) :
    rounded n k ≤ 2 ^ 53 := by
  have hhigh : n < 2 ^ (n.log2 + 1) := Nat.lt_log2_self
  apply rounded_le
  rw [← pow_add]
  exact hhigh.le.trans (Nat.pow_le_pow_right (by decide) (by omega))

/-- The exponent is the least one, or no greater than the bits of the number
ask for. -/
theorem full_le_rounded {n k : Nat} {e t : Int} (hn : n ≠ 0)
    (ht : t = max (n.log2 + 1 + e - 53) (-1074)) (hk : e + k = t) :
    t = -1074 ∨ 2 ^ 52 ≤ rounded n k := by
  by_cases hsubnormal : t = -1074
  · exact .inl hsubnormal
  · right
    have hlow : 2 ^ n.log2 ≤ n := Nat.log2_self_le hn
    apply le_trans _ (div_le_rounded n k)
    rw [Nat.le_div_iff_mul_le (by positivity), ← pow_add]
    exact le_trans (Nat.pow_le_pow_right (by decide) (by omega)) hlow

/-- What rounding to an exponent comes to: nothing, a mantissa that fits, or
one bit too many. -/
theorem roundWithAccuracy_cases (s : Sign) {n k : Nat} {e t : Int}
    (ht : t = max (n.log2 + 1 + e - 53) (-1074)) (hk : e + k = t) :
    (roundWithAccuracy Format.binary64 s n e .exact = .zero s ∧
        rounded n k = 0) ∨
      (∃ hpos, roundWithAccuracy Format.binary64 s n e .exact =
          .finite s (rounded n k) t hpos ∧ rounded n k < 2 ^ 53) ∨
      (roundWithAccuracy Format.binary64 s n e .exact =
          .finite s (2 ^ 52) (t + 1) (by decide) ∧ rounded n k = 2 ^ 53) := by
  have hleast : -1074 ≤ t := ht ▸ le_max_right _ _
  have hfirst : (max (n.log2 + 1 + e - 53) (-1074) - e).toNat = k := by omega
  have hround := roundWithAccuracy_eq s n e
  simp only [hfirst, hk] at hround
  rcases (rounded_le_full ht hk).lt_or_eq with hlt | hfull
  · simp only [second_shift_of_lt hlt hleast, pow_zero, Nat.div_one,
      Nat.cast_zero, add_zero] at hround
    rw [hround]
    split
    next hzero => exact .inl ⟨rfl, hzero⟩
    next hne => exact .inr (.inl ⟨Nat.pos_of_ne_zero hne, rfl, hlt⟩)
  · simp only [hfull, second_shift_of_full hleast] at hround
    exact .inr (.inr ⟨hround, hfull⟩)

/-! ## Products with a share -/

/-- A product with `n` parts of `2 ^ a` rounds to zero or to a number that
comes no later than the first factor. -/
theorem round_share (s : Sign) {m n a : Nat} {e : Int} (hm : 0 < m)
    (hn : 0 < n) (hparts : CanonicalParts m e) (hshare : n ≤ 2 ^ a) :
    roundWithAccuracy Format.binary64 s (m * n) (e - a) .exact = .zero s ∨
      ∃ (M : Nat) (E : Int) (hM : 0 < M),
        roundWithAccuracy Format.binary64 s (m * n) (e - a) .exact =
            .finite s M E hM ∧
          CanonicalParts M E ∧ (E < e ∨ E = e ∧ M ≤ m) := by
  obtain ⟨hlt, hleast, hgreatest, hnormal⟩ := hparts
  have hpos : m * n ≠ 0 := (Nat.mul_pos hm hn).ne'
  have hbelow : m * n ≤ m * 2 ^ a := Nat.mul_le_mul_left m hshare
  have hlog : (m * n).log2 < 53 + a := by
    rw [Nat.log2_lt hpos, pow_add]
    exact hbelow.trans_lt (Nat.mul_lt_mul_of_pos_right hlt (by positivity))
  have hfull : 2 ^ 52 ≤ m → 52 ≤ (m * n).log2 := by
    intro hm'
    rw [Nat.le_log2 hpos]
    exact hm'.trans (Nat.le_mul_of_pos_right m hn)
  obtain ⟨t, ht⟩ : ∃ t : Int,
      t = max ((m * n).log2 + 1 + (e - a) - 53) (-1074) := ⟨_, rfl⟩
  obtain ⟨k, hk⟩ : ∃ k : Nat, e - a + k = t :=
    ⟨(t - (e - a)).toNat, by omega⟩
  have hka : k ≤ a := by omega
  -- The first factor, brought to the exponent of the result.
  have hscaled : rounded (m * n) k ≤ m * 2 ^ (a - k) := by
    apply rounded_le
    rw [mul_assoc, ← pow_add, Nat.sub_add_cancel hka]
    exact hbelow
  have hnormal' := full_le_rounded hpos ht hk
  rcases roundWithAccuracy_cases s ht hk with
    ⟨hzero, _⟩ | ⟨hM, hround, hlt'⟩ | ⟨hround, heq⟩
  · exact .inl hzero
  · right
    refine ⟨_, t, hM, hround, ⟨hlt', by omega, by omega, hnormal'⟩, ?_⟩
    rcases lt_or_eq_of_le (show t ≤ e by omega) with hearlier | hsame
    · exact .inl hearlier
    · have hall : a - k = 0 := by omega
      rw [hall, pow_zero, mul_one] at hscaled
      exact .inr ⟨hsame, hscaled⟩
  · right
    rw [heq] at hscaled
    have hspare : 0 < a - k := by
      by_contra hnone
      rw [Nat.eq_zero_of_not_pos hnone, pow_zero, mul_one] at hscaled
      omega
    refine ⟨2 ^ 52, t + 1, by decide, hround,
      ⟨by decide, by omega, by omega, .inr (Nat.le_refl _)⟩, ?_⟩
    rcases lt_or_eq_of_le (show t + 1 ≤ e by omega) with hearlier | hsame
    · exact .inl hearlier
    · have hone : a - k = 1 := by omega
      rw [hone] at hscaled
      exact .inr ⟨hsame, by omega⟩

/-- A share is zero or has at most `2 ^ a` parts of `2 ^ a`. -/
theorem parts_of_isShare {c : Float} (hc : IsShare c) :
    (∃ s, c.toModel.unpack = .zero s) ∨
      ∃ (n a : Nat) (hn : 0 < n),
        c.toModel.unpack = .finite .positive n (-a) hn ∧ n ≤ 2 ^ a := by
  obtain ⟨hfinite, hnonneg, hle⟩ := hc
  rw [le_iff_rank isFinite_zero hfinite, unpack_zero] at hnonneg
  rw [le_iff_rank hfinite isFinite_one, unpack_one] at hle
  have hfinite' : c.toModel.unpack.isFinite = true := hfinite
  cases hunpack : c.toModel.unpack with
  | notANumber => simp [hunpack, UnpackedFloat.isFinite] at hfinite'
  | infinity s => simp [hunpack, UnpackedFloat.isFinite] at hfinite'
  | zero s => exact .inl ⟨s, rfl⟩
  | finite s n e hn =>
      rw [hunpack] at hnonneg hle
      cases s with
      | negative => simp [rank, Prod.Lex.toLex_le_toLex] at hnonneg
      | positive =>
          obtain ⟨hlt, -, -, -⟩ := canonicalParts_of_unpack hunpack
          simp only [rank, Prod.Lex.toLex_le_toLex, lt_irrefl, false_or,
            true_and] at hle
          refine .inr ⟨n, (-e).toNat, hn, ?_, ?_⟩
          · congr 1
            omega
          · rcases hle with hsmall | ⟨rfl, hmost⟩
            · exact hlt.le.trans
                (Nat.pow_le_pow_right (by decide) (by omega))
            · exact_mod_cast hmost

theorem unpack_mul (x y : Float) :
    (x * y).toModel.unpack =
      UnpackedFloat.unpack Format.binary64 (UnpackedFloat.pack Format.binary64
        (UnpackedFloat.mul Format.binary64 x.toModel.unpack
          y.toModel.unpack)) := rfl

theorem unpack_pack_zero (s : Sign) :
    UnpackedFloat.unpack Format.binary64
      (UnpackedFloat.pack Format.binary64 (.zero s)) = .zero s :=
  unpack_packedZero

/-- The product of a number with a share is zero or has the sign of the number
and comes no later. -/
theorem unpack_mul_share {x c : Float} (hx : Scalar.isFinite x = true)
    (hc : IsShare c) :
    (∃ s, (x * c).toModel.unpack = .zero s) ∨
      ∃ (s : Sign) (m M : Nat) (e E : Int) (hm : 0 < m) (hM : 0 < M),
        x.toModel.unpack = .finite s m e hm ∧
          (x * c).toModel.unpack = .finite s M E hM ∧
            (E < e ∨ E = e ∧ M ≤ m) := by
  have hx' : x.toModel.unpack.isFinite = true := hx
  rw [unpack_mul]
  rcases parts_of_isShare hc with ⟨s', hzero⟩ | ⟨n, a, hn, hparts, hshare⟩
  · left
    cases hunpack : x.toModel.unpack with
    | notANumber => simp [hunpack, UnpackedFloat.isFinite] at hx'
    | infinity s => simp [hunpack, UnpackedFloat.isFinite] at hx'
    | zero s =>
        rw [hzero]
        exact ⟨_, unpack_pack_zero _⟩
    | finite s m e hm =>
        rw [hzero]
        exact ⟨_, unpack_pack_zero _⟩
  · cases hunpack : x.toModel.unpack with
    | notANumber => simp [hunpack, UnpackedFloat.isFinite] at hx'
    | infinity s => simp [hunpack, UnpackedFloat.isFinite] at hx'
    | zero s =>
        rw [hparts]
        exact .inl ⟨_, unpack_pack_zero _⟩
    | finite s m e hm =>
        have hsign : s * Sign.positive = s := by cases s <;> rfl
        rw [hparts, UnpackedFloat.mul, hsign]
        rcases round_share s hm hn (canonicalParts_of_unpack hunpack)
            hshare with hround | ⟨M, E, hM, hround, hcanonical, hearlier⟩
        · left
          refine ⟨s, ?_⟩
          rw [← unpack_pack_zero s, ← hround]
          rfl
        · right
          refine ⟨s, m, M, e, E, hm, hM, rfl, ?_, hearlier⟩
          rw [← unpack_pack_finite s hM hcanonical, ← hround]
          rfl

theorem isFinite_mul_share {x c : Float} (hx : Scalar.isFinite x = true)
    (hc : IsShare c) : Scalar.isFinite (x * c) = true := by
  change (x * c).toModel.unpack.isFinite = true
  rcases unpack_mul_share hx hc with
    ⟨s, hzero⟩ | ⟨s, m, M, e, E, hm, hM, -, hproduct, -⟩
  · rw [hzero]
    rfl
  · rw [hproduct]
    rfl

theorem mul_share_le {x c : Float} (hx : Scalar.isFinite x = true)
    (hnonneg : (0.0 : Float) ≤ x) (hc : IsShare c) : x * c ≤ x := by
  have hproduct := isFinite_mul_share hx hc
  rw [le_iff_rank isFinite_zero hx, unpack_zero] at hnonneg
  rw [le_iff_rank hproduct hx]
  rcases unpack_mul_share hx hc with
    ⟨s, hzero⟩ | ⟨s, m, M, e, E, hm, hM, hparts, hparts', hearlier⟩
  · rw [hzero]
    exact hnonneg
  · rw [hparts] at hnonneg
    rw [hparts, hparts']
    cases s with
    | negative => simp [rank, Prod.Lex.toLex_le_toLex] at hnonneg
    | positive =>
        simp only [rank, Prod.Lex.toLex_le_toLex, lt_irrefl, false_or,
          true_and]
        exact_mod_cast hearlier

end Machine

end TreeGrowth
