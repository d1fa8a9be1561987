import TreeGrowth.Proofs.Numeric.Units

/-!
# Machine numbers that may be infinite

A whole number becomes the machine number nearest to it, or infinity from
`2 ^ 1024 - 2 ^ 970` on, where the nearest number would be `2 ^ 1024`; and a
product of numbers may be infinite, too.  What comes of a number of units still
grows with it, and lowering it to a finite bound or taking its whole part makes
it finite again.
-/

namespace TreeGrowth

open Float.Model Float.Model.UnpackedFloat

namespace Machine

variable {f g : UnpackedFloat} {n m : Nat} {x y : Float}

/-! ## Extents -/

theorem Units.lt_tooMany (hf : Units f n) : n < tooMany := by
  cases hf with
  | zero s => exact lt_tooMany_of_le (Nat.zero_le (2 ^ 0)) (by decide)
  | @finite m j hm hparts =>
      have hexponent : 53 + j ≤ 2098 := by
        have := hparts.le_greatest
        omega
      calc m * 2 ^ j < 2 ^ 53 * 2 ^ j :=
            Nat.mul_lt_mul_of_pos_right hparts.mantissa_lt (Nat.two_pow_pos j)
        _ = 2 ^ (53 + j) := (pow_add 2 53 j).symm
        _ ≤ tooMany := by
          rw [tooMany]
          gcongr
          decide

theorem Units.eq_of_pos (hf : Units f n) (hg : Units g n) (hn : 0 < n) :
    f = g := by
  generalize hsame : n = n' at hg
  cases hf with
  | zero s => omega
  | @finite m i hm hparts =>
      cases hg with
      | zero s => omega
      | @finite m' j hm' hparts' =>
          have hless := mul_two_pow_lt_iff hparts hparts'
          have hgreater := mul_two_pow_lt_iff hparts' hparts
          obtain ⟨rfl, rfl⟩ : i = j ∧ m = m' := by omega
          rfl

theorem HasUnits.eq_of_pos (hx : HasUnits x n) (hy : HasUnits y n)
    (hn : 0 < n) : x = y := by
  have hbits : x.toModel.toBits.toBitVec = y.toModel.toBits.toBitVec :=
    (unpack_inj_of_valid x.toModel.valid y.toModel.valid).mp
      (Units.eq_of_pos hx hy hn)
  cases x with
  | ofModel x =>
      cases y with
      | ofModel y =>
          cases x
          cases y
          congr
          exact UInt64.toBitVec_inj.mp hbits

def HasExtent (x : Float) (n : Nat) : Prop :=
  Extent x.toModel.unpack n

theorem HasUnits.hasExtent (hx : HasUnits x n) : HasExtent x n :=
  .units hx

theorem HasUnits.lt_tooMany (hx : HasUnits x n) : n < tooMany :=
  Units.lt_tooMany hx

theorem HasExtent.isFinite_iff (hx : HasExtent x n) :
    Scalar.isFinite x = true ↔ n < tooMany := by
  change x.toModel.unpack.isFinite = true ↔ _
  unfold HasExtent at hx
  generalize x.toModel.unpack = f at hx
  cases hx with
  | units hf => exact iff_of_true hf.isFinite hf.lt_tooMany
  | beyond hn =>
      exact iff_of_false (by simp [UnpackedFloat.isFinite]) (by omega)

theorem HasExtent.hasUnits (hx : HasExtent x n) (hn : n < tooMany) :
    HasUnits x n :=
  Extent.to_units hx hn

theorem Units.compare_infinity (hf : Units f n) :
    f.compare (.infinity .positive) = some .lt := by
  cases hf <;> rfl

theorem HasUnits.lt_iff_extent (hx : HasUnits x n) (hy : HasExtent y m) :
    x < y ↔ n < m := by
  rcases Nat.lt_or_ge m tooMany with hsmall | hlarge
  · exact hx.lt_iff (hy.hasUnits hsmall)
  · have hbelow : n < m := hx.lt_tooMany.trans_le hlarge
    rw [lt_iff_compare]
    unfold HasExtent at hy
    generalize y.toModel.unpack = g at hy
    cases hy with
    | units hg => exact absurd hg.lt_tooMany (Nat.not_lt.mpr hlarge)
    | beyond => exact iff_of_true (Units.compare_infinity hx) hbelow

theorem HasUnits.le_extent_iff (hx : HasUnits x n) (hy : HasExtent y m) :
    x ≤ y ↔ n ≤ m := by
  rcases Nat.lt_or_ge m tooMany with hsmall | hlarge
  · exact hx.le_iff (hy.hasUnits hsmall)
  · have hbelow := (hx.lt_iff_extent hy).mpr (hx.lt_tooMany.trans_le hlarge)
    rw [lt_iff_compare] at hbelow
    rw [le_iff_compare, hbelow]
    exact iff_of_true rfl (hx.lt_tooMany.le.trans hlarge)

theorem HasExtent.le_of_le (hx : HasUnits x n) (hy : HasExtent y m)
    (hle : m ≤ n) : y ≤ x :=
  ((hy.hasUnits (hle.trans_lt hx.lt_tooMany)).le_iff hx).mpr hle

theorem HasExtent.atMost {hi : Float} (hhi : HasUnits hi m)
    (hx : HasExtent x n) : HasUnits (Scalar.atMost hi x) (min m n) := by
  rw [Scalar.atMost]
  split
  next hlt =>
    rw [hhi.lt_iff_extent hx] at hlt
    rwa [min_eq_left hlt.le]
  next hge =>
    rw [hhi.lt_iff_extent hx, Nat.not_lt] at hge
    rw [min_eq_right hge]
    exact hx.hasUnits (hge.trans_lt hhi.lt_tooMany)

theorem HasUnits.extent_mul (hx : HasUnits x n) (hy : HasUnits y m) :
    HasExtent (x * y) (nearest 1074 (n * m)) :=
  Units.extent_mul hx hy

/-! ## Whole parts -/

theorem roundToInt_eq (m j : Nat) :
    roundToInt .positive m (j - 1074) =
      (m * 2 ^ (j - 1074) / 2 ^ (1074 - j) : Nat) := by
  have hleft : ((j - 1074 : Int) - 0).toNat = j - 1074 := by omega
  have hright : (0 - ((j - 1074 : Int) - (j - 1074 : Nat))).toNat =
      1074 - j := by omega
  rw [← mantissa_shiftRight ⟨m * 2 ^ (j - 1074), false, false⟩]
  simp only [roundToInt, decreaseExponent, hleft, shiftToExponent, hright,
    Nat.shiftLeft_eq]
  rfl

theorem Units.toInt_eq (hf : Units f n) (lo hi : Int) :
    UnpackedFloat.toInt lo hi f = (n / 2 ^ 1074 : Nat) := by
  cases hf with
  | zero s =>
      rw [Nat.zero_div]
      rfl
  | @finite m j hm hparts =>
      have hscaled : m * 2 ^ j = m * 2 ^ (j - 1074) * 2 ^ (min j 1074) := by
        rw [mul_assoc, ← pow_add]
        congr 2
        omega
      have hunit : 2 ^ 1074 = 2 ^ (1074 - j) * 2 ^ (min j 1074) := by
        rw [← pow_add]
        congr 1
        omega
      rw [hscaled, hunit, Nat.mul_div_mul_right _ _ (Nat.two_pow_pos _)]
      exact roundToInt_eq m j

theorem HasUnits.toNat_toUInt64 (hx : HasUnits x n)
    (hn : n < 2 ^ 64 * 2 ^ 1074) : x.toUInt64.toNat = n / 2 ^ 1074 := by
  change (UInt64.ofNatClamp (UnpackedFloat.toInt 0 (UInt64.size - 1)
    x.toModel.unpack).toNat).toNat = _
  rw [Units.toInt_eq hx, Int.toNat_natCast]
  have hword : n / 2 ^ 1074 < 2 ^ 64 :=
    (Nat.div_lt_iff_lt_mul (by positivity)).mpr hn
  exact UInt64.toNat_ofNatClamp_of_lt hword

/-! ## Whole numbers -/

theorem ofNat_eq (hn : 2 ^ 53 ≤ n) :
    (Float.ofNat n).toModel.unpack =
      stored (roundWithAccuracy Format.binary64 .positive (n * 2 ^ 53) (-53)
        .exact) := by
  have hlarge : ¬(n < 2 ^ 53 ∧ 0 ≤ 22) := by omega
  have hpos : n ≠ 0 := by omega
  have hnumber : Float.ofNat n = ⟨Float.Model.ofScientific n 0⟩ := by
    change Float.ofScientific n false 0 = _
    rw [Float.ofScientific, dif_neg hlarge]
    rfl
  have hproduct : UnpackedFloat.ofScientific Format.binary64 n 0 =
      roundWithAccuracy Format.binary64 .positive (n * 2 ^ 53) (-53)
        .exact := by
    rw [UnpackedFloat.ofScientific, dif_neg hpos, if_neg (by decide), if_neg,
      if_pos (by decide)]
    · rw [← Nat.shiftLeft_eq, ← Nat.mul_one (n <<< 53)]
      rfl
    · have hexponents : (2 : Int) ^ Format.binary64.exponentBits = 2048 := rfl
      omega
  rw [hnumber, ← hproduct]
  rfl

/-- A whole number is rounded to the nearest one. -/
theorem hasExtent_ofNat (n : Nat) :
    HasExtent (Float.ofNat n) (nearest 0 n * 2 ^ 1074) := by
  rcases Nat.lt_or_ge n (2 ^ 53) with hsmall | hlarge
  · have hfits : Fits n := ⟨n, 0, hsmall, (Nat.mul_one n).symm⟩
    rw [nearest_zero_of_fits hfits]
    exact (hasUnits_ofNat hsmall).hasExtent
  · have hpos : n ≠ 0 := by omega
    have hscaled := log2_mul_two_pow hpos 53
    have hlog : 53 ≤ n.log2 := (Nat.le_log2 hpos).mpr hlarge
    obtain ⟨k, hk⟩ : ∃ k, n.log2 = k + 52 := ⟨n.log2 - 52, by omega⟩
    have hdropped : dropped 0 n = k := by
      unfold dropped
      omega
    have hextent := extent_roundWithAccuracy (n := n * 2 ^ 53) (k := k + 53)
      (j := k + 1074) (e := -53)
      (Nat.mul_ne_zero hpos (Nat.two_pow_pos 53).ne') (by omega) (by omega)
    rw [rounded_mul_two_pow, pow_add, ← mul_assoc] at hextent
    rw [HasExtent, ofNat_eq hlarge, nearest, hdropped, Nat.sub_zero]
    exact hextent

theorem isFinite_ofNat_iff (n : Nat) :
    Scalar.isFinite (Float.ofNat n) = true ↔ n + 2 ^ 970 < 2 ^ 1024 := by
  have hexponent : 2098 = 1024 + 1074 := rfl
  have hexponent' : 1024 = 970 + 54 := rfl
  rw [(hasExtent_ofNat n).isFinite_iff, tooMany, hexponent, pow_add,
    Nat.mul_lt_mul_right (by positivity), hexponent', nearest_lt_two_pow_iff]

/-- Whole numbers that are rounded alike become the same number. -/
theorem ofNat_eq_of_nearest (hsame : nearest 0 n = nearest 0 m)
    (hfinite : Scalar.isFinite (Float.ofNat m) = true) :
    Float.ofNat n = Float.ofNat m := by
  have hextent := hasExtent_ofNat n
  have hextent' := hasExtent_ofNat m
  have hsmall := hextent'.isFinite_iff.mp hfinite
  rw [hsame] at hextent
  rcases Nat.eq_zero_or_pos (nearest 0 m) with hzero | hpos
  · rw [eq_zero_of_nearest (hsame.trans hzero), eq_zero_of_nearest hzero]
  · exact (hextent.hasUnits hsmall).eq_of_pos (hextent'.hasUnits hsmall)
      (Nat.mul_pos hpos (by positivity))

/-! ## Quotients -/

theorem isFinite_unpack_packComponents (s : Sign) {field : BitVec 11}
    (hfield : field ≠ -1#11) (mantissa : BitVec 52) :
    (UnpackedFloat.unpack Format.binary64
      (packComponents Format.binary64 s field mantissa)).isFinite = true := by
  unfold UnpackedFloat.unpack
  simp only [unpackExponent_packComponents, unpackMantissa_packComponents,
    unpackSign_packComponents, Sign.ofBitVec_toBitVec]
  rw [if_neg hfield]
  split
  next =>
    split <;> rfl
  next => rfl

theorem isFinite_stored {s : Sign} {m : Nat} {e : Int} (hm : 0 < m)
    (he : e ≤ 971) : (stored (.finite s m e hm)).isFinite = true := by
  have hbias : e + (Format.binary64.exponentBias : Int) +
      (Format.binary64.mantissaBitsWithoutImplicit : Int) = e + 1075 := by
    rw [add_assoc]
    rfl
  have hfits : ¬2 ^ Format.binary64.exponentBits ≤ (e + 1075).toNat + 1 := by
    change ¬2048 ≤ (e + 1075).toNat + 1
    omega
  have hfield : BitVec.ofNat 11 (e + 1075).toNat ≠ -1#11 := by
    intro hall
    have hvalue := congrArg BitVec.toNat hall
    rw [BitVec.toNat_ofNat, Nat.mod_eq_of_lt (by omega)] at hvalue
    have hones : (-1#11).toNat = 2047 := rfl
    omega
  unfold stored UnpackedFloat.pack
  simp only [hbias]
  rw [if_neg hfits]
  split
  next => exact isFinite_unpack_packComponents s hfield _
  next => exact isFinite_unpack_packComponents s (by decide) _

theorem roundedMantissa_le {n k : Nat} (accuracy : Accuracy)
    (hn : n.log2 ≤ k + 52) :
    (ExtendedMantissa.ofMantissaAndAccuracy n accuracy >>>
      k).roundedMantissa ≤ 2 ^ 53 := by
  have hwhole : (ExtendedMantissa.ofMantissaAndAccuracy n accuracy).mantissa =
      n := by
    cases accuracy with
    | exact => rfl
    | inexact order => cases order <;> rfl
  have hround := roundedMantissa_le_succ
    (ExtendedMantissa.ofMantissaAndAccuracy n accuracy >>> k)
  have hshort : n / 2 ^ k < 2 ^ 53 := by
    rw [Nat.div_lt_iff_lt_mul (by positivity), ← pow_add]
    exact Nat.lt_log2_self.trans_le
      (Nat.pow_le_pow_right (by decide) (by omega))
  rw [mantissa_shiftRight, hwhole] at hround
  omega

/-- However exact a mantissa is, it rounds to a finite number if its bits stay
below the greatest exponent. -/
theorem isFinite_roundWithAccuracy (s : Sign) {n : Nat} {e : Int}
    (accuracy : Accuracy) (he : e ≤ 970) (hn : n.log2 + e ≤ 1022) :
    (stored (roundWithAccuracy Format.binary64 s n e accuracy)).isFinite =
      true := by
  obtain ⟨k, hk⟩ : ∃ k : Nat,
      (max (n.log2 + 1 + e - 53) (-1074) - e).toNat = k := ⟨_, rfl⟩
  obtain ⟨R, hR⟩ : ∃ R, (ExtendedMantissa.ofMantissaAndAccuracy n accuracy >>>
      k).roundedMantissa = R := ⟨_, rfl⟩
  have hlog : R.log2 ≤ 53 := by
    have hround := roundedMantissa_le (n := n) (k := k) accuracy (by omega)
    rw [hR] at hround
    rcases Nat.eq_zero_or_pos R with rfl | hpos
    · decide
    · exact Nat.lt_succ_iff.mp ((Nat.log2_lt hpos.ne').mpr (by omega))
  have hfirst : shiftToTargetExponent Format.binary64 n e accuracy =
      (ExtendedMantissa.ofMantissaAndAccuracy n accuracy >>> k, e + k) := by
    rw [← hk]
    rfl
  have hsecond : (shiftToTargetExponent Format.binary64 R (e + k)
      .exact).2 ≤ 971 := by
    change e + k + (max (R.log2 + 1 + (e + k) - 53) (-1074) -
      (e + k)).toNat ≤ 971
    omega
  rw [roundWithAccuracy, hfirst]
  simp only [hR]
  split
  next =>
    rw [stored, unpack_pack_zero]
    rfl
  next => exact isFinite_stored _ hsecond

theorem log2_mul_two_pow_lt {m m' i j c : Nat} (hm : 0 < m) (hm' : 0 < m')
    (hle : m * 2 ^ i ≤ 2 ^ c * (m' * 2 ^ j)) :
    m.log2 + i ≤ c + m'.log2 + j := by
  have hlow := log2_mul_two_pow hm.ne' i
  have hhigh := log2_mul_two_pow hm'.ne' (c + j)
  have hscaled : m * 2 ^ i ≤ m' * 2 ^ (c + j) := by
    rw [pow_add]
    linarith
  have hpos : m * 2 ^ i ≠ 0 := by positivity
  have hlog : (m * 2 ^ i).log2 ≤ (m' * 2 ^ (c + j)).log2 := by
    rw [Nat.le_log2 (by positivity)]
    exact (Nat.log2_self_le hpos).trans hscaled
  omega

theorem log2_div_add_le (n : Nat) {m : Nat} (hm : 0 < m) :
    (n / m).log2 + m.log2 ≤ n.log2 ∨ n / m = 0 := by
  rcases Nat.eq_zero_or_pos (n / m) with hzero | hpos
  · exact .inr hzero
  · left
    have hwhole : n / m * m ≤ n := Nat.div_mul_le_self n m
    have hproduct : 0 < n / m * m := Nat.mul_pos hpos hm
    rw [Nat.le_log2 (by omega), pow_add]
    exact (Nat.mul_le_mul (Nat.log2_self_le hpos.ne')
      (Nat.log2_self_le hm.ne')).trans hwhole

/-- A quotient that is not too great is finite. -/
theorem Units.isFinite_div {c : Nat} (hf : Units f n) (hg : Units g m)
    (hm : 0 < m) (hc : c ≤ 1000) (hle : n ≤ 2 ^ c * m) :
    (Machine.stored (UnpackedFloat.div Format.binary64 f g)).isFinite =
      true := by
  cases hg with
  | zero s => omega
  | @finite m₂ j hm₂ hparts₂ =>
      cases hf with
      | zero s =>
          change (Machine.stored (.zero _)).isFinite = true
          rw [Machine.stored, unpack_pack_zero]
          rfl
      | @finite m₁ i hm₁ hparts₁ =>
          have hlog := log2_mul_two_pow_lt hm₁ hm₂ hle
          obtain ⟨e, he⟩ : ∃ e : Int, min ((i - 1074 : Int) - (j - 1074))
              (max ((m₁.log2 : Int) + 1 + (i - 1074) -
                (m₂.log2 + 1 + (j - 1074)) - 53) (-1074)) = e := ⟨_, rfl⟩
          obtain ⟨k, hk⟩ : ∃ k : Nat,
              ((i - 1074 : Int) - (j - 1074) - e).toNat = k := ⟨_, rfl⟩
          have hquotient : UnpackedFloat.div Format.binary64
              (.finite .positive m₁ (i - 1074) hm₁)
              (.finite .positive m₂ (j - 1074) hm₂) =
                roundWithAccuracy Format.binary64 (.positive / .positive)
                  (m₁ * 2 ^ k / m₂) e
                  (accuracyOfFraction (m₁ * 2 ^ k % m₂) m₂) := by
            rw [← hk, ← he, ← Nat.shiftLeft_eq]
            rfl
          have hbits := log2_div_add_le (m₁ * 2 ^ k) hm₂
          have hsmall : (m₁ * 2 ^ k / m₂).log2 + e ≤ 1022 := by
            rcases hbits with hbits | hzero
            · rw [log2_mul_two_pow hm₁.ne'] at hbits
              omega
            · rw [hzero, Nat.log2_zero]
              omega
          rw [hquotient]
          exact isFinite_roundWithAccuracy _ _ (by omega) hsmall

theorem HasUnits.isFinite_div {c : Nat} (hx : HasUnits x n)
    (hy : HasUnits y m) (hm : 0 < m) (hc : c ≤ 1000) (hle : n ≤ 2 ^ c * m) :
    Scalar.isFinite (x / y) = true :=
  Units.isFinite_div hx hy hm hc hle

end Machine

end TreeGrowth
