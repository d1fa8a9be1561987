import TreeGrowth.Proofs.Numeric.Nearest

/-!
# Machine numbers as numbers of units

A finite machine number from zero on is a whole multiple of the least positive
one, which is `2 ^ -1074`.  Numbers of such units compare as the numbers do, and
sums and products are their exact values, rounded to the nearest number.
-/

namespace TreeGrowth

open Float.Model Float.Model.UnpackedFloat

namespace Machine

/-- The number is this many times `2 ^ -1074`. -/
inductive Units : UnpackedFloat → Nat → Prop
  | zero (s : Sign) : Units (.zero s) 0
  | finite {m j : Nat} (hm : 0 < m) (hparts : CanonicalParts m (j - 1074)) :
      Units (.finite .positive m (j - 1074) hm) (m * 2 ^ j)

def HasUnits (x : Float) (n : Nat) : Prop :=
  Units x.toModel.unpack n

/-- What is read back from the bits of a number. -/
def stored (f : UnpackedFloat) : UnpackedFloat :=
  UnpackedFloat.unpack Format.binary64 (UnpackedFloat.pack Format.binary64 f)

variable {f g : UnpackedFloat} {n m : Nat} {x y : Float}

theorem Units.fits (hf : Units f n) : Fits n := by
  cases hf with
  | zero s => exact fits_zero
  | @finite m j hm hparts => exact ⟨m, j, hparts.mantissa_lt, rfl⟩

theorem Units.isFinite (hf : Units f n) : f.isFinite = true := by
  cases hf <;> rfl

theorem Units.stored (hf : Units f n) : Units (stored f) n := by
  cases hf with
  | zero s =>
      rw [Machine.stored, unpack_pack_zero]
      exact .zero s
  | finite hm hparts =>
      rw [Machine.stored, unpack_pack_finite .positive hm hparts]
      exact .finite hm hparts

/-! ## Order -/

theorem mul_two_pow_lt_of_lt {m m' i j : Nat}
    (hparts : CanonicalParts m (i - 1074))
    (hparts' : CanonicalParts m' (j - 1074)) (hlt : i < j) :
    m * 2 ^ i < m' * 2 ^ j := by
  have hfull : 2 ^ 52 ≤ m' := hparts'.normal.resolve_left (by omega)
  calc m * 2 ^ i < 2 ^ 53 * 2 ^ i :=
        Nat.mul_lt_mul_of_pos_right hparts.mantissa_lt (by positivity)
    _ = 2 ^ 52 * 2 ^ (i + 1) := by ring
    _ ≤ m' * 2 ^ j :=
        Nat.mul_le_mul hfull (Nat.pow_le_pow_right (by decide) hlt)

theorem mul_two_pow_lt_iff {m m' i j : Nat}
    (hparts : CanonicalParts m (i - 1074))
    (hparts' : CanonicalParts m' (j - 1074)) :
    m * 2 ^ i < m' * 2 ^ j ↔ i < j ∨ i = j ∧ m < m' := by
  rcases Nat.lt_trichotomy i j with hless | rfl | hgreater
  · exact iff_of_true (mul_two_pow_lt_of_lt hparts hparts' hless) (.inl hless)
  · rw [Nat.mul_lt_mul_right (by positivity)]
    simp
  · have hlt := mul_two_pow_lt_of_lt hparts' hparts hgreater
    exact iff_of_false (by omega) (by omega)

theorem Units.lt_iff (hf : Units f n) (hg : Units g m) :
    f.compare g = some .lt ↔ n < m := by
  rw [compare_eq_compare_rank hf.isFinite hg.isFinite, Option.some_inj,
    compare_lt_iff_lt]
  cases hf with
  | zero s =>
      cases hg with
      | zero s' => simp [rank]
      | finite hm hparts => simp [rank, Prod.Lex.toLex_lt_toLex, hm]
  | finite hm hparts =>
      cases hg with
      | zero s => simp [rank, Prod.Lex.toLex_lt_toLex]
      | finite hm' hparts' =>
          rw [mul_two_pow_lt_iff hparts hparts']
          simp [rank, Prod.Lex.toLex_lt_toLex]

theorem HasUnits.isFinite (hx : HasUnits x n) : Scalar.isFinite x = true :=
  Units.isFinite hx

theorem HasUnits.fits (hx : HasUnits x n) : Fits n :=
  Units.fits hx

theorem HasUnits.lt_iff (hx : HasUnits x n) (hy : HasUnits y m) :
    x < y ↔ n < m := by
  rw [lt_iff_compare]
  exact Units.lt_iff hx hy

theorem HasUnits.le_iff (hx : HasUnits x n) (hy : HasUnits y m) :
    x ≤ y ↔ n ≤ m := by
  rw [← not_lt_iff_le hy.isFinite hx.isFinite, hy.lt_iff hx, Nat.not_lt]

theorem IsZero.hasUnits {x : Float} (hx : IsZero x) : HasUnits x 0 := by
  obtain ⟨s, hx⟩ := hx
  rw [HasUnits, hx]
  exact .zero s

theorem hasUnits_zero : HasUnits 0.0 0 := isZero_zero.hasUnits

theorem hasUnits_one : HasUnits 1.0 (2 ^ 1074) := by
  have hunits : Units (.finite .positive (2 ^ 52) ((1022 : Nat) - 1074)
      (by decide)) (2 ^ 52 * 2 ^ 1022) :=
    .finite (by decide) ⟨by decide, by decide, by decide, .inr le_rfl⟩
  have hexponent : 52 + 1022 = 1074 := rfl
  rw [← pow_add, hexponent] at hunits
  rwa [HasUnits, unpack_one]

theorem exists_hasUnits (hfinite : Scalar.isFinite x = true)
    (hnonneg : (0.0 : Float) ≤ x) : ∃ n, HasUnits x n := by
  rw [le_iff_rank isFinite_zero hfinite, unpack_zero] at hnonneg
  have hfinite' : x.toModel.unpack.isFinite = true := hfinite
  unfold HasUnits
  cases hunpack : x.toModel.unpack with
  | notANumber => simp [hunpack, UnpackedFloat.isFinite] at hfinite'
  | infinity s => simp [hunpack, UnpackedFloat.isFinite] at hfinite'
  | zero s => exact ⟨0, .zero s⟩
  | finite s m e hm =>
      rw [hunpack] at hnonneg
      cases s with
      | negative => simp [rank, Prod.Lex.toLex_le_toLex] at hnonneg
      | positive =>
          have hparts := canonicalParts_of_unpack hunpack
          obtain ⟨j, rfl⟩ : ∃ j : Nat, e = j - 1074 :=
            ⟨(e + 1074).toNat, by have := hparts.least_le; omega⟩
          exact ⟨m * 2 ^ j, .finite hm hparts⟩

theorem IsShare.exists_hasUnits (hx : IsShare x) :
    ∃ n ≤ 2 ^ 1074, HasUnits x n := by
  obtain ⟨n, hn⟩ := Machine.exists_hasUnits hx.isFinite hx.nonneg
  exact ⟨n, (hn.le_iff hasUnits_one).mp hx.le_one, hn⟩

/-! ## Rounded results -/

/-- As many units as `2 ^ 1024`, which is too great for a number. -/
def tooMany : Nat := 2 ^ 2098

theorem lt_tooMany_of_le {b : Nat} (hn : n ≤ 2 ^ b) (hb : b < 2098) :
    n < tooMany := by
  apply hn.trans_lt
  rw [tooMany]
  gcongr
  decide

theorem two_pow_add_le {m c i j : Nat} (hm : 2 ^ c ≤ m) (hij : i ≤ j) :
    2 ^ (c + i) ≤ m * 2 ^ j := by
  rw [pow_add]
  exact Nat.mul_le_mul hm (Nat.pow_le_pow_right (by decide) hij)

/-- What a number of units is stored as: the number, or infinity if no number is
that great. -/
inductive Extent : UnpackedFloat → Nat → Prop
  | units {f : UnpackedFloat} {n : Nat} (hf : Units f n) : Extent f n
  | beyond {n : Nat} (hn : tooMany ≤ n) : Extent (.infinity .positive) n

theorem Extent.to_units (hf : Extent f n) (hn : n < tooMany) : Units f n := by
  cases hf with
  | units hf => exact hf
  | beyond hlarge => exact absurd hn (Nat.not_lt.mpr hlarge)

theorem extent_stored {m j : Nat} (hm : 0 < m) (hlt : m < 2 ^ 53)
    (hnormal : (j - 1074 : Int) = -1074 ∨ 2 ^ 52 ≤ m) :
    Extent (stored (.finite .positive m (j - 1074) hm)) (m * 2 ^ j) := by
  rcases Nat.lt_or_ge j 2046 with hsmall | hlarge
  · exact .units
      (Units.finite hm ⟨hlt, by omega, by omega, hnormal⟩).stored
  · have hfull : 2 ^ 52 ≤ m := hnormal.resolve_left (by omega)
    have hexponent : 2098 = 52 + 2046 := rfl
    rw [stored, unpack_pack_of_le .positive hm (by omega)]
    apply Extent.beyond
    rw [tooMany, hexponent]
    exact two_pow_add_le hfull hlarge

theorem extent_roundWithAccuracy {n k j : Nat} {e : Int} (hn : n ≠ 0)
    (hj : (j - 1074 : Int) = max (n.log2 + 1 + e - 53) (-1074))
    (hk : e + k = j - 1074) :
    Extent (stored (roundWithAccuracy Format.binary64 .positive n e .exact))
      (rounded n k * 2 ^ j) := by
  have hnormal := full_le_rounded hn hj hk
  rcases roundWithAccuracy_cases .positive hj hk with
    ⟨hround, hzero⟩ | ⟨hpos, hround, hlt⟩ | ⟨hround, hfull⟩
  · rw [hround, hzero, Nat.zero_mul]
    exact .units (Units.zero _).stored
  · rw [hround]
    exact extent_stored hpos hlt hnormal
  · have hexponent : (j - 1074 + 1 : Int) = (j + 1 : Nat) - 1074 := by omega
    have hcarried : 2 ^ 53 * 2 ^ j = 2 ^ 52 * 2 ^ (j + 1) := by ring
    rw [hround, hfull, hcarried]
    simp only [hexponent]
    exact extent_stored (by decide) (by decide) (.inr le_rfl)

/-- A mantissa whose exponent is too great is shifted to the left first. -/
theorem round_eq (n : Nat) (e : Int) :
    let k := (e - max (n.log2 + 1 + e - 53) (-1074)).toNat
    UnpackedFloat.round Format.binary64 .positive n e =
      roundWithAccuracy Format.binary64 .positive (n * 2 ^ k) (e - k)
        .exact := by
  intro k
  rw [← Nat.shiftLeft_eq]
  rfl

/-- A number of units is rounded to the nearest one. -/
theorem extent_round {n i : Nat} (hn : n ≠ 0) :
    Extent
      (stored (UnpackedFloat.round Format.binary64 .positive n (i - 1074)))
      (nearest 0 (n * 2 ^ i)) := by
  have hwhole := log2_mul_two_pow hn i
  rw [round_eq]
  rcases Nat.lt_or_ge n.log2 53 with hfits | hlong
  · -- Nothing is dropped from a mantissa that fits.
    obtain ⟨k, hk⟩ : ∃ k : Nat, k = ((i - 1074 : Int) -
        max (n.log2 + 1 + (i - 1074 : Int) - 53) (-1074)).toNat := ⟨_, rfl⟩
    obtain ⟨j, rfl⟩ : ∃ j, i = k + j := ⟨i - k, by omega⟩
    have hshifted := log2_mul_two_pow hn k
    have hexact : Fits (n * 2 ^ (k + j)) :=
      ⟨n, k + j, (Nat.log2_lt hn).mp hfits, rfl⟩
    have hextent := extent_roundWithAccuracy (n := n * 2 ^ k) (k := 0) (j := j)
      (e := ((k + j : Nat) - 1074 : Int) - k)
      (Nat.mul_ne_zero hn (Nat.two_pow_pos k).ne') (by omega) (by omega)
    rw [← hk]
    rw [rounded_zero, mul_assoc, ← pow_add] at hextent
    rwa [nearest_zero_of_fits hexact]
  · have hnone : ((i - 1074 : Int) -
        max (n.log2 + 1 + (i - 1074 : Int) - 53) (-1074)).toNat = 0 := by
      omega
    obtain ⟨k, hk⟩ : ∃ k, n.log2 = k + 52 := ⟨n.log2 - 52, by omega⟩
    have hdropped : dropped 0 (n * 2 ^ i) = k + i := by
      unfold dropped
      omega
    rw [hnone, nearest_mul_two_pow hdropped, pow_zero, mul_one]
    exact extent_roundWithAccuracy hn (by omega) (by omega)

/-! ## Sums -/

theorem nearest_zero_zero : nearest 0 0 = 0 :=
  nearest_zero_of_fits fits_zero

theorem normalize_pos {n : Nat} (hn : 0 < n) (e : Int) (s : Sign) :
    UnpackedFloat.normalize Format.binary64 n e s =
      UnpackedFloat.round Format.binary64 .positive n e := by
  have hcompare : compare (n : Int) 0 = .gt :=
    compare_gt_iff_gt.mpr (Int.natCast_pos.mpr hn)
  rw [UnpackedFloat.normalize, hcompare]
  rfl

theorem add_finite {m m' i j : Nat} (hm : 0 < m) (hm' : 0 < m') :
    UnpackedFloat.add Format.binary64
        (.finite .positive m (i - 1074) hm)
        (.finite .positive m' (j - 1074) hm') =
      UnpackedFloat.round Format.binary64 .positive
        (m * 2 ^ (i - min i j) + m' * 2 ^ (j - min i j))
        ((min i j : Nat) - 1074) := by
  have hmin : min (i - 1074 : Int) (j - 1074) = (min i j : Nat) - 1074 := by
    omega
  have hi : ((i - 1074 : Int) - ((min i j : Nat) - 1074)).toNat =
      i - min i j := by omega
  have hj : ((j - 1074 : Int) - ((min i j : Nat) - 1074)).toNat =
      j - min i j := by omega
  simp only [UnpackedFloat.add, decreaseExponent, hmin, hi, hj,
    Nat.shiftLeft_eq, Sign.apply, ← Nat.cast_add]
  exact normalize_pos (by positivity) _ _

theorem Units.add {b : Nat} (hf : Units f n) (hg : Units g m) (hb : b ≤ 2097)
    (hsmall : n + m < 2 ^ b) :
    Units (Machine.stored (UnpackedFloat.add Format.binary64 f g))
      (nearest 0 (n + m)) := by
  cases hf with
  | zero s =>
      cases hg with
      | zero s' =>
          rw [Nat.add_zero, nearest_zero_zero, UnpackedFloat.add]
          split <;> exact (Units.zero _).stored
      | finite hm hparts =>
          have hunits := Units.finite hm hparts
          rw [Nat.zero_add, nearest_zero_of_fits hunits.fits]
          exact hunits.stored
  | @finite m i hm hparts =>
      cases hg with
      | zero s =>
          have hunits := Units.finite hm hparts
          rw [Nat.add_zero, nearest_zero_of_fits hunits.fits]
          exact hunits.stored
      | @finite m' j hm' hparts' =>
          have hi : m * 2 ^ (i - min i j) * 2 ^ min i j = m * 2 ^ i := by
            rw [mul_assoc, ← pow_add, Nat.sub_add_cancel (min_le_left i j)]
          have hj : m' * 2 ^ (j - min i j) * 2 ^ min i j = m' * 2 ^ j := by
            rw [mul_assoc, ← pow_add, Nat.sub_add_cancel (min_le_right i j)]
          rw [← hi, ← hj, ← Nat.add_mul] at hsmall ⊢
          have hbound : nearest 0 ((m * 2 ^ (i - min i j) +
              m' * 2 ^ (j - min i j)) * 2 ^ min i j) ≤ 2 ^ b :=
            nearest_le (fits_two_pow b) (by simpa using hsmall.le)
          rw [add_finite]
          exact (extent_round (by positivity)).to_units
            (lt_tooMany_of_le hbound (by omega))

/-- A sum is rounded to the nearest number of units. -/
theorem HasUnits.add {b : Nat} (hx : HasUnits x n) (hy : HasUnits y m)
    (hb : b ≤ 2097) (hsmall : n + m < 2 ^ b) :
    HasUnits (x + y) (nearest 0 (n + m)) :=
  Units.add hx hy hb hsmall

theorem HasUnits.sub_zero (hx : HasUnits x n) : HasUnits (x - 0.0) n := by
  change Units (stored (UnpackedFloat.sub Format.binary64 x.toModel.unpack
    (0.0 : Float).toModel.unpack)) n
  rw [unpack_zero]
  unfold HasUnits at hx
  generalize x.toModel.unpack = f at hx
  cases hx with
  | zero s => cases s <;> exact (Units.zero _).stored
  | finite hm hparts => exact (Units.finite hm hparts).stored

/-! ## Products -/

theorem nearest_of_zero (a : Nat) : nearest a 0 = 0 := by
  have hexact := nearest_of_fits (a := a) fits_zero
  rwa [Nat.zero_mul] at hexact

theorem Units.extent_mul (hf : Units f n) (hg : Units g m) :
    Extent (Machine.stored (UnpackedFloat.mul Format.binary64 f g))
      (nearest 1074 (n * m)) := by
  cases hf with
  | zero s =>
      rw [Nat.zero_mul, nearest_of_zero]
      cases hg <;> exact .units (Units.zero _).stored
  | @finite m₁ i hm₁ hparts₁ =>
      cases hg with
      | zero s =>
          rw [Nat.mul_zero, nearest_of_zero]
          exact .units (Units.zero _).stored
      | @finite m₂ j hm₂ hparts₂ =>
          have hpos : m₁ * m₂ ≠ 0 := (Nat.mul_pos hm₁ hm₂).ne'
          have hunits : m₁ * 2 ^ i * (m₂ * 2 ^ j) =
              m₁ * m₂ * 2 ^ (i + j) := by ring
          have hlog := log2_mul_two_pow hpos (i + j)
          have hlarge : 52 ≤ (m₁ * m₂).log2 ∨ i = 0 ∧ j = 0 := by
            rw [Nat.le_log2 hpos]
            rcases hparts₁.normal with hleast₁ | hfull₁
            · rcases hparts₂.normal with hleast₂ | hfull₂
              · right
                omega
              · exact .inl (hfull₂.trans (Nat.le_mul_of_pos_left _ hm₁))
            · exact .inl (hfull₁.trans (Nat.le_mul_of_pos_right _ hm₂))
          obtain ⟨k, hk⟩ : ∃ k, dropped 1074 (m₁ * m₂ * 2 ^ (i + j)) =
              k + (i + j) := by
            apply Nat.exists_eq_add_of_le'
            unfold dropped
            omega
          have hdropped := hk
          unfold dropped at hdropped
          rw [hunits, nearest_mul_two_pow hk]
          exact extent_roundWithAccuracy hpos (by omega) (by omega)

theorem Units.mul {b : Nat} (hf : Units f n) (hg : Units g m) (hb : b ≤ 2097)
    (hn : n < 2 ^ b) (hm : m ≤ 2 ^ 1074) :
    Units (Machine.stored (UnpackedFloat.mul Format.binary64 f g))
      (nearest 1074 (n * m)) := by
  have hbound : nearest 1074 (n * m) ≤ 2 ^ b :=
    nearest_le (fits_two_pow b) (Nat.mul_le_mul hn.le hm)
  exact (hf.extent_mul hg).to_units (lt_tooMany_of_le hbound (by omega))

theorem HasUnits.mul {b : Nat} (hx : HasUnits x n) (hy : HasUnits y m)
    (hb : b ≤ 2097) (hn : n < 2 ^ b) (hm : m ≤ 2 ^ 1074) :
    HasUnits (x * y) (nearest 1074 (n * m)) :=
  Units.mul hx hy hb hn hm

/-! ## Whole numbers and quotients -/

theorem hasUnits_toFloat {n : UInt64} (hn : n.toNat < 2 ^ 53) :
    HasUnits n.toFloat (n.toNat * 2 ^ 1074) := by
  change Units (stored (UnpackedFloat.normalize Format.binary64 n.toNat 0
    .positive)) (n.toNat * 2 ^ 1074)
  rcases Nat.eq_zero_or_pos n.toNat with hzero | hpos
  · rw [hzero, Nat.zero_mul]
    exact (Units.zero _).stored
  · have hfits : Fits (n.toNat * 2 ^ 1074) := ⟨n.toNat, 1074, hn, rfl⟩
    have hsmall : n.toNat * 2 ^ 1074 < 2 ^ (53 + 1074) := by
      rw [pow_add]
      exact Nat.mul_lt_mul_of_pos_right hn (by positivity)
    have hextent := extent_round (i := 1074) hpos.ne'
    rw [nearest_zero_of_fits hfits] at hextent
    rw [normalize_pos hpos]
    exact hextent.to_units (lt_tooMany_of_le hsmall.le (by omega))

/-- A whole number of up to 53 bits is a machine number. -/
theorem hasUnits_ofNat {n : Nat} (hn : n < 2 ^ 53) :
    HasUnits (Float.ofNat n) (n * 2 ^ 1074) := by
  have hproduct : Float.ofNat n =
      n.toUInt64.toFloat * Float.ofBits 0x3ff0000000000000 := by
    change Float.ofScientific n false 0 = _
    rw [Float.ofScientific, dif_pos ⟨hn, by decide⟩]
    rfl
  have hone : Float.ofBits 0x3ff0000000000000 = 1.0 := by decide +kernel
  have hword : n.toUInt64.toNat = n := by
    rw [Nat.toUInt64_eq, UInt64.toNat_ofNat', Nat.mod_eq_of_lt]
    omega
  have hwhole : HasUnits n.toUInt64.toFloat (n * 2 ^ 1074) := by
    have hunits := hasUnits_toFloat (hword.trans_lt hn)
    rwa [hword] at hunits
  have hsmall : n * 2 ^ 1074 < 2 ^ (53 + 1074) := by
    rw [pow_add]
    exact Nat.mul_lt_mul_of_pos_right hn (by positivity)
  have hunits := hwhole.mul hasUnits_one (by omega) hsmall le_rfl
  rw [nearest_of_fits hwhole.fits] at hunits
  rwa [hproduct, hone]

theorem divCore_two_pow {m j : Nat} (hfull : 2 ^ 52 ≤ m) (hm : m < 2 ^ 53)
    (hj : 54 ≤ j) :
    divCore Format.binary64 m (j - 1074) (2 ^ 52) 1 =
      (m * 2 ^ 1, (j - 1128 : Int), Accuracy.exact) := by
  have hlog : m.log2 = 52 := (Nat.log2_eq_iff (by omega)).mpr ⟨hfull, hm⟩
  have htarget : min ((j - 1074 : Int) - 1)
      (Format.binary64.targetExponent (totalExponent m (j - 1074) -
        totalExponent (2 ^ 52) 1)) = j - 1128 := by
    change min ((j - 1074 : Int) - 1)
      (max ((m.log2 : Int) + 1 + (j - 1074) -
        ((2 ^ 52 : Nat).log2 + 1 + 1) - 53) (-1074)) = _
    rw [hlog, Nat.log2_two_pow]
    omega
  have hshift : ((j - 1074 : Int) - 1 - (j - 1128)).toNat = 53 := by omega
  have hquotient : m * 2 ^ 53 / 2 ^ 52 = m * 2 ^ 1 := by omega
  have hrest : m * 2 ^ 53 % 2 ^ 52 = 0 := by omega
  simp only [divCore, htarget, hshift, Nat.shiftLeft_eq, hquotient, hrest]
  rfl

theorem two_pow_le_mul {n a b : Nat} (hn : 0 < n) (hab : a ≤ b) :
    2 ^ a ≤ n * 2 ^ b :=
  (Nat.pow_le_pow_right (by decide) hab).trans (Nat.le_mul_of_pos_left _ hn)

/-- Dividing by `2 ^ 53` is exact as long as no bits are lost at the end. -/
theorem Units.div_two_pow (hf : Units f (n * 2 ^ 53))
    (hlarge : n = 0 ∨ 2 ^ 53 ≤ n) :
    Units (Machine.stored (UnpackedFloat.div Format.binary64 f
      (.finite .positive (2 ^ 52) 1 (by decide)))) n := by
  generalize hwhole : n * 2 ^ 53 = whole at hf
  cases hf with
  | zero s =>
      obtain rfl : n = 0 := by omega
      exact (Units.zero _).stored
  | @finite m j hm hparts =>
      have hpos : 0 < m * 2 ^ j := Nat.mul_pos hm (Nat.two_pow_pos j)
      have hlt := hparts.mantissa_lt
      have hj : 54 ≤ j := by
        by_contra hfew
        have hless : m * 2 ^ j < 2 ^ 53 * 2 ^ 53 :=
          Nat.mul_lt_mul_of_lt_of_le hlt
            (Nat.pow_le_pow_right (by decide) (by omega)) (by positivity)
        omega
      have hfull : 2 ^ 52 ≤ m := hparts.normal.resolve_left (by omega)
      have hlog : m.log2 = 52 :=
        (Nat.log2_eq_iff hm.ne').mpr ⟨hfull, hlt⟩
      have hdouble := log2_mul_two_pow hm.ne' 1
      have hgreatest := hparts.le_greatest
      have hround : rounded (m * 2 ^ 1) 1 = m := by
        rw [← Nat.zero_add 1, rounded_mul_two_pow, rounded_zero]
      obtain ⟨i, rfl⟩ := Nat.exists_eq_add_of_le' hj
      have hextent := extent_roundWithAccuracy (n := m * 2 ^ 1) (k := 1)
        (j := i + 1) (e := (i + 54 : Nat) - 1128) (by omega) (by omega)
        (by omega)
      have hsmall : m * 2 ^ (i + 1) ≤ 2 ^ (53 + (i + 1)) := by
        rw [pow_add 2 53]
        exact Nat.mul_le_mul_right _ hlt.le
      rw [hround] at hextent
      have hunits := hextent.to_units (lt_tooMany_of_le hsmall (by omega))
      have hexact : n = m * 2 ^ (i + 1) := by
        have hscaled : m * 2 ^ (i + 54) = m * 2 ^ (i + 1) * 2 ^ 53 := by ring
        omega
      rw [← hexact] at hunits
      rw [UnpackedFloat.div, divCore_two_pow hfull hlt hj]
      exact hunits

theorem unpack_two_pow : (9007199254740992.0 : Float).toModel.unpack =
    .finite .positive (2 ^ 52) 1 (by decide) := by
  have hbits : (9007199254740992.0 : Float) =
      ⟨⟨0x4340000000000000, ⟨by decide⟩⟩⟩ := by decide +kernel
  rw [hbits]
  rfl

theorem HasUnits.div_two_pow (hx : HasUnits x (n * 2 ^ 53))
    (hlarge : n = 0 ∨ 2 ^ 53 ≤ n) :
    HasUnits (x / 9007199254740992.0) n := by
  change Units (stored (UnpackedFloat.div Format.binary64 x.toModel.unpack
    (9007199254740992.0 : Float).toModel.unpack)) n
  rw [unpack_two_pow]
  exact Units.div_two_pow hx hlarge

end Machine

end TreeGrowth
