import TreeGrowth.Proofs.Numeric.Extent

/-!
# Powers of machine numbers

How a machine number is raised to a power is left to the platform, which
promises that no number lies between its result and the exact power, and that
powers from `2 ^ 1024` on are infinite.  No more than that is needed to see that
a power with a greater exponent is no less: powers of a number above one are so
far apart that there is a machine number between any two of them.
-/

namespace TreeGrowth

open Float.Model Float.Model.UnpackedFloat

namespace Machine

variable {n m k : Nat} {x y d : Float}

/-! ## Values -/

/-- The number that so many units are. -/
def value (n : Nat) : ℚ := n / 2 ^ 1074

theorem value_eq (n : Nat) : value n = n / (2 ^ 1074 : Nat) := by
  rw [value, Nat.cast_pow, Nat.cast_ofNat]

theorem value_le_iff : value n ≤ value m ↔ n ≤ m := by
  rw [value, value, div_le_div_iff_of_pos_right (by positivity), Nat.cast_le]

theorem value_lt_iff : value n < value m ↔ n < m := by
  rw [← not_le, value_le_iff, Nat.not_le]

theorem value_mul_two_pow (n : Nat) : value (n * 2 ^ 1074) = n := by
  rw [value, Nat.cast_mul, Nat.cast_pow, Nat.cast_ofNat]
  exact mul_div_cancel_right₀ _ (by positivity)

theorem value_one : value (2 ^ 1074) = 1 := by
  have hone := value_mul_two_pow 1
  rwa [Nat.one_mul, Nat.cast_one] at hone

theorem value_tooMany : value tooMany = 2 ^ 1024 := by
  have hexponent : 2098 = 1024 + 1074 := rfl
  rw [tooMany, hexponent, pow_add, value_mul_two_pow, Nat.cast_pow,
    Nat.cast_ofNat]

theorem HasUnits.one_le_iff (hx : HasUnits x n) :
    (1.0 : Float) ≤ x ↔ 1 ≤ value n := by
  rw [hasUnits_one.le_iff hx, ← value_one, value_le_iff]

theorem fits_mul_two_pow {m : Nat} (hm : m ≤ 2 ^ 53) (j : Nat) :
    Fits (m * 2 ^ j) := by
  rcases hm.lt_or_eq with hlt | rfl
  · exact ⟨m, j, hlt, rfl⟩
  · rw [← pow_add]
    exact fits_two_pow _

/-- A number that fits is found within a part of `2 ^ 52` above another. -/
theorem exists_fits_above {N : Nat} (hN : 2 ^ 52 ≤ N) :
    ∃ b, Fits b ∧ N < b ∧ b * 2 ^ 52 ≤ N * 2 ^ 52 + N := by
  have hpos : N ≠ 0 := by omega
  obtain ⟨j, hj⟩ : ∃ j, N.log2 = j + 52 := by
    have hlog := (Nat.le_log2 hpos).mpr hN
    exact ⟨N.log2 - 52, by omega⟩
  have hstep : 2 ^ j * 2 ^ 52 ≤ N := by
    rw [← pow_add, ← hj]
    exact Nat.log2_self_le hpos
  have hshort : N / 2 ^ j + 1 ≤ 2 ^ 53 := by
    have hbits : 53 + j = N.log2 + 1 := by omega
    rw [Nat.succ_le_iff, Nat.div_lt_iff_lt_mul (by positivity), ← pow_add,
      hbits]
    exact Nat.lt_log2_self
  have hbelow : N / 2 ^ j * 2 ^ j ≤ N := Nat.div_mul_le_self N _
  refine ⟨(N / 2 ^ j + 1) * 2 ^ j, fits_mul_two_pow hshort j, ?_, ?_⟩
  · rw [Nat.mul_comm]
    exact Nat.lt_mul_div_succ N (Nat.two_pow_pos j)
  · rw [Nat.add_mul (N / 2 ^ j), Nat.one_mul, Nat.add_mul]
    exact Nat.add_le_add (Nat.mul_le_mul_right _ hbelow) hstep

theorem exists_fits_between {v w : ℚ} (hv : 1 ≤ v)
    (hvw : v * (1 + 1 / 2 ^ 52) ≤ w) :
    ∃ b, Fits b ∧ v ≤ value b ∧ value b ≤ w := by
  obtain ⟨u, hu⟩ : ∃ u : ℚ, 2 ^ 1074 = u := ⟨_, rfl⟩
  have hupos : 0 < u := by
    rw [← hu]
    positivity
  obtain ⟨N, hN⟩ : ∃ N, N = ⌊v * u⌋₊ := ⟨_, rfl⟩
  have hfloor : (N : ℚ) ≤ v * u := hN ▸ Nat.floor_le (by positivity)
  have hceil : v * u < N + 1 := hN ▸ Nat.lt_floor_add_one _
  have hlarge : 2 ^ 52 ≤ N := by
    rw [hN]
    apply Nat.le_floor
    rw [Nat.cast_pow, Nat.cast_ofNat]
    apply le_trans _ (le_mul_of_one_le_left hupos.le hv)
    rw [← hu]
    exact pow_le_pow_right₀ one_le_two (by omega)
  obtain ⟨b, hb, habove, hbelow⟩ := exists_fits_above hlarge
  have habove' : (N + 1 : ℚ) ≤ b := by exact_mod_cast habove
  have hbelow' : (b * 2 ^ 52 : ℚ) ≤ N * 2 ^ 52 + N := by exact_mod_cast hbelow
  refine ⟨b, hb, ?_, ?_⟩
  · rw [value, hu, le_div_iff₀ hupos]
    exact hceil.le.trans habove'
  · rw [value, hu, div_le_iff₀ hupos]
    calc (b : ℚ) ≤ N * (1 + 1 / 2 ^ 52) := by linarith
      _ ≤ v * u * (1 + 1 / 2 ^ 52) := by gcongr
      _ = v * (1 + 1 / 2 ^ 52) * u := by ring
      _ ≤ w * u := by gcongr

/-- The next number that fits above a power of two is a part of `2 ^ 52` of it
away. -/
theorem mul_le_of_fits {c : Nat} (hfits : Fits n) (hn : 2 ^ (c + 52) < n) :
    2 ^ (c + 52) * 2 ^ 52 + 2 ^ (c + 52) ≤ n * 2 ^ 52 := by
  obtain ⟨m, j, hm, rfl⟩ := hfits
  have hlong : c ≤ j := by
    by_contra hshort
    have hless : m * 2 ^ j < 2 ^ (53 + j) := by
      rw [pow_add]
      exact Nat.mul_lt_mul_of_pos_right hm (Nat.two_pow_pos j)
    have hsmall : 2 ^ (53 + j) ≤ 2 ^ (c + 52) :=
      Nat.pow_le_pow_right (by decide) (by omega)
    omega
  obtain ⟨i, rfl⟩ := Nat.exists_eq_add_of_le' hlong
  have hpart : 2 ^ (c + 52) = 2 ^ 52 * 2 ^ c := by ring
  have hmore : 2 ^ 52 < m * 2 ^ i := by
    rw [hpart, pow_add, ← mul_assoc] at hn
    exact Nat.lt_of_mul_lt_mul_right hn
  calc 2 ^ (c + 52) * 2 ^ 52 + 2 ^ (c + 52)
      = (2 ^ 52 + 1) * 2 ^ c * 2 ^ 52 := by ring
    _ ≤ m * 2 ^ i * 2 ^ c * 2 ^ 52 := by gcongr; omega
    _ = m * 2 ^ (i + c) * 2 ^ 52 := by ring

/-- The next number above one is `1 + 2 ^ -52`. -/
theorem one_add_le_value (hfits : Fits n) (hn : 1 < value n) :
    1 + 1 / 2 ^ 52 ≤ value n := by
  have hexponent : 1074 = 1022 + 52 := rfl
  rw [← value_one, value_lt_iff, hexponent] at hn
  have hnext := mul_le_of_fits hfits hn
  rw [← hexponent] at hnext
  have hpos : 0 < 2 ^ 1074 := by positivity
  rw [value_eq]
  generalize 2 ^ 1074 = u at hpos hnext
  have hpos' : (0 : ℚ) < u := by exact_mod_cast hpos
  have hnext' : (u * 2 ^ 52 + u : ℚ) ≤ n * 2 ^ 52 := by exact_mod_cast hnext
  rw [le_div_iff₀ hpos']
  linarith

/-- A number above one is doubled by `2 ^ 52` factors at most. -/
theorem two_pow_le_value_pow (hfits : Fits n) (hn : 1 < value n) :
    2 ^ 1024 ≤ value n ^ 2 ^ 62 := by
  have hexponent : 2 ^ 62 = 2 ^ 52 * 1024 := rfl
  have hpart : (0 : ℚ) ≤ 1 / 2 ^ 52 := by positivity
  have htwo : 2 ≤ value n ^ 2 ^ 52 :=
    calc (2 : ℚ) = 1 + (2 ^ 52 : Nat) * (1 / 2 ^ 52) := by norm_num
      _ ≤ (1 + 1 / 2 ^ 52) ^ 2 ^ 52 :=
        one_add_mul_le_pow (by linarith) (2 ^ 52)
      _ ≤ value n ^ 2 ^ 52 :=
        pow_le_pow_left₀ (by linarith) (one_add_le_value hfits hn) _
  rw [hexponent, pow_mul]
  gcongr

/-- The number that a number of units is rounded to. -/
def ofUnits (n : Nat) : Float :=
  .ofModel (Float.Model.pack
    (UnpackedFloat.round Format.binary64 .positive n ((0 : Nat) - 1074)))

theorem hasExtent_ofUnits (hn : n ≠ 0) : HasExtent (ofUnits n) (nearest 0 n) := by
  have hextent := extent_round (i := 0) hn
  rwa [pow_zero, Nat.mul_one] at hextent

theorem hasUnits_ofUnits (hfits : Fits n) (hn : n ≠ 0) (hlt : n < tooMany) :
    HasUnits (ofUnits n) n := by
  have hextent := hasExtent_ofUnits hn
  rw [nearest_zero_of_fits hfits] at hextent
  exact hextent.hasUnits hlt

/-! ## Faithful powers -/

/-- No number lies between the power of a number from one on with a whole
exponent and what the function gives for it, and a power that is too great for
a number is infinite. -/
structure FaithfulPower (power : Float → Float → Float) : Prop where
  reached {x y d : Float} {n k b : Nat} (hx : HasUnits x n) (hone : 1.0 ≤ x)
    (hy : HasUnits y (k * 2 ^ 1074)) (hd : HasUnits d b)
    (hle : value b ≤ value n ^ k) : d ≤ power x y
  bounded {x y d : Float} {n k b : Nat} (hx : HasUnits x n) (hone : 1.0 ≤ x)
    (hy : HasUnits y (k * 2 ^ 1074)) (hd : HasUnits d b)
    (hle : value n ^ k ≤ value b) : power x y ≤ d
  infinite {x y : Float} {n k : Nat} (hx : HasUnits x n) (hone : 1.0 ≤ x)
    (hy : HasUnits y (k * 2 ^ 1074)) (hle : 2 ^ 1024 ≤ value n ^ k) :
    Scalar.isFinite (power x y) = false

theorem isFinite_of_le_of_le {lo hi : Float} (hlo : Scalar.isFinite lo = true)
    (hhi : Scalar.isFinite hi = true) (hlox : lo ≤ x) (hxhi : x ≤ hi) :
    Scalar.isFinite x = true := by
  have hlo' : lo.toModel.unpack.isFinite = true := hlo
  have hhi' : hi.toModel.unpack.isFinite = true := hhi
  rw [le_iff_compare] at hlox hxhi
  change x.toModel.unpack.isFinite = true
  generalize lo.toModel.unpack = f at hlo' hlox
  generalize hi.toModel.unpack = g at hhi' hxhi
  cases hparts : x.toModel.unpack with
  | notANumber =>
      rw [hparts] at hlox
      cases f <;> simp [UnpackedFloat.compare] at hlox
  | infinity s =>
      rw [hparts] at hlox hxhi
      cases s with
      | negative =>
          cases f <;> simp_all [UnpackedFloat.compare, UnpackedFloat.isFinite]
      | positive =>
          cases g <;> simp_all [UnpackedFloat.compare, UnpackedFloat.isFinite]
  | zero s => rfl
  | finite s m e hm => rfl

namespace FaithfulPower

variable {power : Float → Float → Float} {y' : Float} {k' : Nat}

theorem one_le (hpower : FaithfulPower power) (hx : HasUnits x n)
    (hone : 1.0 ≤ x) (hy : HasUnits y (k * 2 ^ 1074)) : 1.0 ≤ power x y := by
  apply hpower.reached hx hone hy hasUnits_one
  rw [value_one]
  exact one_le_pow₀ (hx.one_le_iff.mp hone)

theorem exists_hasUnits (hpower : FaithfulPower power) (hx : HasUnits x n)
    (hone : 1.0 ≤ x) (hy : HasUnits y (k * 2 ^ 1074))
    (hfinite : Scalar.isFinite (power x y) = true) :
    ∃ p, HasUnits (power x y) p ∧ 2 ^ 1074 ≤ p := by
  have hle := hpower.one_le hx hone hy
  have hnonneg : (0.0 : Float) ≤ power x y :=
    le_of_le_of_le isFinite_zero isFinite_one hfinite (by decide +kernel) hle
  obtain ⟨p, hp⟩ := Machine.exists_hasUnits hfinite hnonneg
  exact ⟨p, hp, (hasUnits_one.le_iff hp).mp hle⟩

/-- Between the powers with two exponents lies a machine number. -/
theorem exists_between (hx : HasUnits x n) (hone : 1.0 ≤ x) (hlt : k < k')
    (hsmall : value n ^ k' < 2 ^ 1024) :
    ∃ d b, HasUnits d b ∧ value n ^ k ≤ value b ∧
      value b ≤ value n ^ k' := by
  rw [hx.one_le_iff] at hone
  rcases hone.eq_or_lt with heq | habove
  · refine ⟨1.0, 2 ^ 1074, hasUnits_one, ?_, ?_⟩ <;>
      rw [value_one, ← heq, one_pow]
  · have hpower : 1 ≤ value n ^ k := one_le_pow₀ hone
    have hstep : value n ^ k * (1 + 1 / 2 ^ 52) ≤ value n ^ k' :=
      calc value n ^ k * (1 + 1 / 2 ^ 52) ≤ value n ^ k * value n := by
            gcongr
            exact one_add_le_value hx.fits habove
        _ = value n ^ (k + 1) := (pow_succ _ _).symm
        _ ≤ value n ^ k' := pow_le_pow_right₀ hone hlt
    obtain ⟨b, hb, hreached, hbelow⟩ := exists_fits_between hpower hstep
    have hpos : b ≠ 0 := by
      rintro rfl
      have hzero : value 0 = 0 := by rw [value, Nat.cast_zero, zero_div]
      linarith
    have hlt : b < tooMany := by
      rw [← value_lt_iff, value_tooMany]
      exact hbelow.trans_lt hsmall
    exact ⟨ofUnits b, b, hasUnits_ofUnits hb hpos hlt, hreached, hbelow⟩

/-- A power with a greater exponent is no less, as long as it is finite. -/
theorem le_of_lt (hpower : FaithfulPower power) (hx : HasUnits x n)
    (hone : 1.0 ≤ x) (hy : HasUnits y (k * 2 ^ 1074))
    (hy' : HasUnits y' (k' * 2 ^ 1074)) (hlt : k < k')
    (hfinite : Scalar.isFinite (power x y') = true) :
    Scalar.isFinite (power x y) = true ∧ power x y ≤ power x y' := by
  have hsmall : value n ^ k' < 2 ^ 1024 := by
    by_contra hlarge
    rw [hpower.infinite hx hone hy' (not_lt.mp hlarge)] at hfinite
    exact Bool.false_ne_true hfinite
  obtain ⟨d, b, hd, hreached, hbelow⟩ := exists_between hx hone hlt hsmall
  have hle := hpower.bounded hx hone hy hd hreached
  have hle' := hpower.reached hx hone hy' hd hbelow
  have hfinite' := isFinite_of_le_of_le isFinite_one hd.isFinite
    (hpower.one_le hx hone hy) hle
  exact ⟨hfinite', le_of_le_of_le hfinite' hd.isFinite hfinite hle hle'⟩

/-- Powers grow with whole exponents, however these are rounded. -/
theorem ofNat_mono (hpower : FaithfulPower power) (hx : HasUnits x n)
    (hone : 1.0 ≤ x) {i j : Nat} (hij : i ≤ j)
    (hj : Scalar.isFinite (Float.ofNat j) = true)
    (hfinite : Scalar.isFinite (power x (Float.ofNat j)) = true) :
    Scalar.isFinite (power x (Float.ofNat i)) = true ∧
      power x (Float.ofNat i) ≤ power x (Float.ofNat j) := by
  rcases (nearest_mono 0 hij).eq_or_lt with hsame | hless
  · rw [ofNat_eq_of_nearest hsame hj]
    exact ⟨hfinite, le_self hfinite⟩
  · have hextent := hasExtent_ofNat j
    have hsmall := hextent.isFinite_iff.mp hj
    have hscaled : nearest 0 i * 2 ^ 1074 ≤ nearest 0 j * 2 ^ 1074 :=
      Nat.mul_le_mul_right _ hless.le
    exact hpower.le_of_lt hx hone
      ((hasExtent_ofNat i).hasUnits (hscaled.trans_lt hsmall))
      (hextent.hasUnits hsmall) hless hfinite

/-- Powers of one are one. -/
theorem isFinite_of_le_one (hpower : FaithfulPower power) (hx : HasUnits x n)
    (hone : 1.0 ≤ x) (hle : x ≤ 1.0) (hy : HasUnits y (k * 2 ^ 1074)) :
    Scalar.isFinite (power x y) = true := by
  have hvalue : value n = 1 := by
    apply le_antisymm _ (hx.one_le_iff.mp hone)
    rw [← value_one, value_le_iff]
    exact (hx.le_iff hasUnits_one).mp hle
  refine isFinite_of_le_of_le isFinite_one isFinite_one
    (hpower.one_le hx hone hy) (hpower.bounded hx hone hy hasUnits_one ?_)
  rw [hvalue, one_pow, value_one]

/-- No power up to the greatest number is infinite. -/
theorem isFinite_of_le (hpower : FaithfulPower power) (hx : HasUnits x n)
    (hone : 1.0 ≤ x) (hy : HasUnits y (k * 2 ^ 1074))
    (hle : value n ^ k ≤ (2 ^ 53 - 1) * 2 ^ 971) :
    Scalar.isFinite (power x y) = true := by
  have hexponent : 2045 = 971 + 1074 := rfl
  have hexponent' : 2098 = 53 + 2045 := rfl
  have hvalue : value ((2 ^ 53 - 1) * 2 ^ 2045) = (2 ^ 53 - 1) * 2 ^ 971 := by
    rw [hexponent, pow_add, ← mul_assoc, value_mul_two_pow, Nat.cast_mul,
      Nat.cast_pow 2 971, Nat.cast_ofNat]
    norm_num
  have hlt : (2 ^ 53 - 1) * 2 ^ 2045 < tooMany := by
    rw [tooMany, hexponent', pow_add]
    exact Nat.mul_lt_mul_of_pos_right (by decide) (by positivity)
  have hpos : (2 ^ 53 - 1) * 2 ^ 2045 ≠ 0 :=
    Nat.mul_ne_zero (by decide) (by positivity)
  have hgreatest := hasUnits_ofUnits ⟨2 ^ 53 - 1, 2045, by decide, rfl⟩ hpos hlt
  exact isFinite_of_le_of_le isFinite_one hgreatest.isFinite
    (hpower.one_le hx hone hy)
    (hpower.bounded hx hone hy hgreatest (hle.trans hvalue.ge))

end FaithfulPower

/-! ## A faithful power -/

/-- The number of units of a positive number. -/
def unitsOf : UnpackedFloat → Nat
  | .finite .positive m e _ => m * 2 ^ (e + 1074).toNat
  | _ => 0

theorem HasUnits.unitsOf_eq (hx : HasUnits x n) :
    unitsOf x.toModel.unpack = n := by
  unfold HasUnits at hx
  generalize x.toModel.unpack = f at hx
  cases hx with
  | zero s => rfl
  | @finite m j hm hparts =>
      have hexponent : ((j - 1074 : Int) + 1074).toNat = j := by omega
      rw [unitsOf, hexponent]

/-- As many units of a power as are whole, rounded to the nearest number. -/
def nearestPower (x y : Float) : Float :=
  let n := unitsOf x.toModel.unpack
  let k := unitsOf y.toModel.unpack / 2 ^ 1074
  ofUnits (n ^ k * 2 ^ 1074 / (2 ^ 1074) ^ k)

theorem value_pow (n k : Nat) :
    value n ^ k = (n ^ k : ℕ) / ((2 ^ 1074) ^ k : ℕ) := by
  rw [value_eq, div_pow, Nat.cast_pow n, Nat.cast_pow (2 ^ 1074)]

theorem value_le_pow_iff {b : Nat} :
    value b ≤ value n ^ k ↔ b ≤ n ^ k * 2 ^ 1074 / (2 ^ 1074) ^ k := by
  rw [Nat.le_div_iff_mul_le (by positivity), value_pow, value_eq,
    div_le_div_iff₀ (by positivity) (by positivity)]
  exact_mod_cast Iff.rfl

theorem div_le_of_pow_le_value {b : Nat} (hle : value n ^ k ≤ value b) :
    n ^ k * 2 ^ 1074 / (2 ^ 1074) ^ k ≤ b := by
  rw [value_pow, value_eq, div_le_div_iff₀ (by positivity) (by positivity)]
    at hle
  apply Nat.div_le_of_le_mul
  rw [Nat.mul_comm _ b]
  exact_mod_cast hle

theorem faithfulPower_nearestPower : FaithfulPower nearestPower := by
  have hextent : ∀ {x y : Float} {n k : Nat}, HasUnits x n → 1.0 ≤ x →
      HasUnits y (k * 2 ^ 1074) →
      HasExtent (nearestPower x y)
        (nearest 0 (n ^ k * 2 ^ 1074 / (2 ^ 1074) ^ k)) := by
    intro x y n k hx hone hy
    have hpower : 2 ^ 1074 ≤ n ^ k * 2 ^ 1074 / (2 ^ 1074) ^ k := by
      rw [← value_le_pow_iff, value_one]
      exact one_le_pow₀ (hx.one_le_iff.mp hone)
    have hpos : n ^ k * 2 ^ 1074 / (2 ^ 1074) ^ k ≠ 0 := by
      have hunit : 0 < 2 ^ 1074 := by positivity
      omega
    have hexponent : k * 2 ^ 1074 / 2 ^ 1074 = k :=
      Nat.mul_div_cancel k (by positivity)
    rw [nearestPower, hx.unitsOf_eq, hy.unitsOf_eq, hexponent]
    exact hasExtent_ofUnits hpos
  refine ⟨?_, ?_, ?_⟩
  · intro x y d n k b hx hone hy hd hle
    rw [hd.le_extent_iff (hextent hx hone hy)]
    apply le_nearest hd.fits
    rw [pow_zero, mul_one]
    exact value_le_pow_iff.mp hle
  · intro x y d n k b hx hone hy hd hle
    apply (hextent hx hone hy).le_of_le hd
    apply nearest_le hd.fits
    rw [pow_zero, mul_one]
    exact div_le_of_pow_le_value hle
  · intro x y n k hx hone hy hle
    rw [← Bool.not_eq_true, (hextent hx hone hy).isFinite_iff, Nat.not_lt]
    rw [← value_tooMany, value_le_pow_iff] at hle
    apply le_nearest (fits_two_pow 2098)
    rw [pow_zero, mul_one]
    exact hle

end Machine

end TreeGrowth
