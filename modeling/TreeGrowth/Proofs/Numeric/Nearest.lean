import TreeGrowth.Proofs.Numeric.Machine

/-!
# Rounding to the nearest number

Bits that are dropped from a mantissa round it to the nearest one, and a tie
goes to the even one.  A number of units that has no more than 53 bits before
its trailing zeros needs no rounding, and rounding never passes such a number.
-/

namespace TreeGrowth

open Float.Model Float.Model.UnpackedFloat

namespace Machine

/-! ## Dropped bits -/

/-- The first of the dropped bits is kept apart, and of the others only whether
all of them are zero. -/
theorem shiftRight_eq (n k : Nat) :
    (⟨n, false, false⟩ : ExtendedMantissa) >>> k =
      ⟨n / 2 ^ k, decide (2 ^ k ≤ 2 * (n % 2 ^ k)),
        decide (2 * (n % 2 ^ k) % 2 ^ k ≠ 0)⟩ := by
  induction k with
  | zero => simp [HShiftRight.hShiftRight, Nat.repeat, Nat.mod_one]
  | succ k ih =>
      have hrest : n % 2 ^ k < 2 ^ k := Nat.mod_lt _ (by positivity)
      have hmod : n % 2 ^ (k + 1) = n % 2 ^ k + 2 ^ k * (n / 2 ^ k % 2) :=
        Nat.mod_pow_succ
      have hround : decide (2 ^ (k + 1) ≤ 2 * (n % 2 ^ (k + 1))) =
          (n / 2 ^ k % 2 != 0) := by
        rw [Bool.eq_iff_iff, decide_eq_true_eq, bne_iff_ne, hmod, pow_succ]
        rcases Nat.mod_two_eq_zero_or_one (n / 2 ^ k) with hbit | hbit <;>
          rw [hbit] <;> omega
      have htwice : 2 * (n % 2 ^ (k + 1)) % 2 ^ (k + 1) =
          2 * (n % 2 ^ k) := by
        have hlt : 2 * (n % 2 ^ k) < 2 ^ (k + 1) := by
          rw [pow_succ]
          omega
        rw [hmod, Nat.mul_add, ← Nat.mul_assoc, ← pow_succ',
          Nat.add_mul_mod_self_left, Nat.mod_eq_of_lt hlt]
      have hsticky : decide (2 * (n % 2 ^ k) ≠ 0) =
          (decide (2 ^ k ≤ 2 * (n % 2 ^ k)) ||
            decide (2 * (n % 2 ^ k) % 2 ^ k ≠ 0)) := by
        rw [← Bool.decide_or, decide_eq_decide]
        rcases Nat.lt_or_ge (2 * (n % 2 ^ k)) (2 ^ k) with hlt | hge
        · rw [Nat.mod_eq_of_lt hlt]
          omega
        · omega
      rw [hround, htwice, hsticky, pow_succ, ← Nat.div_div_eq_div_mul]
      change ((⟨n, false, false⟩ : ExtendedMantissa) >>> k).shiftRightOne = _
      rw [ih]
      rfl

theorem rounded_eq (n k : Nat) :
    rounded n k =
      if 2 * (n % 2 ^ k) < 2 ^ k then n / 2 ^ k
      else if 2 * (n % 2 ^ k) = 2 ^ k then n / 2 ^ k + n / 2 ^ k % 2
      else n / 2 ^ k + 1 := by
  have hrest : n % 2 ^ k < 2 ^ k := Nat.mod_lt _ (by positivity)
  rw [rounded, shiftRight_eq]
  split
  next hbelow =>
    rw [decide_eq_false (Nat.not_le.mpr hbelow)]
    cases decide (2 * (n % 2 ^ k) % 2 ^ k ≠ 0) <;> rfl
  next hreached =>
    rw [decide_eq_true (Nat.not_lt.mp hreached)]
    split
    next htie =>
      rw [htie, Nat.mod_self]
      rfl
    next habove =>
      have hmod : 2 * (n % 2 ^ k) % 2 ^ k = 2 * (n % 2 ^ k) - 2 ^ k := by
        rw [Nat.mod_eq_sub_mod (Nat.not_lt.mp hreached), Nat.mod_eq_of_lt]
        omega
      rw [hmod, decide_eq_true (by omega)]
      rfl

/-- Dropped bits round to the nearest number, and a tie to the even one. -/
theorem rounded_le_iff {n k q : Nat} :
    rounded n k ≤ q ↔ 2 * n < (2 * q + 1) * 2 ^ k ∨
      2 * n = (2 * q + 1) * 2 ^ k ∧ q % 2 = 0 := by
  have hrest : n % 2 ^ k < 2 ^ k := Nat.mod_lt _ (by positivity)
  have hparts : 2 ^ k * (n / 2 ^ k) + n % 2 ^ k = n := Nat.div_add_mod n _
  have hbound : (2 * q + 1) * 2 ^ k = 2 * (2 ^ k * q) + 2 ^ k := by ring
  rw [hbound, rounded_eq]
  rcases Nat.lt_trichotomy (n / 2 ^ k) q with hless | heq | hgreater
  · have hscaled : 2 ^ k * (n / 2 ^ k + 1) ≤ 2 ^ k * q :=
      Nat.mul_le_mul_left _ hless
    rw [Nat.mul_add, Nat.mul_one] at hscaled
    split_ifs <;> omega
  · rw [heq] at hparts ⊢
    split_ifs <;> omega
  · have hscaled : 2 ^ k * (q + 1) ≤ 2 ^ k * (n / 2 ^ k) :=
      Nat.mul_le_mul_left _ hgreater
    rw [Nat.mul_add, Nat.mul_one] at hscaled
    split_ifs <;> omega

@[simp] theorem rounded_zero (n : Nat) : rounded n 0 = n := by
  rw [rounded_eq, pow_zero, Nat.mod_one, Nat.div_one]
  rfl

/-- Trailing zeros can be dropped first. -/
theorem rounded_mul_two_pow (n k j : Nat) :
    rounded (n * 2 ^ j) (k + j) = rounded n k := by
  apply eq_of_forall_ge_iff
  intro q
  have hleft : 2 * (n * 2 ^ j) = 2 * n * 2 ^ j := by ring
  have hright : (2 * q + 1) * 2 ^ (k + j) = (2 * q + 1) * 2 ^ k * 2 ^ j := by
    ring
  have hpos : 0 < 2 ^ j := by positivity
  rw [rounded_le_iff, rounded_le_iff, hleft, hright,
    Nat.mul_lt_mul_right hpos, Nat.mul_left_inj hpos.ne']

/-! ## Numbers of units -/

/-- The number has at most 53 bits before its trailing zeros. -/
def Fits (n : Nat) : Prop :=
  ∃ m j, m < 2 ^ 53 ∧ n = m * 2 ^ j

theorem fits_zero : Fits 0 :=
  ⟨0, 0, by decide, rfl⟩

theorem fits_two_pow (j : Nat) : Fits (2 ^ j) :=
  ⟨1, j, by decide, (Nat.one_mul _).symm⟩

/-- How many bits are dropped from `n` parts of `2 ^ a`: all the parts, and
more if the whole has more than 53 bits. -/
def dropped (a n : Nat) : Nat := max (n.log2 - 52) a

/-- The number of units that `n` parts of `2 ^ a` of a unit are rounded to. -/
def nearest (a n : Nat) : Nat :=
  rounded n (dropped a n) * 2 ^ (dropped a n - a)

/-- Beyond the parts only bits of a whole with more than 53 bits are
dropped. -/
theorem two_pow_le_of_lt_dropped {a n : Nat} (hlt : a < dropped a n) :
    2 ^ (dropped a n + 52) ≤ n := by
  have hlog : dropped a n + 52 = n.log2 := by
    unfold dropped at hlt ⊢
    omega
  have hpos : n ≠ 0 := by
    rintro rfl
    rw [Nat.log2_zero] at hlog
    omega
  rw [hlog]
  exact Nat.log2_self_le hpos

/-- The dropped bits beyond the parts are zeros of any number that fits and is
not less than the whole. -/
theorem exists_eq_mul_of_fits {a n bound : Nat} (hbound : Fits bound)
    (hn : n ≤ bound * 2 ^ a) :
    ∃ m, bound = m * 2 ^ (dropped a n - a) := by
  obtain ⟨m, j, hm, rfl⟩ := hbound
  have hdropped : dropped a n - a ≤ j := by
    by_contra hmany
    have hwhole := two_pow_le_of_lt_dropped (show a < dropped a n by omega)
    have hless : m * 2 ^ j * 2 ^ a < 2 ^ (53 + (j + a)) := by
      rw [mul_assoc, ← pow_add, pow_add 2 53]
      exact Nat.mul_lt_mul_of_pos_right hm (by positivity)
    have hlong : 2 ^ (53 + (j + a)) ≤ 2 ^ (dropped a n + 52) :=
      Nat.pow_le_pow_right (by decide) (by omega)
    omega
  refine ⟨m * 2 ^ (j - (dropped a n - a)), ?_⟩
  rw [mul_assoc, ← pow_add, Nat.sub_add_cancel hdropped]

theorem le_dropped (a n : Nat) : a ≤ dropped a n := le_max_right _ _

theorem two_pow_dropped (a n : Nat) :
    2 ^ dropped a n = 2 ^ (dropped a n - a) * 2 ^ a := by
  rw [← pow_add, Nat.sub_add_cancel (le_dropped a n)]

theorem log2_mul_two_pow {n : Nat} (hn : n ≠ 0) (j : Nat) :
    (n * 2 ^ j).log2 = n.log2 + j := by
  have hlow : 2 ^ n.log2 ≤ n := Nat.log2_self_le hn
  have hhigh : n < 2 ^ (n.log2 + 1) := Nat.lt_log2_self
  apply (Nat.log2_eq_iff (by positivity)).mpr
  constructor
  · rw [pow_add]
    exact Nat.mul_le_mul_right _ hlow
  · rw [Nat.add_right_comm, pow_add]
    exact Nat.mul_lt_mul_of_pos_right hhigh (by positivity)

theorem nearest_mul_two_pow {a n j k : Nat}
    (hdropped : dropped a (n * 2 ^ j) = k + j) :
    nearest a (n * 2 ^ j) = rounded n k * 2 ^ (k + j - a) := by
  rw [nearest, hdropped, rounded_mul_two_pow]

theorem nearest_le {a n bound : Nat} (hbound : Fits bound)
    (hn : n ≤ bound * 2 ^ a) : nearest a n ≤ bound := by
  obtain ⟨m, hm⟩ := exists_eq_mul_of_fits hbound hn
  have hround : rounded n (dropped a n) ≤ m := by
    apply rounded_le
    rwa [two_pow_dropped, ← mul_assoc, ← hm]
  rw [hm]
  exact Nat.mul_le_mul_right _ hround

theorem le_nearest {a n bound : Nat} (hbound : Fits bound)
    (hn : bound * 2 ^ a ≤ n) : bound ≤ nearest a n := by
  obtain ⟨m, j, hm, rfl⟩ := hbound
  rcases Nat.lt_or_ge j (dropped a n - a) with hmany | hfew
  · have hwhole := two_pow_le_of_lt_dropped (show a < dropped a n by omega)
    have hround : 2 ^ 52 ≤ rounded n (dropped a n) := by
      apply le_trans _ (div_le_rounded n (dropped a n))
      rwa [Nat.le_div_iff_mul_le (by positivity), ← pow_add, Nat.add_comm]
    calc m * 2 ^ j ≤ 2 ^ 53 * 2 ^ j := Nat.mul_le_mul_right _ hm.le
      _ = 2 ^ 52 * 2 ^ (j + 1) := by ring
      _ ≤ 2 ^ 52 * 2 ^ (dropped a n - a) :=
        Nat.mul_le_mul_left _ (Nat.pow_le_pow_right (by decide) hmany)
      _ ≤ nearest a n := Nat.mul_le_mul_right _ hround
  · obtain ⟨i, rfl⟩ := Nat.exists_eq_add_of_le' hfew
    have hround : m * 2 ^ i ≤ rounded n (dropped a n) := by
      apply le_trans _ (div_le_rounded n (dropped a n))
      rw [Nat.le_div_iff_mul_le (by positivity), two_pow_dropped]
      rwa [pow_add, ← mul_assoc, mul_assoc] at hn
    rw [pow_add, ← mul_assoc]
    exact Nat.mul_le_mul_right _ hround

/-- A number that fits needs no rounding. -/
theorem nearest_of_fits {a n : Nat} (hn : Fits n) :
    nearest a (n * 2 ^ a) = n :=
  Nat.le_antisymm (nearest_le hn le_rfl) (le_nearest hn le_rfl)

theorem nearest_zero_of_fits {n : Nat} (hn : Fits n) : nearest 0 n = n := by
  have hexact := nearest_of_fits (a := 0) hn
  rwa [pow_zero, mul_one] at hexact

/-- A part of `2 ^ 53` of the bound is enough to stay below it, unless the
bound is so small that a tie remains. -/
theorem nearest_lt {b n bound : Nat} (hbound : Fits bound)
    (hlarge : 2 ^ 52 < bound)
    (hn : n + bound * 2 ^ b ≤ bound * 2 ^ (b + 53)) :
    nearest (b + 53) n < bound := by
  have hpart : 0 < bound * 2 ^ b := by positivity
  obtain ⟨m, hm⟩ := exists_eq_mul_of_fits hbound
    (show n ≤ bound * 2 ^ (b + 53) by omega)
  have hscaled : bound * 2 ^ (b + 53) = m * 2 ^ dropped (b + 53) n := by
    rw [two_pow_dropped, ← mul_assoc, ← hm]
  -- The part that is missing is more than half a step of the rounding.
  have hstep : 2 ^ dropped (b + 53) n < 2 * (bound * 2 ^ b) := by
    rcases (le_dropped (b + 53) n).eq_or_lt with hparts | hmany
    · rw [← hparts]
      calc 2 ^ (b + 53) = 2 * (2 ^ 52 * 2 ^ b) := by ring
        _ < 2 * (bound * 2 ^ b) := by gcongr
    · have hwhole := two_pow_le_of_lt_dropped hmany
      have hless : 2 ^ dropped (b + 53) n * 2 ^ 52 <
          2 * (bound * 2 ^ b) * 2 ^ 52 := by
        calc 2 ^ dropped (b + 53) n * 2 ^ 52 ≤ n := by rwa [← pow_add]
          _ < bound * 2 ^ (b + 53) := by omega
          _ = 2 * (bound * 2 ^ b) * 2 ^ 52 := by ring
      exact Nat.lt_of_mul_lt_mul_right hless
  have hpos : 0 < m := by
    rw [Nat.pos_iff_ne_zero]
    rintro rfl
    omega
  have hround : rounded n (dropped (b + 53) n) < m := by
    obtain ⟨q, rfl⟩ := Nat.exists_eq_add_of_lt hpos
    rw [Nat.zero_add, Nat.lt_succ_iff, rounded_le_iff]
    left
    have hbelow : (2 * q + 1) * 2 ^ dropped (b + 53) n +
        2 ^ dropped (b + 53) n =
          2 * ((0 + q + 1) * 2 ^ dropped (b + 53) n) := by ring
    omega
  calc nearest (b + 53) n <
        m * 2 ^ (dropped (b + 53) n - (b + 53)) :=
      Nat.mul_lt_mul_of_pos_right hround (by positivity)
    _ = bound := hm.symm

/-- A small bound is reached although a part of `2 ^ 53` of it is missing. -/
theorem nearest_eq {b n bound : Nat} (hsmall : bound ≤ 2 ^ 52)
    (hn : n + bound * 2 ^ b = bound * 2 ^ (b + 53)) :
    nearest (b + 53) n = bound := by
  have hwhole : n < 2 ^ (b + 106) := by
    calc n ≤ bound * 2 ^ (b + 53) := by omega
      _ ≤ 2 ^ 52 * 2 ^ (b + 53) := Nat.mul_le_mul_right _ hsmall
      _ < 2 ^ 53 * 2 ^ (b + 53) := by gcongr <;> decide
      _ = 2 ^ (b + 106) := by ring
  have hdropped : dropped (b + 53) n = b + 53 := by
    by_contra hmany
    have hlt := lt_of_le_of_ne (le_dropped (b + 53) n) (Ne.symm hmany)
    have hlong : 2 ^ (b + 106) ≤ 2 ^ (dropped (b + 53) n + 52) :=
      Nat.pow_le_pow_right (by decide) (by omega)
    exact absurd (two_pow_le_of_lt_dropped hlt) (by omega)
  have hfits : Fits bound := ⟨bound, 0, by omega, (Nat.mul_one _).symm⟩
  apply Nat.le_antisymm (nearest_le hfits (by omega))
  rw [nearest, hdropped, Nat.sub_self, pow_zero, mul_one]
  by_contra hless
  obtain ⟨q, rfl⟩ := Nat.exists_eq_add_of_lt (Nat.zero_lt_of_lt
    (Nat.not_le.mp hless))
  rw [Nat.not_le, Nat.zero_add, Nat.lt_succ_iff, rounded_le_iff] at hless
  have hstep : 2 ^ (b + 53) = 2 * (2 ^ 52 * 2 ^ b) := by ring
  have hbelow : (2 * q + 1) * 2 ^ (b + 53) + 2 ^ (b + 53) =
      2 * ((0 + q + 1) * 2 ^ (b + 53)) := by ring
  have hpart : (0 + q + 1) * 2 ^ b ≤ 2 ^ 52 * 2 ^ b :=
    Nat.mul_le_mul_right _ hsmall
  rcases hless with hless | ⟨htie, heven⟩
  · omega
  · have hfull : (0 + q + 1) * 2 ^ b = 2 ^ 52 * 2 ^ b := by omega
    have hodd := Nat.eq_of_mul_eq_mul_right (by positivity) hfull
    omega

/-- A sum stays below a power of two if what is beyond it is half a step of the
rounding at most. -/
theorem nearest_zero_le_two_pow {c n : Nat}
    (hn : n ≤ 2 ^ (c + 53) + 2 ^ c) : nearest 0 n ≤ 2 ^ (c + 53) := by
  rcases Nat.lt_or_ge n (2 ^ (c + 53)) with hbelow | habove
  · apply nearest_le (fits_two_pow _)
    rw [pow_zero, mul_one]
    exact hbelow.le
  · have hpos : n ≠ 0 := (Nat.lt_of_lt_of_le (by positivity) habove).ne'
    have hdouble : 2 ^ (c + 53 + 1) = 2 ^ (c + 53) + 2 ^ (c + 53) := by ring
    have hpart : 2 ^ c < 2 ^ (c + 53) :=
      Nat.pow_lt_pow_right (by decide) (by omega)
    have hlog : n.log2 = c + 53 :=
      (Nat.log2_eq_iff hpos).mpr ⟨habove, by omega⟩
    have hdropped : dropped 0 n = c + 1 := by
      unfold dropped
      omega
    have hround : rounded n (c + 1) ≤ 2 ^ 52 := by
      rw [rounded_le_iff]
      have hmiddle : (2 * 2 ^ 52 + 1) * 2 ^ (c + 1) =
          2 * (2 ^ (c + 53) + 2 ^ c) := by ring
      rw [hmiddle]
      omega
    rw [nearest, hdropped, Nat.sub_zero]
    calc rounded n (c + 1) * 2 ^ (c + 1) ≤ 2 ^ 52 * 2 ^ (c + 1) :=
          Nat.mul_le_mul_right _ hround
      _ = 2 ^ (c + 53) := by ring

/-! ## Rounding keeps the order -/

variable {n m : Nat}

theorem dropped_mono (a : Nat) (hle : n ≤ m) : dropped a n ≤ dropped a m := by
  have hlog : n.log2 ≤ m.log2 := by
    rcases Nat.eq_zero_or_pos n with rfl | hn
    · exact Nat.zero_le _
    · rw [Nat.le_log2 (by omega)]
      exact (Nat.log2_self_le hn.ne').trans hle
  unfold dropped
  omega

theorem rounded_mono {k : Nat} (hle : n ≤ m) : rounded n k ≤ rounded m k := by
  have hm := rounded_le_iff.mp (le_refl (rounded m k))
  rw [rounded_le_iff]
  omega

theorem nearest_mono (a : Nat) (hle : n ≤ m) : nearest a n ≤ nearest a m := by
  rcases (dropped_mono a hle).eq_or_lt with hsame | hless
  · rw [nearest, nearest, hsame]
    exact Nat.mul_le_mul_right _ (rounded_mono hle)
  · -- A power of two lies between the two numbers.
    have hparts := le_dropped a n
    obtain ⟨j, hj⟩ : ∃ j, dropped a m + 52 = j + a :=
      ⟨dropped a m + 52 - a, by omega⟩
    have hbelow : n ≤ 2 ^ j * 2 ^ a := by
      have hlog : n.log2 + 1 ≤ dropped a n + 53 := by
        unfold dropped
        omega
      rw [← pow_add]
      exact Nat.lt_log2_self.le.trans
        (Nat.pow_le_pow_right (by decide) (by omega))
    have habove : 2 ^ j * 2 ^ a ≤ m := by
      rw [← pow_add, ← hj]
      exact two_pow_le_of_lt_dropped (hparts.trans_lt hless)
    exact (nearest_le (fits_two_pow j) hbelow).trans
      (le_nearest (fits_two_pow j) habove)

/-- A whole is rounded up to a power of two from half a step below it on. -/
theorem nearest_lt_two_pow_iff {c : Nat} :
    nearest 0 n < 2 ^ (c + 54) ↔ n + 2 ^ c < 2 ^ (c + 54) := by
  have hdouble : 2 ^ (c + 54) = 2 ^ (c + 53) + 2 ^ (c + 53) := by ring
  have hpos : 0 < 2 ^ c := by positivity
  have hpart : 2 ^ c < 2 ^ (c + 53) :=
    Nat.pow_lt_pow_right (by decide) (by omega)
  rcases Nat.lt_or_ge n (2 ^ (c + 53)) with hsmall | hlarge
  · have hround : nearest 0 n ≤ 2 ^ (c + 53) := by
      apply nearest_le (fits_two_pow _)
      rw [pow_zero, mul_one]
      exact hsmall.le
    omega
  · rcases Nat.lt_or_ge n (2 ^ (c + 54)) with hbelow | habove
    · have hlog : n.log2 = c + 53 :=
        (Nat.log2_eq_iff (by omega)).mpr ⟨hlarge, hbelow⟩
      have hdropped : dropped 0 n = c + 1 := by
        unfold dropped
        omega
      have hscaled : 2 ^ (c + 54) = 2 ^ 53 * 2 ^ (c + 1) := by ring
      have hstep : (2 * (2 ^ 53 - 1) + 1) * 2 ^ (c + 1) + 2 * 2 ^ c =
          2 * 2 ^ (c + 54) := by ring
      rw [nearest, hdropped, Nat.sub_zero, hscaled,
        Nat.mul_lt_mul_right (by positivity), ← hscaled,
        ← Nat.le_sub_one_iff_lt (by decide), rounded_le_iff]
      omega
    · have hround : 2 ^ (c + 54) ≤ nearest 0 n := by
        apply le_nearest (fits_two_pow _)
        rwa [pow_zero, mul_one]
      omega

theorem nearest_zero_pos (hn : 0 < n) : 0 < nearest 0 n := by
  apply le_nearest (fits_two_pow 0)
  rw [pow_zero, mul_one]
  exact hn

theorem eq_zero_of_nearest (hzero : nearest 0 n = 0) : n = 0 := by
  by_contra hne
  exact (nearest_zero_pos (Nat.pos_of_ne_zero hne)).ne' hzero

end Machine

end TreeGrowth
