import TreeGrowth.Proofs.Engine.Reachable
import TreeGrowth.Proofs.Growth.Length
import TreeGrowth.Proofs.Numeric.Power
import TreeGrowth.Proofs.Rewriting.Weightless
import TreeGrowth.Proofs.RuleText.Spelling

/-!
# Estimated lengths

The length of a word after some passes is estimated by a power of the growth
factor, and lowered to the greatest length only after that.
-/

namespace TreeGrowth

/-! ## The growth factor is finite -/

namespace Machine

variable {c : Nat} {x y sum : Float} {xs : List Float}

/-- A sum from left to right stays within `2 ^ 53` times a bound of what is
added. -/
theorem exists_hasUnits_foldl (hc : c ≤ 2000)
    (hxs : ∀ x ∈ xs, ∃ n ≤ 2 ^ c, HasUnits x n)
    (hsum : ∃ n ≤ 2 ^ (c + 53), HasUnits sum n) :
    ∃ n ≤ 2 ^ (c + 53), HasUnits (xs.foldl (· + ·) sum) n := by
  induction xs generalizing sum with
  | nil => exact hsum
  | cons x rest ih =>
      obtain ⟨⟨m, hm, hx⟩, hrest⟩ := List.forall_mem_cons.mp hxs
      obtain ⟨n, hn, hsum⟩ := hsum
      have hadd := hsum.add hx (by omega) (add_lt_two_pow hn hm)
      exact ih hrest
        ⟨_, nearest_zero_le_two_pow (Nat.add_le_add hn hm), hadd⟩

theorem exists_hasUnits_total (hc : c ≤ 2000)
    (hxs : ∀ x ∈ xs, ∃ n ≤ 2 ^ c, HasUnits x n) :
    ∃ n ≤ 2 ^ (c + 53), HasUnits (Scalar.total xs) n :=
  exists_hasUnits_foldl hc hxs ⟨0, Nat.zero_le _, hasUnits_zero⟩

/-- The length of a word in memory. -/
theorem hasUnits_length {n : Nat} (hn : n < 2 ^ 63) :
    nearest 0 n ≤ 2 ^ 63 ∧ HasUnits (Float.ofNat n) (nearest 0 n * 2 ^ 1074) := by
  have hbound : nearest 0 n ≤ 2 ^ 63 := by
    apply nearest_le (fits_two_pow 63)
    omega
  have hsmall : nearest 0 n * 2 ^ 1074 ≤ 2 ^ (63 + 1074) := by
    rw [pow_add]
    exact Nat.mul_le_mul_right _ hbound
  exact ⟨hbound,
    (hasExtent_ofNat n).hasUnits (lt_tooMany_of_le hsmall (by omega))⟩

/-- A length times a share that is no greater than a bound. -/
theorem exists_hasUnits_length_mul {n d : Nat} (hn : n < 2 ^ 63)
    (hx : IsShare x) (hy : HasUnits y d) (hle : x ≤ y) :
    ∃ m ≤ 2 ^ (d.log2 + 64), HasUnits (Float.ofNat n * x) m := by
  obtain ⟨hbound, hlength⟩ := hasUnits_length hn
  obtain ⟨p, hp, hx⟩ := hx.exists_hasUnits
  have hpd : p ≤ 2 ^ (d.log2 + 1) :=
    ((hx.le_iff hy).mp hle).trans Nat.lt_log2_self.le
  have hsmall : nearest 0 n * 2 ^ 1074 < 2 ^ (64 + 1074) := by
    rw [pow_add]
    exact Nat.mul_lt_mul_of_pos_right (by omega) (by positivity)
  refine ⟨_, nearest_le (fits_two_pow _) ?_,
    hlength.mul hx (by omega) hsmall hp⟩
  have hexponent : d.log2 + 64 = 63 + (d.log2 + 1) := by omega
  calc nearest 0 n * 2 ^ 1074 * p ≤ 2 ^ 63 * 2 ^ 1074 * 2 ^ (d.log2 + 1) := by
        gcongr
    _ = 2 ^ (d.log2 + 64) * 2 ^ 1074 := by
        rw [hexponent, pow_add 2 63, mul_right_comm]

end Machine

namespace Rule

open Machine

/-- The mean length of successors in memory is finite, however small the weights
are. -/
theorem isFinite_growthFactor {rules : List (Rule Float)}
    (hshares : ∀ r ∈ rules, IsShare r.probability)
    (hlengths : ∀ r ∈ rules, r.successor.length < 2 ^ 63) :
    Scalar.isFinite (growthFactor rules) = true := by
  obtain ⟨⟨d, hd, hweight⟩, _, hreached⟩ :=
    isSum_zero.foldl_add (List.forall_mem_map.mpr hshares)
  unfold growthFactor
  simp only
  split
  next => exact isFinite_one
  next hsome =>
    have hpos : 0 < d := by
      by_contra hzero
      have hnone := (hweight.le_iff hasUnits_zero).mpr (Nat.not_lt.mp hzero)
      exact hsome (Bool.or_eq_true_iff.mpr (.inr (decide_eq_true hnone)))
    have hlow : 2 ^ d.log2 ≤ d := Nat.log2_self_le hpos.ne'
    have hlog : d.log2 ≤ 1074 + 53 :=
      (pow_le_pow_iff_right₀ (by decide)).mp (hlow.trans hd)
    have hproducts : ∀ x ∈ rules.map fun r =>
        (r.successor.length : Float) * r.probability,
        ∃ n ≤ 2 ^ (d.log2 + 64), HasUnits x n := by
      rw [List.forall_mem_map]
      intro r hr
      exact exists_hasUnits_length_mul (hlengths r hr) (hshares r hr) hweight
        (hreached _ (List.mem_map_of_mem hr))
    obtain ⟨s, hs, htotal⟩ := exists_hasUnits_total (by omega) hproducts
    have hle : s ≤ 2 ^ 117 * d := by
      have hexponent : d.log2 + 64 + 53 = 117 + d.log2 := by omega
      rw [hexponent, pow_add] at hs
      exact hs.trans (Nat.mul_le_mul_left _ hlow)
    exact htotal.isFinite_div hweight hpos (by omega) hle

end Rule

/-! ## Estimates case by case -/

namespace Engine

open Machine

variable {G : Type} {power : Float → Float → Float} {e : Engine G}

/-- What is taken for the growth in one pass. -/
def growth (e : Engine G) : Float :=
  Scalar.atLeast 1.0 (Rule.growthFactor e.rules)

/-- The estimate for a start word of so many symbols and a power of so many
units. -/
def estimateOfUnits (length p : Nat) : Nat :=
  min (GrowthSettings.longest * 2 ^ 1074)
    (nearest 1074 (nearest 0 length * 2 ^ 1074 * p)) / 2 ^ 1074

theorem estimateOfUnits_mono (length : Nat) {p p' : Nat} (hle : p ≤ p') :
    estimateOfUnits length p ≤ estimateOfUnits length p' := by
  apply Nat.div_le_div_right
  exact min_le_min_left _ (nearest_mono _ (Nat.mul_le_mul_left _ hle))

theorem estimateOfUnits_le (length p : Nat) :
    estimateOfUnits length p ≤ GrowthSettings.longest := by
  apply Nat.div_le_of_le_mul
  rw [Nat.mul_comm]
  exact min_le_left _ _

theorem estimateOfUnits_pos {length p : Nat} (hlength : 0 < length)
    (hp : 2 ^ 1074 ≤ p) : 0 < estimateOfUnits length p := by
  have hone := nearest_zero_pos hlength
  rw [estimateOfUnits]
  refine Nat.div_pos (le_min ?_ ?_) (by positivity)
  · exact Nat.le_mul_of_pos_left _ (by decide)
  · apply le_nearest (fits_two_pow 1074)
    exact Nat.mul_le_mul (Nat.le_mul_of_pos_left _ hone) hp

theorem toNat_toUInt64_eq {x : Float} {length p : Nat}
    (hlength : length < 2 ^ 63) (hx : HasUnits x p) :
    (Scalar.atMost (Float.ofNat GrowthSettings.longest)
        (Float.ofNat length * x)).toUInt64.toNat =
      estimateOfUnits length p := by
  have hlongest : HasUnits (Float.ofNat GrowthSettings.longest)
      (GrowthSettings.longest * 2 ^ 1074) := hasUnits_ofNat (by decide)
  have hlowered :=
    ((hasUnits_length hlength).2.extent_mul hx).atMost hlongest
  apply hlowered.toNat_toUInt64
  apply (min_le_left _ _).trans_lt
  exact Nat.mul_lt_mul_of_pos_right (by decide) (by positivity)

/-- An engine with a start word and rules, none of them longer than words in
memory are. -/
structure InMemory (e : Engine G) : Prop where
  start_ne : e.start ≠ []
  rules_ne : e.rules ≠ []
  start_lt : e.start.length < 2 ^ 63
  shares : ∀ r ∈ e.rules, IsShare r.probability
  lengths : ∀ r ∈ e.rules, r.successor.length < 2 ^ 63

variable (he : e.InMemory)
include he

theorem InMemory.isFinite_growth : Scalar.isFinite e.growth = true :=
  isFinite_atLeast isFinite_one
    (Rule.isFinite_growthFactor he.shares he.lengths)

theorem InMemory.one_le_growth : 1.0 ≤ e.growth :=
  le_atLeast isFinite_one (Rule.isFinite_growthFactor he.shares he.lengths)

theorem InMemory.exists_hasUnits_growth :
    ∃ g, HasUnits e.growth g ∧ 1 ≤ value g := by
  have hnonneg : (0.0 : Float) ≤ e.growth :=
    le_of_le_of_le isFinite_zero isFinite_one he.isFinite_growth
      (by decide +kernel) he.one_le_growth
  obtain ⟨g, hg⟩ := exists_hasUnits he.isFinite_growth hnonneg
  exact ⟨g, hg, hg.one_le_iff.mp he.one_le_growth⟩

theorem InMemory.estimateLengthBy_eq (power : Float → Float → Float)
    (passes : Int) :
    let exponent := Float.ofNat passes.toNat
    e.estimateLengthBy power passes =
      if Scalar.isFinite exponent = false then .error .hugeExponent
      else if Scalar.isFinite (power e.growth exponent) = false then
        .error .hugePower
      else
        .ok (Scalar.atMost (Float.ofNat GrowthSettings.longest)
          (Float.ofNat e.start.length *
            power e.growth exponent)).toUInt64.toNat := by
  intro exponent
  have hsome : (e.start.isEmpty || e.rules.isEmpty) = false := by
    simp [he.start_ne, he.rules_ne]
  have hgrowth : (Scalar.atLeast 1.0
      (Rule.growthFactor e.rules)).isFinite = true := he.isFinite_growth
  unfold estimateLengthBy
  simp only [hsome, hgrowth, Bool.true_and, Bool.not_eq_true',
    Bool.false_eq_true, if_false]
  rfl

theorem InMemory.estimateLengthBy_cases (hpower : FaithfulPower power)
    (passes : Int) :
    (2 ^ 1024 ≤ passes.toNat + 2 ^ 970 ∧
        e.estimateLengthBy power passes = .error .hugeExponent) ∨
      passes.toNat + 2 ^ 970 < 2 ^ 1024 ∧
        HasUnits (Float.ofNat passes.toNat)
          (nearest 0 passes.toNat * 2 ^ 1074) ∧
        ((Scalar.isFinite (power e.growth (Float.ofNat passes.toNat)) =
              false ∧
            e.estimateLengthBy power passes = .error .hugePower) ∨
          ∃ p, HasUnits (power e.growth (Float.ofNat passes.toNat)) p ∧
            2 ^ 1074 ≤ p ∧
            e.estimateLengthBy power passes =
              .ok (estimateOfUnits e.start.length p)) := by
  have hestimate := he.estimateLengthBy_eq power passes
  obtain ⟨g, hg, _⟩ := he.exists_hasUnits_growth
  simp only at hestimate
  rcases Nat.lt_or_ge (passes.toNat + 2 ^ 970) (2 ^ 1024) with
    hsmall | hlarge
  · have hfinite := (isFinite_ofNat_iff _).mpr hsmall
    have hextent := hasExtent_ofNat passes.toNat
    have hexponent := hextent.hasUnits (hextent.isFinite_iff.mp hfinite)
    refine .inr ⟨hsmall, hexponent, ?_⟩
    rw [hfinite, if_neg (by decide)] at hestimate
    cases hresult :
        Scalar.isFinite (power e.growth (Float.ofNat passes.toNat)) with
    | false =>
        rw [hresult, if_pos rfl] at hestimate
        exact .inl ⟨rfl, hestimate⟩
    | true =>
        obtain ⟨p, hp, hle⟩ := hpower.exists_hasUnits hg he.one_le_growth
          hexponent hresult
        rw [hresult, if_neg (by decide),
          toNat_toUInt64_eq he.start_lt hp] at hestimate
        exact .inr ⟨p, hp, hle, hestimate⟩
  · have hinfinite : Scalar.isFinite (Float.ofNat passes.toNat) = false := by
      rw [← Bool.not_eq_true, isFinite_ofNat_iff]
      omega
    rw [hinfinite, if_pos rfl] at hestimate
    exact .inl ⟨hlarge, hestimate⟩

variable (hpower : FaithfulPower power)
include hpower

theorem InMemory.estimate_bounds {passes : Int} {n : Nat}
    (hestimate : e.estimateLengthBy power passes = .ok n) :
    0 < n ∧ n ≤ GrowthSettings.longest := by
  have hlength : 0 < e.start.length := List.length_pos_iff.mpr he.start_ne
  rcases he.estimateLengthBy_cases hpower passes with
    ⟨_, hraised⟩ | ⟨_, _, ⟨_, hraised⟩ | ⟨p, _, hp, hok⟩⟩
  · simp [hraised] at hestimate
  · simp [hraised] at hestimate
  · obtain rfl := Except.ok.inj (hok.symm.trans hestimate)
    exact ⟨estimateOfUnits_pos hlength hp, estimateOfUnits_le _ _⟩

/-- Fewer passes raise nothing that more passes do not, and are estimated no
longer. -/
theorem InMemory.estimate_mono {passes passes' : Int} {n' : Nat}
    (hle : passes ≤ passes')
    (hestimate : e.estimateLengthBy power passes' = .ok n') :
    ∃ n ≤ n', e.estimateLengthBy power passes = .ok n := by
  obtain ⟨g, hg, _⟩ := he.exists_hasUnits_growth
  have hcount : passes.toNat ≤ passes'.toNat := Int.toNat_le_toNat hle
  rcases he.estimateLengthBy_cases hpower passes' with
    ⟨_, hraised⟩ | ⟨hsmall', hexponent', ⟨_, hraised⟩ | ⟨p', hp', _, hok'⟩⟩
  · simp [hraised] at hestimate
  · simp [hraised] at hestimate
  · obtain rfl := Except.ok.inj (hok'.symm.trans hestimate)
    obtain ⟨hfinite, hgrows⟩ := hpower.ofNat_mono hg he.one_le_growth hcount
      hexponent'.isFinite hp'.isFinite
    rcases he.estimateLengthBy_cases hpower passes with
      ⟨hlarge, _⟩ | ⟨_, _, ⟨hinfinite, _⟩ | ⟨p, hp, _, hok⟩⟩
    · omega
    · simp [hfinite] at hinfinite
    · exact ⟨_, estimateOfUnits_mono _ ((hp.le_iff hp').mp hgrows), hok⟩

theorem InMemory.hugeExponent_iff (passes : Int) :
    e.estimateLengthBy power passes = .error .hugeExponent ↔
      2 ^ 1024 ≤ passes.toNat + 2 ^ 970 := by
  rcases he.estimateLengthBy_cases hpower passes with
    ⟨hlarge, hraised⟩ | ⟨hsmall, _, ⟨_, hraised⟩ | ⟨p, _, _, hok⟩⟩
  · exact iff_of_true hraised hlarge
  · exact iff_of_false (by simp [hraised]) (by omega)
  · exact iff_of_false (by simp [hok]) (by omega)

theorem InMemory.hugePower_of_le {g : Nat} (hg : HasUnits e.growth g)
    {passes : Int} (hsmall : passes.toNat + 2 ^ 970 < 2 ^ 1024)
    (hlarge : 2 ^ 1024 ≤ value g ^ nearest 0 passes.toNat) :
    e.estimateLengthBy power passes = .error .hugePower := by
  rcases he.estimateLengthBy_cases hpower passes with
    ⟨hhuge, _⟩ | ⟨_, hexponent, ⟨_, hraised⟩ | ⟨p, hp, _, _⟩⟩
  · omega
  · exact hraised
  · have hinfinite := hpower.infinite hg he.one_le_growth hexponent hlarge
    simp [hp.isFinite] at hinfinite

theorem InMemory.exists_estimate_of_le {g : Nat} (hg : HasUnits e.growth g)
    {passes : Int} (hsmall : passes.toNat + 2 ^ 970 < 2 ^ 1024)
    (hbelow : value g ^ nearest 0 passes.toNat ≤ (2 ^ 53 - 1) * 2 ^ 971) :
    ∃ n, e.estimateLengthBy power passes = .ok n := by
  rcases he.estimateLengthBy_cases hpower passes with
    ⟨hhuge, _⟩ | ⟨_, hexponent, ⟨hinfinite, _⟩ | ⟨p, _, _, hok⟩⟩
  · omega
  · have hfinite := hpower.isFinite_of_le hg he.one_le_growth hexponent hbelow
    simp [hfinite] at hinfinite
  · exact ⟨_, hok⟩

theorem InMemory.hugePower_never_iff :
    (∀ passes, e.estimateLengthBy power passes ≠ .error .hugePower) ↔
      e.growth ≤ 1.0 := by
  obtain ⟨g, hg, hone⟩ := he.exists_hasUnits_growth
  constructor
  · intro hnever
    by_contra habove
    have hmore : 1 < value g := by
      rw [hg.le_iff hasUnits_one, Nat.not_le, ← value_lt_iff, value_one]
        at habove
      exact habove
    have hcount : (2 ^ 62 : Int).toNat = 2 ^ 62 := rfl
    apply hnever (2 ^ 62)
    apply he.hugePower_of_le hpower hg
    · rw [hcount]
      decide +kernel
    · rw [hcount, nearest_zero_of_fits (fits_two_pow 62)]
      exact two_pow_le_value_pow hg.fits hmore
  · intro hle passes hestimate
    rcases he.estimateLengthBy_cases hpower passes with
      ⟨_, hraised⟩ | ⟨_, hexponent, ⟨hinfinite, _⟩ | ⟨p, _, _, hok⟩⟩
    · simp [hraised] at hestimate
    · have hfinite := hpower.isFinite_of_le_one hg he.one_le_growth hle
        hexponent
      simp [hfinite] at hinfinite
    · simp [hok] at hestimate

omit he hpower

theorem Reachable.isShare_of_mem [SeededSource G Float]
    (hreach : e.Reachable)
    (hmade : ∀ r ∈ e.rules, ∃ p, r.probability = Rule.boundedProbability p) :
    ∀ r ∈ e.rules, IsShare r.probability := by
  intro r hr
  have hfault : r.fault? = none :=
    Option.isNone_iff_eq_none.mp (hreach.isValid_of_mem r hr)
  obtain ⟨_, _, _, _, hfinite⟩ := Rule.fault?_eq_none_iff.mp hfault
  obtain ⟨p, hp⟩ := hmade r hr
  rw [hp] at hfinite ⊢
  exact Rule.isShare_boundedProbability
    (Rule.isFinite_of_boundedProbability hfinite)

end Engine

/-- The rules of an engine that operations lead to have weights that were
brought into their bounds, and its words are in memory.  Then the estimate is
zero without a start word or rules, and otherwise, if there is one, from one up
to the greatest length.  It grows with the number of passes; but a number of
passes that is too great for a machine number is refused, and so is a power of
the growth factor that is too great for one, although it would be lowered.  This
happens sooner or later unless the factor is one. -/
theorem estimate_bounded_until_overflow {G : Type} [SeededSource G Float]
    {power : Float → Float → Float} (hpower : Machine.FaithfulPower power)
    {e : Engine G} (hreach : e.Reachable)
    (hmade : ∀ r ∈ e.rules, ∃ p, r.probability = Rule.boundedProbability p)
    (hlengths : ∀ word ∈ e.start :: e.rules.map fun r => r.successor,
      word.length < 2 ^ 63) :
    let estimate := fun passes => e.estimateLengthBy power passes
    (e.start = [] ∨ e.rules = [] → ∀ passes, estimate passes = .ok 0) ∧
    (e.start ≠ [] → e.rules ≠ [] →
      (∀ passes n, estimate passes = .ok n → 0 < n ∧ n ≤ 10000000) ∧
      (∀ passes passes' n', passes ≤ passes' → estimate passes' = .ok n' →
        ∃ n ≤ n', estimate passes = .ok n) ∧
      (∀ passes, estimate passes = .error .hugeExponent ↔
        2 ^ 1024 ≤ passes.toNat + 2 ^ 970) ∧
      (∃ g, Machine.HasUnits e.growth g ∧ 1 ≤ Machine.value g ∧
        ∀ passes : Int, passes.toNat + 2 ^ 970 < 2 ^ 1024 →
          let exact := Machine.value g ^ Machine.nearest 0 passes.toNat
          (2 ^ 1024 ≤ exact → estimate passes = .error .hugePower) ∧
          (exact ≤ (2 ^ 53 - 1) * 2 ^ 971 → ∃ n, estimate passes = .ok n)) ∧
      ((∀ passes, estimate passes ≠ .error .hugePower) ↔
        e.growth ≤ 1.0)) := by
  intro estimate
  constructor
  · intro hempty passes
    have hnone : (e.start.isEmpty || e.rules.isEmpty) = true := by
      simpa using hempty
    exact if_pos hnone
  · intro hstart hrules
    obtain ⟨hlength, hsuccessors⟩ := List.forall_mem_cons.mp hlengths
    have he : e.InMemory :=
      { start_ne := hstart
        rules_ne := hrules
        start_lt := hlength
        shares := hreach.isShare_of_mem hmade
        lengths := List.forall_mem_map.mp hsuccessors }
    obtain ⟨g, hg, hone⟩ := he.exists_hasUnits_growth
    exact ⟨fun _ _ => he.estimate_bounds hpower,
      fun _ _ _ => he.estimate_mono hpower, he.hugeExponent_iff hpower,
      ⟨g, hg, hone, fun _ hsmall => ⟨he.hugePower_of_le hpower hg hsmall,
        he.exists_estimate_of_le hpower hg hsmall⟩⟩,
      he.hugePower_never_iff hpower⟩

theorem estimate_bounded_until_overflow_sample :
    let e := Engine.budding
    let estimate := fun passes =>
      e.estimateLengthBy Machine.nearestPower passes
    Machine.FaithfulPower Machine.nearestPower ∧ e.Reachable ∧
      (∀ r ∈ e.rules, ∃ p, r.probability = Rule.boundedProbability p) ∧
      (∀ word ∈ e.start :: e.rules.map fun r => r.successor,
        word.length < 2 ^ 63) ∧
      e.start ≠ [] ∧ e.rules ≠ [] ∧
      (∃ n, estimate 0 = .ok n ∧ 0 < n ∧ n ≤ 10000000) ∧
      estimate (2 ^ 1024) = .error .hugeExponent ∧
      ∃ passes, estimate passes = .error .hugePower := by
  intro e estimate
  have hrules : e.rules = [.ofWords [] ['A'] [] ['A', 'B'] 1.0,
      .ofWords [] ['B'] [] ['A'] 1.0] := by
    rfl
  have hmade : ∀ r ∈ e.rules,
      ∃ p, r.probability = Rule.boundedProbability p := by
    rw [hrules]
    simp only [List.forall_mem_cons, List.not_mem_nil, IsEmpty.forall_iff,
      implies_true, and_true]
    exact ⟨⟨1.0, rfl⟩, ⟨1.0, rfl⟩⟩
  have hlengths : ∀ word ∈ e.start :: e.rules.map fun r => r.successor,
      word.length < 2 ^ 63 := by
    rw [hrules]
    decide
  have hstart : e.start ≠ [] := List.cons_ne_nil _ _
  have hsome : e.rules ≠ [] := hrules ▸ List.cons_ne_nil _ _
  obtain ⟨hbounds, _, hexponent, ⟨g, _, _, hexact⟩, hnever⟩ :=
    (estimate_bounded_until_overflow Machine.faithfulPower_nearestPower
      Engine.reachable_budding hmade hlengths).2 hstart hsome
  have hgrows : ¬e.growth ≤ 1.0 := by decide +kernel
  refine ⟨Machine.faithfulPower_nearestPower, Engine.reachable_budding, hmade,
    hlengths, hstart, hsome, ?_, ?_, ?_⟩
  · have hone : (1 : ℚ) ≤ (2 ^ 53 - 1) * 2 ^ 971 :=
      one_le_mul_of_one_le_of_one_le (by norm_num) (one_le_pow₀ one_le_two)
    have hpower : Machine.value g ^ Machine.nearest 0 (0 : Int).toNat ≤
        (2 ^ 53 - 1) * 2 ^ 971 := by
      rwa [Int.toNat_zero, Machine.nearest_zero_zero, pow_zero]
    obtain ⟨n, hn⟩ := (hexact 0 (by decide +kernel)).2 hpower
    exact ⟨n, hn, hbounds 0 n hn⟩
  · exact (hexponent (2 ^ 1024)).mpr (by decide +kernel)
  · rw [← hnever] at hgrows
    exact not_forall_not.mp hgrows

/-- A number of passes may be too great for a machine number. -/
theorem not_every_estimate_saturates :
    ¬∀ (e : Engine Pcg64) (passes : Int), e.Reachable →
      ∃ n, e.estimateLength passes = .ok n := by
  intro hall
  obtain ⟨n, hn⟩ := hall .budding (2 ^ 1024) Engine.reachable_budding
  have hraised : Engine.budding.estimateLength (2 ^ 1024) =
      .error .hugeExponent := by
    decide +kernel
  exact nomatch hraised.symm.trans hn

end TreeGrowth
