import TreeGrowth.Proofs.Numeric.Units
import TreeGrowth.Proofs.Rewriting.Expansion
import TreeGrowth.Proofs.Rewriting.Places
import TreeGrowth.Random.Pcg64

/-!
# Rules without weight in machine arithmetic

A rule is drawn by a running sum of weights, and the draw is a part of the whole
sum, both of them rounded.  A weight of zero never moves the running sum, so the
loop never ends at a rule without weight.  But the loop may end at no rule: a
draw is rounded up to the whole sum if that sum is so small that the missing
part of `2 ^ 53` is half a unit or less.  Then the last rule stands in, whatever
its weight.
-/

namespace TreeGrowth

/-! ## Unit draws -/

/-- The bits of a word that a unit draw is made of. -/
def Pcg64.upperBits (g : Pcg64) : Nat :=
  (g.word64.1 >>> 11).toNat

theorem Pcg64.upperBits_lt (g : Pcg64) : g.upperBits < 2 ^ 53 := by
  have hword : g.word64.1.toNat < 2 ^ 64 := g.word64.1.isLt
  rw [Pcg64.upperBits, BitVec.toNat_ushiftRight, Nat.shiftRight_eq_div_pow]
  omega

/-- A unit draw is exactly as many parts of `2 ^ 53` as its bits say. -/
theorem Pcg64.hasUnits_unit (g : Pcg64) :
    Machine.HasUnits (RandomSource.unit g).1 (g.upperBits * 2 ^ 1021) := by
  have hwhole := Machine.hasUnits_ofNat g.upperBits_lt
  have hexponent : 1074 = 1021 + 53 := rfl
  rw [hexponent, pow_add, ← mul_assoc] at hwhole
  apply hwhole.div_two_pow
  rcases Nat.eq_zero_or_pos g.upperBits with hzero | hpos
  · left
    rw [hzero, Nat.zero_mul]
  · exact .inr (Machine.two_pow_le_mul hpos (by omega))

/-- A state with the greatest of all unit draws. -/
def Pcg64.greatest : Pcg64 where
  state := 0
  increment := 0xffffffffffffffff
  spare := none

theorem Pcg64.upperBits_greatest : Pcg64.greatest.upperBits = 2 ^ 53 - 1 := by
  decide +kernel

namespace Machine

variable {x y draw sum weight : Float} {n m k : Nat}

/-! ## Sums of shares -/

/-- The number is from zero up to `2 ^ 53`, beyond which shares are lost. -/
def IsSum (x : Float) : Prop :=
  ∃ n ≤ 2 ^ (1074 + 53), HasUnits x n

theorem isSum_zero : IsSum 0.0 :=
  ⟨0, Nat.zero_le _, hasUnits_zero⟩

theorem IsSum.isFinite (hsum : IsSum sum) : Scalar.isFinite sum = true := by
  obtain ⟨n, _, hsum⟩ := hsum
  exact hsum.isFinite

theorem add_lt_two_pow {c n m : Nat} (hn : n ≤ 2 ^ (c + 53)) (hm : m ≤ 2 ^ c) :
    n + m < 2 ^ (c + 54) := by
  have hless : 2 ^ c < 2 ^ (c + 53) :=
    Nat.pow_lt_pow_right (by decide) (by omega)
  have hdouble : 2 ^ (c + 54) = 2 ^ (c + 53) + 2 ^ (c + 53) := by ring
  omega

/-- A share is added without overflow and without loss of order. -/
theorem IsSum.add_share (hsum : IsSum sum) (hweight : IsShare weight) :
    IsSum (sum + weight) ∧ sum ≤ sum + weight ∧ weight ≤ sum + weight := by
  obtain ⟨n, hn, hsum⟩ := hsum
  obtain ⟨m, hm, hweight⟩ := hweight.exists_hasUnits
  have hadd := hsum.add hweight (by omega) (add_lt_two_pow hn hm)
  refine ⟨⟨_, nearest_zero_le_two_pow (Nat.add_le_add hn hm), hadd⟩, ?_, ?_⟩
  · rw [hsum.le_iff hadd]
    exact le_nearest hsum.fits (by omega)
  · rw [hweight.le_iff hadd]
    exact le_nearest hweight.fits (by omega)

/-- A share of zero does not move the sum. -/
theorem IsSum.lt_add_iff (hsum : IsSum sum) (hweight : IsShare weight)
    (hnone : ¬0.0 < weight) (hdraw : HasUnits draw k) :
    draw < sum + weight ↔ draw < sum := by
  obtain ⟨n, hn, hsum⟩ := hsum
  obtain ⟨m, hm, hweight⟩ := hweight.exists_hasUnits
  have hadd := hsum.add hweight (by omega) (add_lt_two_pow hn hm)
  rw [hasUnits_zero.lt_iff hweight, Nat.not_lt, Nat.le_zero] at hnone
  rw [hnone, Nat.add_zero, nearest_zero_of_fits hsum.fits] at hadd
  rw [hdraw.lt_iff hadd, hdraw.lt_iff hsum]

theorem IsSum.lt_of_lt_of_le (hx : IsSum x) (hy : IsSum y)
    (hdraw : HasUnits draw k) (hlt : draw < x) (hle : x ≤ y) : draw < y := by
  obtain ⟨n, _, hx⟩ := hx
  obtain ⟨m, _, hy⟩ := hy
  rw [hdraw.lt_iff hx] at hlt
  rw [hx.le_iff hy] at hle
  exact (hdraw.lt_iff hy).mpr (hlt.trans_le hle)

theorem IsSum.foldl_add {weights : List Float}
    (hweights : ∀ weight ∈ weights, IsShare weight) (hsum : IsSum sum) :
    IsSum (weights.foldl (· + ·) sum) ∧ sum ≤ weights.foldl (· + ·) sum ∧
      ∀ weight ∈ weights, weight ≤ weights.foldl (· + ·) sum := by
  induction weights generalizing sum with
  | nil => exact ⟨hsum, le_self hsum.isFinite, by simp⟩
  | cons weight rest ih =>
      obtain ⟨hweight, hrest⟩ := List.forall_mem_cons.mp hweights
      obtain ⟨hadd, hkept, hreached⟩ := hsum.add_share hweight
      obtain ⟨htotal, hgrown, hall⟩ := ih hrest hadd
      have hbelow : ∀ {z : Float}, Scalar.isFinite z = true →
          z ≤ sum + weight → z ≤ rest.foldl (· + ·) (sum + weight) :=
        fun hz hle =>
          le_of_le_of_le hz hadd.isFinite htotal.isFinite hle hgrown
      rw [List.foldl_cons, List.forall_mem_cons]
      exact ⟨htotal, hbelow hsum.isFinite hkept,
        hbelow hweight.isFinite hreached, hall⟩

end Machine

namespace Choice

open Machine

variable {draw sum : Float} {rules : List (Rule Float)} {k : Nat}

/-! ## The loop over the rules -/

/-- The loop ends at no rule exactly if the draw reaches the last running
sum. -/
theorem reaching?_eq_none_iff
    (hrules : ∀ r ∈ rules, IsShare r.probability) (hsum : IsSum sum)
    (hdraw : HasUnits draw k) (hbefore : ¬draw < sum) :
    reaching? draw sum rules = none ↔
      ¬draw < (rules.map fun r => r.probability).foldl (· + ·) sum := by
  induction rules generalizing sum with
  | nil => exact iff_of_true rfl hbefore
  | cons first rest ih =>
      obtain ⟨hfirst, hrest⟩ := List.forall_mem_cons.mp hrules
      have hadd := (hsum.add_share hfirst).1
      rw [reaching?, List.map_cons, List.foldl_cons]
      by_cases hreached : draw < sum + first.probability
      · have hweights : ∀ weight ∈ rest.map fun r => r.probability,
            IsShare weight := List.forall_mem_map.mpr hrest
        obtain ⟨htotal, hgrown, _⟩ := hadd.foldl_add hweights
        rw [if_pos hreached]
        have hbelow := hadd.lt_of_lt_of_le htotal hdraw hreached hgrown
        exact iff_of_false (by simp) (not_not.mpr hbelow)
      · rw [if_neg hreached]
        exact ih hrest hadd hreached

/-- The loop never ends at a rule without weight. -/
theorem pos_of_reaching? {r : Rule Float}
    (hrules : ∀ r ∈ rules, IsShare r.probability) (hsum : IsSum sum)
    (hdraw : HasUnits draw k) (hbefore : ¬draw < sum)
    (hr : reaching? draw sum rules = some r) : 0.0 < r.probability := by
  induction rules generalizing sum with
  | nil => simp [reaching?] at hr
  | cons first rest ih =>
      obtain ⟨hfirst, hrest⟩ := List.forall_mem_cons.mp hrules
      rw [reaching?] at hr
      split at hr
      next hreached =>
        obtain rfl := Option.some.inj hr
        by_contra hnone
        exact hbefore ((hsum.lt_add_iff hfirst hnone hdraw).mp hreached)
      next hmissed =>
        exact ih hrest (hsum.add_share hfirst).1 hmissed hr

end Choice

/-! ## Draws from a sum -/

namespace Machine

variable {total : Float} {n u : Nat}

/-- The least machine number with a full mantissa, `2 ^ -1022`. -/
def leastNormal : Float := 2.2250738585072014e-308

theorem hasUnits_leastNormal : HasUnits leastNormal (2 ^ 52) := by
  have hbits : leastNormal = ⟨⟨0x0010000000000000, ⟨by decide⟩⟩⟩ := by
    decide +kernel
  have hunits : Units (.finite .positive (2 ^ 52) ((0 : Nat) - 1074)
      (by decide)) (2 ^ 52 * 2 ^ 0) :=
    .finite (by decide) ⟨by decide, by decide, by decide, .inl rfl⟩
  rw [hbits]
  exact hunits

/-- What a draw leaves of a sum. -/
theorem draw_add_rest (n b u : Nat) :
    n * (u * 2 ^ b) + n * 2 ^ b = n * ((u + 1) * 2 ^ b) := by
  ring

/-- A draw from a sum of more than `2 ^ 52` units stays below it. -/
theorem nearest_draw_lt (hn : Fits n) (hlarge : 2 ^ 52 < n) (hu : u < 2 ^ 53) :
    nearest 1074 (n * (u * 2 ^ 1021)) < n := by
  apply nearest_lt hn hlarge
  rw [draw_add_rest, Nat.add_comm 1021 53, pow_add]
  exact Nat.mul_le_mul_left n (Nat.mul_le_mul_right _ hu)

/-- From a smaller sum, the greatest draw is the sum itself. -/
theorem nearest_draw_eq (hsmall : n ≤ 2 ^ 52) :
    nearest 1074 (n * ((2 ^ 53 - 1) * 2 ^ 1021)) = n := by
  apply nearest_eq hsmall
  rw [draw_add_rest, Nat.sub_add_cancel (Nat.two_pow_pos 53),
    Nat.add_comm 1021 53, pow_add]

theorem hasUnits_draw (hn : n ≤ 2 ^ (1074 + 53)) (htotal : HasUnits total n)
    (g : Pcg64) :
    HasUnits (RandomSource.between 0.0 total g).1
      (nearest 1074 (n * (g.upperBits * 2 ^ 1021))) := by
  have hexponent : 1074 = 53 + 1021 := rfl
  have hunit : g.upperBits * 2 ^ 1021 ≤ 2 ^ 1074 := by
    rw [hexponent, pow_add 2 53]
    exact Nat.mul_le_mul_right _ g.upperBits_lt.le
  have hsmall : ∀ {i : Nat}, i ≤ n → i < 2 ^ (1074 + 54) := fun hi =>
    add_lt_two_pow (hi.trans hn) (Nat.zero_le _)
  have hproduct := htotal.sub_zero.mul g.hasUnits_unit (by omega)
    (hsmall le_rfl) hunit
  have hbelow : nearest 1074 (n * (g.upperBits * 2 ^ 1021)) ≤ n :=
    nearest_le htotal.fits (Nat.mul_le_mul_left n hunit)
  have hdraw := hasUnits_zero.add hproduct (by omega)
    (hsmall ((Nat.zero_add _).trans_le hbelow))
  rwa [Nat.zero_add, nearest_zero_of_fits hproduct.fits] at hdraw

/-- All draws from a sum stay below it exactly if it is more than the least
number with a full mantissa. -/
theorem draws_lt_iff (hn : n ≤ 2 ^ (1074 + 53)) (htotal : HasUnits total n) :
    (∀ g : Pcg64, (RandomSource.between 0.0 total g).1 < total) ↔
      leastNormal < total := by
  rw [hasUnits_leastNormal.lt_iff htotal]
  constructor
  · intro hall
    by_contra hsmall
    have hdraw := hasUnits_draw hn htotal Pcg64.greatest
    rw [Pcg64.upperBits_greatest, nearest_draw_eq (Nat.not_lt.mp hsmall)]
      at hdraw
    exact Nat.lt_irrefl n ((hdraw.lt_iff htotal).mp (hall Pcg64.greatest))
  · intro hlarge g
    rw [(hasUnits_draw hn htotal g).lt_iff htotal]
    exact nearest_draw_lt htotal.fits hlarge g.upperBits_lt

end Machine

/-! ## Drawing one of several rules -/

namespace Choice

open Machine

variable {rules : List (Rule Float)}

/-- The weights of several rules, one of them positive, have a positive sum
without overflow. -/
theorem exists_hasUnits_total (hrules : ∀ r ∈ rules, IsShare r.probability)
    (hsome : ∃ r ∈ rules, 0.0 < r.probability) :
    ∃ n, 0 < n ∧ n ≤ 2 ^ (1074 + 53) ∧
      HasUnits (Scalar.total (rules.map fun r => r.probability)) n := by
  obtain ⟨⟨n, hn, htotal⟩, _, hreached⟩ :=
    isSum_zero.foldl_add (List.forall_mem_map.mpr hrules)
  obtain ⟨r, hr, hpositive⟩ := hsome
  obtain ⟨m, _, hm⟩ := (hrules r hr).exists_hasUnits
  have hle := hreached _ (List.mem_map_of_mem hr)
  rw [hasUnits_zero.lt_iff hm] at hpositive
  rw [hm.le_iff htotal] at hle
  exact ⟨n, hpositive.trans_le hle, hn, htotal⟩

/-- A draw below the sum of the weights ends the loop at a rule with weight, and
otherwise the last rule stands in. -/
theorem among_of_draw (hrules : ∀ r ∈ rules, IsShare r.probability)
    (hseveral : 2 ≤ rules.length) (hsome : ∃ r ∈ rules, 0.0 < r.probability)
    (source : Pcg64) :
    let total := Scalar.total (rules.map fun r => r.probability)
    let draw := RandomSource.between 0.0 total source
    let choice := among rules source
    choice.2 = draw.2 ∧
      (draw.1 < total → ∃ r ∈ rules, reaching? draw.1 0.0 rules = some r ∧
        choice.1 = .drawn r ∧ 0.0 < r.probability) ∧
      (¬draw.1 < total → ∃ last, rules.getLast? = some last ∧
        reaching? draw.1 0.0 rules = none ∧ choice.1 = .drawn last) := by
  intro total draw choice
  obtain ⟨n, hpos, hn, htotal⟩ := exists_hasUnits_total hrules hsome
  have hweight : ¬total ≤ 0.0 := by
    rw [htotal.le_iff hasUnits_zero]
    omega
  obtain ⟨last, hlast, hchoice⟩ := exists_last_among_eq source hseveral hweight
  change choice = _ at hchoice
  have hdraw := hasUnits_draw hn htotal source
  have hbefore : ¬draw.1 < 0.0 := by
    rw [hdraw.lt_iff hasUnits_zero]
    exact Nat.not_lt_zero _
  have hnone := reaching?_eq_none_iff hrules isSum_zero hdraw hbefore
  refine ⟨congrArg Prod.snd hchoice, fun hbelow => ?_, fun hreached => ?_⟩
  · obtain ⟨r, hr⟩ := Option.ne_none_iff_exists'.mp
      (fun hmissed => hnone.mp hmissed hbelow)
    refine ⟨r, mem_of_reaching? hr, hr, ?_,
      pos_of_reaching? hrules isSum_zero hdraw hbefore hr⟩
    rw [hchoice, hr, Option.getD_some]
  · have hmissed := hnone.mpr hreached
    refine ⟨last, hlast, hmissed, ?_⟩
    rw [hchoice, hmissed, Option.getD_none]

end Choice

/-- Several eligible rules with shares for weights, at least one of them
positive, are drawn from by a part of the sum of their weights.  A draw below
that sum ends the loop at a rule with weight, and otherwise the last rule stands
in, whatever its weight.  All draws are below the sum exactly if it is greater
than `2 ^ -1022`.  So rules without weight are never drawn if the sum is greater
than that or the last rule has weight, and only then. -/
theorem weightless_rules_silent_iff (candidates : List (Rule Float))
    (left right : Option Word)
    (hshares : ∀ r ∈ candidates, Machine.IsShare r.probability) :
    let eligible := Rule.mostSpecific
      (candidates.filter fun r => r.matchesContext left right)
    let total := Scalar.total (eligible.map fun r => r.probability)
    2 ≤ eligible.length → (∃ r ∈ eligible, 0.0 < r.probability) →
    (∀ source : Pcg64,
      let draw := RandomSource.between 0.0 total source
      let choice := Choice.ofCandidates candidates left right source
      choice.2 = draw.2 ∧
        (draw.1 < total → ∃ r ∈ eligible,
          Choice.reaching? draw.1 0.0 eligible = some r ∧
            choice.1 = .drawn r ∧ 0.0 < r.probability) ∧
        (¬draw.1 < total → ∃ last, eligible.getLast? = some last ∧
          Choice.reaching? draw.1 0.0 eligible = none ∧
            choice.1 = .drawn last)) ∧
    ((∀ source : Pcg64, (RandomSource.between 0.0 total source).1 < total) ↔
      Machine.leastNormal < total) ∧
    ((∀ source : Pcg64, ∃ r,
        (Choice.ofCandidates candidates left right source).1 = .drawn r ∧
          0.0 < r.probability) ↔
      Machine.leastNormal < total ∨
        ∃ last, eligible.getLast? = some last ∧ 0.0 < last.probability) := by
  intro eligible total hseveral hsome
  have hchoice : ∀ source : Pcg64,
      Choice.ofCandidates candidates left right source =
        Choice.among eligible source := fun source =>
    congrArg (Choice.among · source)
      (Choice.eligible_eq_mostSpecific candidates left right)
  have heligible : ∀ r ∈ eligible, Machine.IsShare r.probability :=
    fun r hr =>
      hshares r (List.mem_of_mem_filter (List.mem_of_mem_filter hr))
  have hamong := Choice.among_of_draw heligible hseveral hsome
  obtain ⟨n, _, hn, htotal⟩ := Choice.exists_hasUnits_total heligible hsome
  have hdraws := Machine.draws_lt_iff hn htotal
  simp only [hchoice]
  refine ⟨hamong, hdraws, ?_, ?_⟩
  · intro hsilent
    by_contra hneither
    obtain ⟨hsmall, hlast⟩ := not_or.mp hneither
    obtain ⟨source, hreached⟩ := not_forall.mp (mt hdraws.mp hsmall)
    obtain ⟨last, hlast', _, hstands⟩ := (hamong source).2.2 hreached
    obtain ⟨r, hdrawn, hpositive⟩ := hsilent source
    rw [hstands, Choice.drawn.injEq] at hdrawn
    exact hlast ⟨last, hlast', hdrawn ▸ hpositive⟩
  · intro henough source
    obtain ⟨_, hbelow, habove⟩ := hamong source
    by_cases hdraw : (RandomSource.between 0.0 total source).1 < total
    · obtain ⟨r, _, _, hdrawn, hpositive⟩ := hbelow hdraw
      exact ⟨r, hdrawn, hpositive⟩
    · obtain ⟨last, hlast, _, hdrawn⟩ := habove hdraw
      rcases henough with hlarge | ⟨last', hlast', hpositive⟩
      · exact absurd (hdraws.mpr hlarge source) hdraw
      · obtain rfl := Option.some.inj (hlast.symm.trans hlast')
        exact ⟨last, hdrawn, hpositive⟩

/-- A rule for a symbol `A` into one symbol. -/
def Rule.intoSample (successor : Char) (weight : Float) : Rule Float :=
  ⟨[], ['A'], [], [successor], weight⟩

theorem weightless_rules_silent_iff_sample :
    let candidates :=
      [Rule.intoSample 'B' 1e-300, Rule.intoSample 'C' 0.0]
    (∀ r ∈ candidates, Machine.IsShare r.probability) ∧
      ∀ source : Pcg64, ∃ r,
        (Choice.ofCandidates candidates none none source).1 = .drawn r ∧
          0.0 < r.probability := by
  intro candidates
  have hshares : ∀ r ∈ candidates, Machine.IsShare r.probability := by
    decide +kernel
  have heligible : Rule.mostSpecific (candidates.filter fun r =>
      r.matchesContext none none) = candidates := rfl
  have hiff := weightless_rules_silent_iff candidates none none hshares
  simp only [heligible] at hiff
  obtain ⟨_, _, hsilent⟩ := hiff (by decide)
    ⟨_, List.mem_cons_self, by decide +kernel⟩
  exact ⟨hshares, hsilent.mpr (.inl (by decide +kernel))⟩

/-- The least positive weight does not keep a rule without weight silent. -/
theorem not_every_weightless_rule_silent :
    ¬∀ (candidates : List (Rule Float)) (source : Pcg64),
      (∀ r ∈ candidates, Machine.IsShare r.probability) →
      2 ≤ (Choice.eligible candidates none none).length →
      (∃ r ∈ Choice.eligible candidates none none, 0.0 < r.probability) →
        ∃ r, (Choice.ofCandidates candidates none none source).1 = .drawn r ∧
          0.0 < r.probability := by
  intro hsilent
  let candidates := [Rule.intoSample 'B' 5e-324, Rule.intoSample 'C' 0.0]
  have hshares : ∀ r ∈ candidates, Machine.IsShare r.probability := by
    decide +kernel
  have heligible : Choice.eligible candidates none none = candidates := rfl
  obtain ⟨r, hdrawn, hpositive⟩ := hsilent candidates (Pcg64.ofEntropy 1)
    hshares (by decide)
    (heligible ▸ ⟨_, List.mem_cons_self, by decide +kernel⟩)
  have hweightless : ((Choice.ofCandidates candidates none none
      (Pcg64.ofEntropy 1)).1.rule?.all fun r => !decide (0.0 < r.probability)) =
        true := by
    decide +kernel
  rw [hdrawn] at hweightless
  simp [Choice.rule?, hpositive] at hweightless

end TreeGrowth
