import TreeGrowth.Proofs.Rewriting.Scaling

/-!
# Rules are drawn in proportion to their weights

To draw a rule, the weights of the eligible rules are added up in their order
until the sum exceeds a number drawn below the sum of all of them.  Laid end to
end, the weights cut the range of that number into portions, one for each
place, and the rule that is drawn stands at the place whose portion holds the
number.  In exact arithmetic there always is such a place, so no rule ever has
to stand in.
-/

namespace TreeGrowth

variable {G : Type}

namespace Choice

/-! ## Portions of the sum of the weights -/

/-- What the weight at a place takes up when the weights are laid end to end,
starting from zero. -/
def portion (weights : List ℚ) (i : Nat) : Set ℚ :=
  Set.Ico (weights.take i).sum (weights.take (i + 1)).sum

theorem reachingPlace?_eq_some_iff {draw sum : ℚ} {weights : List ℚ}
    (hweights : ∀ weight ∈ weights, 0 ≤ weight) (hsum : sum ≤ draw) (i : Nat) :
    reachingPlace? draw sum weights = some i ↔
      sum + (weights.take i).sum ≤ draw ∧
        draw < sum + (weights.take (i + 1)).sum := by
  induction weights generalizing sum i with
  | nil =>
      simp only [reachingPlace?, List.take_nil, List.sum_nil, add_zero,
        reduceCtorEq, false_iff, not_and, not_lt]
      exact id
  | cons weight rest ih =>
      have hrest : ∀ weight ∈ rest, 0 ≤ weight :=
        fun weight hweight => hweights weight (List.mem_cons_of_mem _ hweight)
      rw [reachingPlace?]
      by_cases hreached : draw < sum + weight
      · rw [if_pos hreached]
        cases i with
        | zero => simp [hsum, hreached]
        | succ i =>
            -- The places behind the first one begin beyond the draw.
            have hbehind : 0 ≤ (rest.take i).sum :=
              List.sum_nonneg fun weight hweight =>
                hrest weight (List.mem_of_mem_take hweight)
            have hbeyond : ¬sum + (weight + (rest.take i).sum) ≤ draw := by
              linarith
            simp [hbeyond]
      · rw [if_neg hreached]
        cases i with
        | zero => simp [hreached]
        | succ i =>
            have hplaces := ih hrest (not_lt.mp hreached) i
            rw [List.take_succ_cons, List.take_succ_cons, List.sum_cons,
              List.sum_cons, ← add_assoc, ← add_assoc, ← hplaces]
            simp

theorem reachingPlace?_zero_iff {draw : ℚ} {weights : List ℚ}
    (hweights : ∀ weight ∈ weights, 0 ≤ weight) (hdraw : 0 ≤ draw) (i : Nat) :
    reachingPlace? draw 0 weights = some i ↔ draw ∈ portion weights i := by
  have hplaces := reachingPlace?_eq_some_iff hweights hdraw i
  rwa [zero_add, zero_add] at hplaces

theorem exists_reachingPlace? {draw sum : ℚ} {weights : List ℚ}
    (hsum : sum ≤ draw) (hdraw : draw < sum + weights.sum) :
    ∃ i, reachingPlace? draw sum weights = some i := by
  induction weights generalizing sum with
  | nil =>
      rw [List.sum_nil, add_zero] at hdraw
      exact absurd hdraw (not_lt.mpr hsum)
  | cons weight rest ih =>
      rw [reachingPlace?]
      by_cases hreached : draw < sum + weight
      · exact ⟨0, if_pos hreached⟩
      · rw [List.sum_cons, ← add_assoc] at hdraw
        obtain ⟨i, hi⟩ := ih (not_lt.mp hreached) hdraw
        rw [if_neg hreached, hi]
        exact ⟨i + 1, rfl⟩

/-- The unit draws for a place form an interval whose length is the share of
its weight. -/
theorem mul_sum_mem_portion_iff {weights : List ℚ} {i : Nat} {weight u : ℚ}
    (hweight : weights[i]? = some weight) (hsum : 0 < weights.sum) :
    u * weights.sum ∈ portion weights i ↔
      u ∈ Set.Ico ((weights.take i).sum / weights.sum)
        ((weights.take i).sum / weights.sum + weight / weights.sum) := by
  obtain ⟨hi, rfl⟩ := List.getElem?_eq_some_iff.mp hweight
  rw [portion, Set.mem_Ico, Set.mem_Ico, ← add_div, div_le_iff₀ hsum,
    lt_div_iff₀ hsum, List.sum_take_succ weights i hi]

theorem pos_of_mem_portion {weights : List ℚ} {i : Nat} {weight draw : ℚ}
    (hweight : weights[i]? = some weight)
    (hdraw : draw ∈ portion weights i) : 0 < weight := by
  obtain ⟨hi, rfl⟩ := List.getElem?_eq_some_iff.mp hweight
  rw [portion, List.sum_take_succ weights i hi] at hdraw
  exact (lt_add_iff_pos_right _).mp (hdraw.1.trans_lt hdraw.2)

/-! ## Drawing one of several rules -/

variable [RandomSource G ℚ]

theorem between_zero_eq (high : ℚ) (source : G) :
    RandomSource.between 0 high source =
      ((RandomSource.unit source).1 * high, (RandomSource.unit source).2) := by
  have hstretched : ∀ u : ℚ, 0 + (high - 0) * u = u * high := by
    intro u
    ring
  exact Prod.ext (hstretched _) rfl

/-- With a positive sum of weights, one unit draw decides among several rules,
and one of them would stand in if the loop found none. -/
theorem exists_among_eq_getD {rules : List (Rule ℚ)} (source : G)
    (hseveral : 2 ≤ rules.length)
    (hsum : 0 < (rules.map fun r => r.probability).sum) :
    ∃ last, among rules source =
      (.drawn ((reaching? ((RandomSource.unit source).1 *
          (rules.map fun r => r.probability).sum) 0 rules).getD last),
        (RandomSource.unit source).2) := by
  have htotal : Scalar.total (rules.map fun r => r.probability) =
      (rules.map fun r => r.probability).sum := Rational.total_eq_sum _
  have hweight : ¬Scalar.total (rules.map fun r => r.probability) ≤ 0.0 := by
    rw [htotal, Rational.zero_literal]
    exact not_le.mpr hsum
  obtain ⟨last, _, hamong⟩ := exists_last_among_eq source hseveral hweight
  refine ⟨last, ?_⟩
  rwa [Rational.zero_literal, htotal, between_zero_eq] at hamong

/-- Several rules with a positive sum of weights: there is a place that the
draw reaches, so the loop finds the rule there. -/
theorem exists_among_eq {rules : List (Rule ℚ)} {source : G}
    (hseveral : 2 ≤ rules.length)
    (hsum : 0 < (rules.map fun r => r.probability).sum)
    (hunit : (RandomSource.unit source).1 ∈ Set.Ico (0 : ℚ) 1) :
    let weights := rules.map fun r => r.probability
    let draw := (RandomSource.unit source).1 * weights.sum
    ∃ i r, reachingPlace? draw 0 weights = some i ∧ rules[i]? = some r ∧
      reaching? draw 0 rules = some r ∧
      among rules source = (.drawn r, (RandomSource.unit source).2) := by
  intro weights draw
  have hnonneg : 0 ≤ draw := mul_nonneg hunit.1 hsum.le
  have hbelow : draw < 0 + weights.sum := by
    rw [zero_add]
    exact (mul_lt_iff_lt_one_left hsum).mpr hunit.2
  obtain ⟨i, hi⟩ := exists_reachingPlace? hnonneg hbelow
  have hlength : i < rules.length := by
    have hweights := lt_length_of_reachingPlace? hi
    rwa [List.length_map] at hweights
  have hrule : rules[i]? = some rules[i] := List.getElem?_eq_getElem hlength
  have hreaches : reaching? draw 0 rules = some rules[i] := by
    rw [reaching?_eq_bind, hi, Option.bind_some, hrule]
  obtain ⟨last, hamong⟩ := exists_among_eq_getD source hseveral hsum
  refine ⟨i, rules[i], hi, hrule, hreaches, ?_⟩
  rw [hamong, hreaches, Option.getD_some]

end Choice

variable [RandomSource G ℚ]

/-- Among the rules whose contexts match, the most specific ones are eligible.
Several of them with a positive sum of weights are drawn from in proportion:
one unit draw, stretched to the sum, is in the portion of just one place, the
rule there is drawn, and the unit draws for a place form an interval whose
length is the share of its weight.  A rule without weight is never drawn, and
the loop always finds a rule.  Up to one eligible rule takes no draw. -/
theorem drawn_in_proportion (candidates : List (Rule ℚ))
    (left right : Option Word) (source : G)
    (hweights : ∀ r ∈ candidates, 0 ≤ r.probability)
    (hunit : (RandomSource.unit source).1 ∈ Set.Ico (0 : ℚ) 1) :
    let eligible := Rule.mostSpecific
      (candidates.filter fun r => r.matchesContext left right)
    let weights := eligible.map fun r => r.probability
    let unit := RandomSource.unit source
    let draw := unit.1 * weights.sum
    let choice := Choice.ofCandidates candidates left right source
    (eligible.length ≤ 1 →
      choice.1.isDrawn = false ∧ choice.1.rule? = eligible.head? ∧
        choice.2 = source) ∧
    (2 ≤ eligible.length → 0 < weights.sum →
      choice.2 = unit.2 ∧
      (∃ i r, eligible[i]? = some r ∧ choice.1 = .drawn r ∧
        0 < r.probability ∧ Choice.reaching? draw 0 eligible = some r ∧
        ∀ j, draw ∈ Choice.portion weights j ↔ j = i) ∧
      (∀ r, choice.1 = .drawn r ↔ ∃ i, eligible[i]? = some r ∧
        (weights.take i).sum ≤ draw ∧ draw < (weights.take (i + 1)).sum) ∧
      ∀ i r, eligible[i]? = some r →
        (draw ∈ Choice.portion weights i ↔
          unit.1 ∈ Set.Ico ((weights.take i).sum / weights.sum)
            ((weights.take i).sum / weights.sum +
              r.probability / weights.sum))) := by
  intro eligible weights unit draw choice
  have hchoice : choice = Choice.among eligible source :=
    congrArg (Choice.among · source)
      (Choice.eligible_eq_mostSpecific candidates left right)
  have hweight : ∀ {i : Nat} {r : Rule ℚ}, eligible[i]? = some r →
      weights[i]? = some r.probability := by
    intro i r hr
    rw [List.getElem?_map, hr, Option.map_some]
  have hnonneg : ∀ weight ∈ weights, 0 ≤ weight := by
    intro weight hmem
    obtain ⟨r, hr, rfl⟩ := List.mem_map.mp hmem
    exact hweights r (List.mem_of_mem_filter (List.mem_of_mem_filter hr))
  constructor
  · intro hfew
    rw [hchoice]
    match eligible, hfew with
    | [], _ => exact ⟨rfl, rfl, rfl⟩
    | [r], _ => exact ⟨rfl, rfl, rfl⟩
  · intro hseveral hsum
    have hdraw : 0 ≤ draw := mul_nonneg hunit.1 hsum.le
    obtain ⟨i, r, hi, hr, hreaches, hdrawn⟩ :=
      Choice.exists_among_eq hseveral hsum hunit
    rw [← hchoice] at hdrawn
    have hplace : ∀ j, draw ∈ Choice.portion weights j ↔ j = i := by
      intro j
      rw [← Choice.reachingPlace?_zero_iff hnonneg hdraw, hi,
        Option.some.injEq, eq_comm]
    have hportion : draw ∈ Choice.portion weights i := (hplace i).mpr rfl
    have hpositive : 0 < r.probability :=
      Choice.pos_of_mem_portion (hweight hr) hportion
    refine ⟨congrArg Prod.snd hdrawn, ⟨i, r, hr, congrArg Prod.fst hdrawn,
      hpositive, hreaches, hplace⟩, ?_, ?_⟩
    · intro s
      rw [hdrawn, Choice.drawn.injEq]
      constructor
      · rintro rfl
        exact ⟨i, hr, hportion⟩
      · rintro ⟨j, hs, hj⟩
        obtain rfl := (hplace j).mp hj
        exact Option.some.inj (hr.symm.trans hs)
    · intro j s hs
      exact Choice.mul_sum_mem_portion_iff (hweight hs) hsum

/-- Behind a symbol `B` the first rule is beaten by four others.  The draw is
where the portion of the second of them ends and that of the third begins; the
other two have no weight. -/
theorem drawn_in_proportion_sample :
    let behind (successor : Char) (weight : ℚ) : Rule ℚ :=
      ⟨['B'], ['A'], [], [successor], weight⟩
    let candidates := [⟨[], ['A'], [], ['A'], 1⟩, behind 'P' 0,
      behind 'Q' (1 / 4), behind 'R' (1 / 2), behind 'S' 0]
    (∀ r ∈ candidates, 0 ≤ r.probability) ∧
      (1 / 3 : ℚ) ∈ Set.Ico (0 : ℚ) 1 ∧
      (Choice.ofCandidates candidates (some ['B']) none (1 / 3 : ℚ)).1 =
        .drawn (behind 'R' (1 / 2)) := by
  intro behind candidates
  have hweights : ∀ r ∈ candidates, 0 ≤ r.probability := by
    simp only [candidates, behind, List.forall_mem_cons]
    norm_num
  have hunit : (1 / 3 : ℚ) ∈ Set.Ico (0 : ℚ) 1 := by norm_num
  obtain ⟨-, hseveral⟩ := drawn_in_proportion candidates (some ['B']) none
    (1 / 3 : ℚ) hweights hunit
  have heligible : Rule.mostSpecific (candidates.filter fun r =>
      r.matchesContext (some ['B']) none) =
        [behind 'P' 0, behind 'Q' (1 / 4), behind 'R' (1 / 2), behind 'S' 0] :=
    rfl
  simp only [heligible] at hseveral
  obtain ⟨-, -, hdrawn, -⟩ := hseveral (by decide) (by norm_num [behind])
  refine ⟨hweights, hunit, (hdrawn _).mpr ⟨2, rfl, ?_, ?_⟩⟩
  · norm_num [behind, RandomSource.unit]
  · norm_num [behind, RandomSource.unit]

end TreeGrowth
