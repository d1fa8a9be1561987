import TreeGrowth.Proofs.Numeric.Rational
import TreeGrowth.Proofs.Rewriting.Places

/-!
# Scaled weights make the same choices

Weights are scaled per predecessor, while a draw only looks at the rules that
compete for one symbol.  Both agree because the competing rules all belong to
one group, so scaling divides their weights by one positive factor; the draw is
stretched to their sum and shrinks by the same factor.  The places of the
chosen rules are compared in exact arithmetic.
-/

namespace TreeGrowth

open Scalar

/-! ## One factor for each group -/

namespace Rule

/-- What scaling divides the weights of a group by. -/
def groupFactor (rules : List (Rule ℚ)) (predecessor : Word) : ℚ :=
  if needsScaling rules predecessor then groupTotal rules predecessor else 1

def dividedBy (factor : ℚ) (r : Rule ℚ) : Rule ℚ :=
  { r with probability := r.probability / factor }

/-- The weight lies between zero and one, as the weight of every rule made by
`Rule.ofWords` does. -/
def Bounded (r : Rule ℚ) : Prop :=
  boundedProbability r.probability = r.probability

theorem groupTotal_eq_sum (rules : List (Rule ℚ)) (predecessor : Word) :
    groupTotal rules predecessor =
      ((forPredecessor rules predecessor).map fun r => r.probability).sum :=
  Rational.total_eq_sum _

theorem needsScaling_iff (rules : List (Rule ℚ)) (predecessor : Word) :
    needsScaling rules predecessor = true ↔
      1 < (forPredecessor rules predecessor).length ∧
        0 < groupTotal rules predecessor ∧
          ¬isClose (groupTotal rules predecessor) 1.0 = true := by
  simp only [needsScaling, Bool.and_eq_true, Bool.not_eq_true',
    decide_eq_true_eq, Rational.zero_literal, Bool.not_eq_true, and_assoc]

theorem groupFactor_pos (rules : List (Rule ℚ)) (predecessor : Word) :
    0 < groupFactor rules predecessor := by
  rw [groupFactor]
  split
  next hscaled => exact ((needsScaling_iff rules predecessor).mp hscaled).2.1
  next => exact one_pos

theorem probability_le_groupTotal {rules : List (Rule ℚ)}
    (hweights : ∀ r ∈ rules, r.Bounded) {r : Rule ℚ} (hr : r ∈ rules) :
    r.probability ≤ groupTotal rules r.predecessor := by
  rw [groupTotal_eq_sum]
  apply List.single_le_sum
  · intro weight hweight
    obtain ⟨s, hs, rfl⟩ := List.mem_map.mp hweight
    have hbounded := hweights s (List.mem_filter.mp hs).1
    exact ((Rational.boundedProbability_eq_self_iff _).mp hbounded).1
  · apply List.mem_map_of_mem
    rw [forPredecessor, List.mem_filter]
    exact ⟨hr, beq_self_eq_true _⟩

/-- The bound that a scaled weight passes leaves it as it is. -/
theorem normalize_eq_map_dividedBy {rules : List (Rule ℚ)}
    (hweights : ∀ r ∈ rules, r.Bounded) :
    normalize rules =
      rules.map fun r => r.dividedBy (groupFactor rules r.predecessor) := by
  apply List.map_congr_left
  intro r hr
  dsimp only [dividedBy]
  rw [groupFactor]
  split
  next hscaled =>
    have hpos : 0 < groupTotal rules r.predecessor :=
      ((needsScaling_iff rules r.predecessor).mp hscaled).2.1
    have hnonneg : 0 ≤ r.probability :=
      ((Rational.boundedProbability_eq_self_iff _).mp (hweights r hr)).1
    have hshare : boundedProbability
        (r.probability / groupTotal rules r.predecessor) =
          r.probability / groupTotal rules r.predecessor := by
      rw [Rational.boundedProbability_eq_self_iff]
      constructor
      · exact div_nonneg hnonneg hpos.le
      · exact div_le_one_of_le₀ (probability_le_groupTotal hweights hr) hpos.le
    rw [hshare]
  next => rw [div_one]

/-! ## The sums of scaled groups -/

theorem forPredecessor_normalize {rules : List (Rule ℚ)}
    (hweights : ∀ r ∈ rules, r.Bounded) (predecessor : Word) :
    forPredecessor (normalize rules) predecessor =
      (forPredecessor rules predecessor).map
        (dividedBy (groupFactor rules predecessor)) := by
  rw [normalize_eq_map_dividedBy hweights, forPredecessor, forPredecessor,
    List.filter_map]
  apply List.map_congr_left
  intro r hr
  have hsame : r.predecessor = predecessor :=
    eq_of_beq (List.mem_filter.mp hr).2
  rw [hsame]

theorem groupTotal_normalize {rules : List (Rule ℚ)}
    (hweights : ∀ r ∈ rules, r.Bounded) (predecessor : Word) :
    groupTotal (normalize rules) predecessor =
      groupTotal rules predecessor / groupFactor rules predecessor := by
  rw [groupTotal, groupTotal, forPredecessor_normalize hweights, List.map_map,
    ← Rational.total_div, List.map_map]
  rfl

/-- No group of a scaled list is scaled again. -/
theorem needsScaling_normalize {rules : List (Rule ℚ)}
    (hweights : ∀ r ∈ rules, r.Bounded) (predecessor : Word) :
    needsScaling (normalize rules) predecessor = false := by
  rw [← Bool.not_eq_true, needsScaling_iff, groupTotal_normalize hweights,
    forPredecessor_normalize hweights, List.length_map]
  rintro ⟨hlength, hpos, hfar⟩
  by_cases hscaled : needsScaling rules predecessor = true
  · have hne : groupTotal rules predecessor ≠ 0 :=
      ((needsScaling_iff rules predecessor).mp hscaled).2.1.ne'
    rw [groupFactor, if_pos hscaled, div_self hne,
      Rational.isClose_iff, Rational.one_literal, sub_self, abs_zero] at hfar
    exact hfar (by positivity)
  · rw [groupFactor, if_neg hscaled, div_one] at hpos hfar
    exact hscaled ((needsScaling_iff rules predecessor).mpr
      ⟨hlength, hpos, hfar⟩)

theorem normalize_normalize {rules : List (Rule ℚ)}
    (hweights : ∀ r ∈ rules, r.Bounded) :
    normalize (normalize rules) = normalize rules := by
  rw [normalize]
  apply List.map_id''
  intro r
  rw [needsScaling_normalize hweights, if_neg Bool.false_ne_true]

/-- The sum of a scaled group of several rules is close to one if it is
positive. -/
theorem abs_groupTotal_normalize_sub_one_le {rules : List (Rule ℚ)}
    (hweights : ∀ r ∈ rules, r.Bounded) {predecessor : Word}
    (hseveral : 1 < (forPredecessor rules predecessor).length)
    (hpos : 0 < groupTotal rules predecessor) :
    |groupTotal (normalize rules) predecessor - 1| ≤
      1e-9 * max (groupTotal (normalize rules) predecessor) 1 := by
  have hpos' : 0 < groupTotal (normalize rules) predecessor := by
    rw [groupTotal_normalize hweights]
    exact div_pos hpos (groupFactor_pos rules predecessor)
  have hclose :
      isClose (groupTotal (normalize rules) predecessor) 1.0 = true := by
    by_contra hfar
    have hscaled := (needsScaling_iff (normalize rules) predecessor).mpr
      ⟨by rwa [forPredecessor_normalize hweights, List.length_map],
        hpos', hfar⟩
    rw [needsScaling_normalize hweights] at hscaled
    exact Bool.false_ne_true hscaled
  rw [Rational.isClose_iff, Rational.one_literal, abs_of_pos hpos', abs_one]
    at hclose
  rwa [abs_sub_comm]

/-! ## Competing rules of a scaled list -/

theorem competes_map_iff {rules : List (Rule ℚ)} (factor : Rule ℚ → ℚ)
    {c : Char} {left right : Option Word} (r : Rule ℚ) :
    (r.dividedBy (factor r)).Competes
        (rules.map fun s => s.dividedBy (factor s)) c left right ↔
      r.Competes rules c left right := by
  rw [Competes, Competes, List.forall_mem_map]
  exact Iff.rfl

theorem competitors_normalize {rules : List (Rule ℚ)}
    (hweights : ∀ r ∈ rules, r.Bounded) (c : Char)
    (left right : Option Word) :
    competitors (normalize rules) c left right =
      (competitors rules c left right).map
        (Prod.map (dividedBy (groupFactor rules [c])) id) := by
  rw [competitors, normalize_eq_map_dividedBy hweights, List.zipIdx_map,
    List.filter_map]
  have hsame : competitors rules c left right =
      rules.zipIdx.filter ((fun entry => decide (Competes
        (rules.map fun r => r.dividedBy (groupFactor rules r.predecessor))
          c left right entry.1)) ∘
        Prod.map (fun r => r.dividedBy (groupFactor rules r.predecessor))
          id) := by
    apply List.filter_congr
    intro entry _
    rw [Function.comp_apply, decide_eq_decide]
    exact (competes_map_iff
      (fun r => groupFactor rules r.predecessor) entry.1).symm
  rw [← hsame]
  apply List.map_congr_left
  intro entry hentry
  rw [Prod.map_apply', Prod.map_apply',
    predecessor_of_mem_competitors hentry]

end Rule

/-! ## Draws among scaled weights -/

namespace Choice

theorem reachingPlace?_div {factor : ℚ} (hfactor : 0 < factor)
    (draw sum : ℚ) (weights : List ℚ) :
    reachingPlace? (draw / factor) (sum / factor) (weights.map (· / factor)) =
      reachingPlace? draw sum weights := by
  induction weights generalizing sum with
  | nil => rfl
  | cons weight rest ih =>
      rw [List.map_cons, reachingPlace?, reachingPlace?, ← add_div, ih]
      have hreached : draw / factor < (sum + weight) / factor ↔
          draw < sum + weight :=
        div_lt_div_iff_of_pos_right hfactor
      rw [if_congr hreached rfl rfl]

theorem reachingPlace?_zero_div {factor : ℚ} (hfactor : 0 < factor)
    (draw : ℚ) (weights : List ℚ) :
    reachingPlace? (draw / factor) 0 (weights.map (· / factor)) =
      reachingPlace? draw 0 weights := by
  have hdiv := reachingPlace?_div hfactor draw 0 weights
  rwa [zero_div] at hdiv

variable {G : Type} [RandomSource G ℚ]

theorem between_zero_div (factor high : ℚ) (source : G) :
    RandomSource.between 0 (high / factor) source =
      ((RandomSource.between 0 high source).1 / factor,
        (RandomSource.between 0 high source).2) := by
  have hscaled : ∀ u : ℚ,
      0 + (high / factor - 0) * u = (0 + (high - 0) * u) / factor := by
    intro u
    ring
  exact Prod.ext (hscaled _) rfl

theorem drawnPlace_div {factor : ℚ} (hfactor : 0 < factor)
    (weights : List ℚ) (source : G) :
    drawnPlace (weights.map (· / factor)) source =
      drawnPlace weights source := by
  have hempty : total weights / factor ≤ 0 ↔ total weights ≤ 0 := by
    rw [div_le_iff₀ hfactor, zero_mul]
  rw [drawnPlace, drawnPlace, Rational.total_div, List.length_map]
  dsimp only
  rw [Rational.zero_literal, if_congr hempty rfl rfl, between_zero_div,
    reachingPlace?_zero_div hfactor]

theorem placeAmong_div {factor : ℚ} (hfactor : 0 < factor)
    (weights : List ℚ) (places : List Nat) (source : G) :
    placeAmong (weights.map (· / factor)) places source =
      placeAmong weights places source := by
  match places with
  | [] => rfl
  | [_] => rfl
  | first :: second :: rest =>
      dsimp only [placeAmong]
      rw [drawnPlace_div hfactor]

theorem place?_normalize {rules : List (Rule ℚ)}
    (hweights : ∀ r ∈ rules, r.Bounded) (c : Char)
    (left right : Option Word) (source : G) :
    place? (Rule.normalize rules) c left right source =
      place? rules c left right source := by
  have hdivided := placeAmong_div (Rule.groupFactor_pos rules [c])
    ((Rule.competitors rules c left right).map fun entry =>
      entry.1.probability)
    ((Rule.competitors rules c left right).map Prod.snd) source
  rw [List.map_map] at hdivided
  dsimp only [place?]
  rw [Rule.competitors_normalize hweights, List.map_map, List.map_map]
  exact hdivided

end Choice

/-- Scaling keeps the rules and their order and brings every group with weight
to a sum close to one; scaling twice is scaling once; and for every draw the
rule that is chosen from the scaled list stands at the place of the rule that is
chosen from the list itself. -/
theorem normalize_preserves_choices (rules : List (Rule ℚ))
    (hweights : ∀ r ∈ rules, r.Bounded) :
    let scaled := Rule.normalize rules
    List.Forall₂ (fun r s : Rule ℚ =>
        { s with probability := r.probability } = r) rules scaled ∧
      (∀ predecessor : Word,
        1 < (Rule.forPredecessor rules predecessor).length →
        0 < Rule.groupTotal rules predecessor →
          |Rule.groupTotal scaled predecessor - 1| ≤
            1e-9 * max (Rule.groupTotal scaled predecessor) 1) ∧
      Rule.normalize scaled = scaled ∧
      ∀ (G : Type) [RandomSource G ℚ] (c : Char) (left right : Option Word)
        (source : G),
        let before := Choice.ofCandidates
          ((RuleTable.ofRules rules).candidates c) left right source
        let after := Choice.ofCandidates
          ((RuleTable.ofRules scaled).candidates c) left right source
        let place := Choice.place? rules c left right source
        Choice.place? scaled c left right source = place ∧
          before.1.rule? = place.1.bind (fun i => rules[i]?) ∧
          after.1.rule? = place.1.bind (fun i => scaled[i]?) ∧
          before.2 = place.2 ∧ after.2 = place.2 := by
  intro scaled
  refine ⟨?_, ?_, Rule.normalize_normalize hweights, ?_⟩
  · apply List.forall₂_map_right_iff.mpr
    apply List.forall₂_same.mpr
    intro r _
    split <;> rfl
  · intro predecessor hseveral hpos
    exact Rule.abs_groupTotal_normalize_sub_one_le hweights hseveral hpos
  · intro G _ c left right source before after place
    have hplace := Choice.place?_normalize hweights c left right source
    have hbefore := Choice.ofCandidates_eq_place rules c left right source
    have hafter := Choice.ofCandidates_eq_place scaled c left right source
    rw [hplace] at hafter
    exact ⟨hplace, hbefore.1, hafter.1, hbefore.2, hafter.2⟩

/-- A fraction is a source that draws itself again and again. -/
instance : RandomSource ℚ ℚ where
  unit u := (u, u)
  index count u := (⌊u * count⌋₊, u)

/-- Of three rules for one symbol, two compete for it at the start of a word. -/
theorem normalize_preserves_choices_sample :
    let rules : List (Rule ℚ) :=
      [⟨['B'], ['A'], [], ['B'], 1 / 2⟩, ⟨[], ['A'], [], ['A'], 1⟩,
        ⟨[], ['A'], [], ['A', 'B'], 1⟩]
    (∀ r ∈ rules, r.Bounded) ∧
      Choice.place? (Rule.normalize rules) 'A' none none (3 / 4 : ℚ) =
        (some 2, 3 / 4) := by
  intro rules
  have hweights : ∀ r ∈ rules, r.Bounded := by
    simp only [rules, Rule.Bounded, Rational.boundedProbability_eq_self_iff,
      List.forall_mem_cons]
    norm_num
  obtain ⟨-, -, -, hchoices⟩ := normalize_preserves_choices rules hweights
  constructor
  · exact hweights
  · rw [(hchoices ℚ 'A' none none (3 / 4)).1]
    decide +kernel

end TreeGrowth
