import TreeGrowth.Proofs.Random.Pcg64
import TreeGrowth.Proofs.Rewriting.Weightless

/-!
# Rules without any weight

Where all eligible rules have a weight of zero, the sum of their weights is zero
and the rule is drawn by an index alone.  The index is spread from the first
accepted word, so it belongs to one of the rules, and every rule has the same
number of accepted words.
-/

namespace TreeGrowth

namespace Machine

/-- A sum of zeros is zero, whatever their signs are. -/
theorem hasUnits_foldl_add_zeros {weights : List Float}
    (hweights : ∀ weight ∈ weights, IsZero weight) {sum : Float}
    (hsum : HasUnits sum 0) : HasUnits (weights.foldl (· + ·) sum) 0 := by
  induction weights generalizing sum with
  | nil => exact hsum
  | cons weight rest ih =>
      obtain ⟨hweight, hrest⟩ := List.forall_mem_cons.mp hweights
      have hadd := hsum.add hweight.hasUnits (b := 1) (by decide) (by decide)
      rw [Nat.add_zero, nearest_of_zero] at hadd
      exact ih hrest hadd

end Machine

/-- Several eligible rules whose weights are all zero, fewer of them than there
are words of 32 bits.  Whatever the state of the generator, the rule is the one
at the index that is drawn as a whole number up to the last place, so it is one
of them; if the generator ever comes to an accepted word, the index is spread
from the first such word, and nothing after it is drawn.  And of all words, the
same number is accepted for every place: the number of words, divided by that of
the rules and rounded down. -/
theorem weightless_rules_equally_likely (candidates : List (Rule Float))
    (left right : Option Word)
    (hweightless : ∀ r ∈ Choice.eligible candidates left right,
      Scalar.agree r.probability 0.0 = true) :
    let eligible := Choice.eligible candidates left right
    let k := eligible.length
    2 ≤ k → k < 2 ^ 32 →
      (∀ source : Pcg64, ∃ (i : Fin k) (source' : Pcg64),
        source.integerBetween 0 (k - 1) = .ok ((i : Int), source') ∧
        Choice.ofCandidates candidates left right source =
          (.drawn eligible[i], source') ∧
        ∀ m, FirstAccepted 32 k Pcg64.number32 source m →
          i = spread 32 k (drawAfter Pcg64.number32 m source).1 ∧
            source' = (drawAfter Pcg64.number32 m source).2) ∧
      ∀ i < k, ((Finset.range (2 ^ 32)).filter fun word =>
        accepts 32 k word = true ∧ spread 32 k word = i).card = 2 ^ 32 / k := by
  intro eligible k hseveral hwords
  have htotal : Scalar.total (eligible.map fun r => r.probability) ≤ 0.0 := by
    have hzeros : ∀ weight ∈ eligible.map fun r => r.probability,
        Machine.IsZero weight := List.forall_mem_map.mpr fun r hr =>
      Machine.isZero_of_agree (hweightless r hr)
    have hsum := Machine.hasUnits_foldl_add_zeros hzeros Machine.hasUnits_zero
    exact (hsum.le_iff Machine.hasUnits_zero).mpr le_rfl
  constructor
  · intro source
    have hindex := Pcg64.index_lt hseveral hwords.le source
    refine ⟨⟨_, hindex⟩, _, Pcg64.integerBetween_zero hseveral hwords.le source,
      Choice.among_eq_getElem hseveral htotal hindex, ?_⟩
    intro m hfirst
    exact Prod.mk.inj
      (Pcg64.index_eq_of_first hseveral hwords.le hfirst)
  · intro i hi
    exact card_accepted hwords.le hi

/-- Three does not divide the number of words, so one word is accepted for no
place; the first word of this generator is another. -/
theorem weightless_rules_equally_likely_sample :
    let candidates := [Rule.intoSample 'B' 0.0, Rule.intoSample 'C' (-0.0),
      Rule.intoSample 'D' 0.0]
    let source := Pcg64.ofEntropy 7
    (∀ r ∈ candidates, Scalar.agree r.probability 0.0 = true) ∧
      (∃ (i : Fin 3) (source' : Pcg64),
        source.integerBetween 0 2 = .ok ((i : Int), source') ∧
        Choice.ofCandidates candidates none none source =
          (.drawn candidates[i], source') ∧
        i = spread 32 3 source.number32.1) ∧
      ∀ i < 3, ((Finset.range (2 ^ 32)).filter fun word =>
        accepts 32 3 word = true ∧ spread 32 3 word = i).card =
          1431655765 := by
  intro candidates source
  have hweightless : ∀ r ∈ candidates,
      Scalar.agree r.probability 0.0 = true := by
    decide +kernel
  have heligible : Choice.eligible candidates none none = candidates := rfl
  obtain ⟨hdrawn, hwords⟩ := weightless_rules_equally_likely candidates none
    none (heligible ▸ hweightless) (by decide) (by decide)
  obtain ⟨i, source', hindex, hchoice, hspread⟩ := hdrawn source
  have hfirst : FirstAccepted 32 3 Pcg64.number32 source 0 :=
    ⟨by simp, by decide +kernel⟩
  refine ⟨hweightless, ⟨i, source', hindex, hchoice,
    (hspread 0 hfirst).1⟩, ?_⟩
  intro place hplace
  exact (hwords place hplace).trans (by decide)

end TreeGrowth
