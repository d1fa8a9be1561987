import TreeGrowth.Proofs.Rewriting.Expansion

/-!
# What a pass counts

A pass counts the symbols that it rewrites, those that it rewrites by a rule
with a context, and those for which it draws a rule.  Whatever rules it draws,
the counts are settled by the rules that fit the positions it has scanned: the
best fits of a position are all equally specific, so one of them asks for a
neighbour exactly if some rule that fits does.  A pass has scanned all
positions of its word, or, if it was cut short, those of the shortest prefix
whose rewriting exceeds the limit.
-/

namespace TreeGrowth

/-! ## Sums of tallies -/

instance : Zero Tally := ⟨{}⟩

instance : Add Tally where
  add s t :=
    { rewritten := s.rewritten + t.rewritten
      inContext := s.inContext + t.inContext
      drawn := s.drawn + t.drawn }

attribute [ext] Tally

@[simp] theorem Tally.rewritten_zero : (0 : Tally).rewritten = 0 := rfl

@[simp] theorem Tally.inContext_zero : (0 : Tally).inContext = 0 := rfl

@[simp] theorem Tally.drawn_zero : (0 : Tally).drawn = 0 := rfl

@[simp] theorem Tally.rewritten_add (s t : Tally) :
    (s + t).rewritten = s.rewritten + t.rewritten := rfl

@[simp] theorem Tally.inContext_add (s t : Tally) :
    (s + t).inContext = s.inContext + t.inContext := rfl

@[simp] theorem Tally.drawn_add (s t : Tally) :
    (s + t).drawn = s.drawn + t.drawn := rfl

instance : AddCommMonoid Tally where
  add_assoc s t u := by ext <;> simp [Nat.add_assoc]
  zero_add t := by ext <;> simp
  add_zero t := by ext <;> simp
  add_comm s t := by ext <;> simp [Nat.add_comm]
  nsmul := nsmulRec

/-! ## The rules that fit a position -/

variable {K G : Type} {rules : List (Rule K)} {word : Word} {i : Nat}

theorem bestFits_eq_nil_iff :
    bestFits rules word i = [] ↔ ¬∃ r ∈ rules, r.Fits word i := by
  have hfilter : bestFits rules word i =
      Rule.mostSpecific (rules.filter fun r => decide (r.Fits word i)) := by
    rw [bestFits, Rule.mostSpecific, List.filter_filter]
    apply List.filter_congr
    intro r _
    simp only [List.mem_filter, decide_eq_true_eq, and_imp, Bool.decide_and]
    rw [Bool.and_comm]
  rw [hfilter, Rule.mostSpecific_eq_nil_iff, List.filter_eq_nil_iff]
  simp

theorem Rule.isContextSensitive_iff (r : Rule K) :
    r.isContextSensitive = true ↔ 1 ≤ r.specificity := by
  unfold Rule.isContextSensitive Rule.specificity
  cases r.leftContext.isEmpty <;> cases r.rightContext.isEmpty <;> simp

/-- A best fit asks for a neighbour if some rule that fits does. -/
theorem exists_fits_specific_iff {r : Rule K}
    (hr : r ∈ bestFits rules word i) :
    (∃ s ∈ rules, s.Fits word i ∧ 1 ≤ s.specificity) ↔ 1 ≤ r.specificity := by
  obtain ⟨hmem, hfits, hbest⟩ := mem_bestFits_iff.mp hr
  constructor
  · rintro ⟨s, hs, hsfits, hspecific⟩
    exact hspecific.trans (hbest s hs hsfits)
  · intro hspecific
    exact ⟨r, hmem, hfits, hspecific⟩

/-! ## Counting positions -/

/-- What is to be counted at the first `n` positions of a word: those that some
rule fits, those that a rule with a context fits, and those that have several
best fits. -/
def Tally.ofPositions (rules : List (Rule K)) (word : Word) (n : Nat) :
    Tally where
  rewritten := (List.range n).countP fun i =>
    decide (∃ r ∈ rules, r.Fits word i)
  inContext := (List.range n).countP fun i =>
    decide (∃ r ∈ rules, r.Fits word i ∧ 1 ≤ r.specificity)
  drawn := (List.range n).countP fun i =>
    decide (2 ≤ (bestFits rules word i).length)

/-- A decision is counted by what fits its position, not by the rule that was
drawn. -/
theorem Choice.IsRightFor.count {choice : Choice K}
    (hright : choice.IsRightFor (bestFits rules word i)) (tally : Tally) :
    tally.count choice = tally +
      { rewritten := if ∃ r ∈ rules, r.Fits word i then 1 else 0
        inContext :=
          if ∃ r ∈ rules, r.Fits word i ∧ 1 ≤ r.specificity then 1 else 0
        drawn := if 2 ≤ (bestFits rules word i).length then 1 else 0 } := by
  have hfired : ∀ r ∈ bestFits rules word i,
      (∃ s ∈ rules, s.Fits word i) ∧
        (r.isContextSensitive = true ↔
          ∃ s ∈ rules, s.Fits word i ∧ 1 ≤ s.specificity) := by
    intro r hr
    have hfits := mem_bestFits_iff.mp hr
    refine ⟨⟨r, hfits.1, hfits.2.1⟩, ?_⟩
    rw [exists_fits_specific_iff hr, Rule.isContextSensitive_iff]
  cases choice with
  | keep =>
      have hnone : bestFits rules word i = [] := hright
      have hmisfit := bestFits_eq_nil_iff.mp hnone
      have hcontext :
          ¬∃ s ∈ rules, s.Fits word i ∧ 1 ≤ s.specificity := by
        rintro ⟨s, hs, hfits, _⟩
        exact hmisfit ⟨s, hs, hfits⟩
      rw [if_neg hmisfit, if_neg hcontext, hnone]
      rfl
  | forced r =>
      have hone : bestFits rules word i = [r] := hright
      obtain ⟨hfits, hcontext⟩ := hfired r (by simp [hone])
      ext <;> simp [Tally.count, Choice.rule?, Choice.isDrawn, hfits, hone,
        hcontext]
  | drawn r =>
      obtain ⟨hfits, hcontext⟩ := hfired r hright.1
      ext <;> simp [Tally.count, Choice.rule?, Choice.isDrawn, hfits,
        hright.2, hcontext]

variable [Scalar K] [RandomSource G K]

theorem foldl_count_decideAll (rules : List (Rule K)) (word : Word)
    (source : G) (tally : Tally) (n : Nat) :
    (decideAll rules word (List.range n) source).1.foldl Tally.count tally =
      tally + Tally.ofPositions rules word n := by
  induction n with
  | zero => exact (add_zero tally).symm
  | succ n ih =>
      have hright := decideAt_isRightFor rules word n
        (decideAll rules word (List.range n) source).2
      rw [List.range_succ, decideAll_append, List.foldl_append, ih]
      simp only [decideAll, List.foldl_cons, List.foldl_nil, hright.count]
      rw [add_assoc]
      congr 1
      ext <;> simp [Tally.ofPositions, List.range_succ, List.countP_append,
        List.countP_cons]

/-! ## The positions that a pass has scanned -/

theorem exists_scanned (rules : List (Rule K)) (limit : Nat) (word : Word)
    (source : G) :
    ∃ n, n = word.length ∨
      limit < (rewritten rules word source n).length :=
  ⟨word.length, .inl rfl⟩

/-- The number of positions that a pass scans: up to the end of the word, or
until what it writes exceeds the limit. -/
def scanned (rules : List (Rule K)) (limit : Nat) (word : Word)
    (source : G) : Nat :=
  Nat.find (exists_scanned rules limit word source)

theorem isLeast_scanned {limit : Nat} {tally : Tally} {source : G}
    (hcut : (rewritePass (RuleTable.ofRules rules) limit tally source
      word).truncated = true) :
    IsLeast {n | limit < (rewritten rules word source n).length}
      (scanned rules limit word source) := by
  constructor
  · have hlong : limit < (rewritten rules word source word.length).length :=
      (rewritePass_truncated_iff rules limit tally source word).mp hcut
    rcases Nat.find_spec (exists_scanned rules limit word source) with
      hend | hover
    · change limit < (rewritten rules word source _).length
      rw [scanned, hend]
      exact hlong
    · exact hover
  · intro n hn
    exact Nat.find_min' _ (.inr hn)

theorem scanned_eq_length {limit : Nat} {tally : Tally} {source : G}
    (hwhole : (rewritePass (RuleTable.ofRules rules) limit tally source
      word).truncated = false) :
    scanned rules limit word source = word.length := by
  have hwithin : ¬limit < (expansion rules word source).length := by
    rw [← rewritePass_truncated_iff rules limit tally source word, hwhole]
    exact Bool.false_ne_true
  apply (Nat.find_eq_iff _).mpr
  refine ⟨.inl rfl, ?_⟩
  rintro n hn (hend | hover)
  · exact absurd hend hn.ne
  · have hle := (written_prefix_expansion rules word source hn.le).length_le
    exact hwithin (hover.trans_le hle)

/-- A pass counts what is to be counted at the positions that it scans. -/
theorem tally_rewritePass (rules : List (Rule K)) (limit : Nat)
    (tally : Tally) (source : G) (word : Word) :
    (rewritePass (RuleTable.ofRules rules) limit tally source word).tally =
      tally +
        Tally.ofPositions rules word (scanned rules limit word source) := by
  obtain ⟨n, hn, _, htally, _, hstop, hearlier⟩ :=
    rewritePass_made_first rules limit tally source word
  have hscanned : scanned rules limit word source = n := by
    apply (Nat.find_eq_iff _).mpr
    constructor
    · split at hstop
      next => exact .inr hstop
      next => exact .inl hstop.1
    · rintro m hm (hend | hover)
      · omega
      · exact absurd (hearlier m hm) (Nat.not_le.mpr hover)
  rw [htally, foldl_count_decideAll, hscanned]

end TreeGrowth
