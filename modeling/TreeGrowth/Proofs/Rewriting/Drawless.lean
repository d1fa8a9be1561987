import TreeGrowth.Proofs.Rewriting.Counting

/-!
# Words that ask for no draw

Where no position has several best fits, the decisions of a pass can be read
off the word alone: the source is neither asked nor moved on, and what the pass
writes is the same for all sources.  If such a pass leaves its word as it was,
without a cut, then so does every further one.
-/

namespace TreeGrowth

variable {K G : Type} {rules : List (Rule K)} {limit : Nat} {word : Word}

/-- No position of the word has several best fits. -/
def Drawless (rules : List (Rule K)) (word : Word) : Prop :=
  ∀ i < word.length, (bestFits rules word i).length ≤ 1

theorem drawless_iff :
    Drawless rules word ↔
      (Tally.ofPositions rules word word.length).drawn = 0 := by
  simp [Drawless, Tally.ofPositions, List.countP_eq_zero]

/-- Rules for different symbols never compete. -/
theorem drawless_of_pairwise
    (hdistinct : rules.Pairwise fun r s => r.predecessor ≠ s.predecessor)
    (word : Word) : Drawless rules word := by
  intro i _
  have hbest : (bestFits rules word i).Pairwise
      fun r s => r.predecessor ≠ s.predecessor := hdistinct.filter _
  cases hfits : bestFits rules word i with
  | nil => exact Nat.zero_le 1
  | cons r others =>
      cases others with
      | nil => exact le_rfl
      | cons s others =>
          have hsymbol : ∀ t ∈ bestFits rules word i,
              word[i]?.map (fun c => [c]) = some t.predecessor :=
            fun t ht => (mem_bestFits_iff.mp ht).2.1.1
          simp only [hfits, List.forall_mem_cons] at hsymbol
          rw [hfits, List.pairwise_cons] at hbest
          have hne := hbest.1 s List.mem_cons_self
          exact absurd (Option.some.inj (hsymbol.1.symm.trans hsymbol.2.1)) hne

/-- What the best fits of a position decide if there are not several. -/
def Choice.ofSole : List (Rule K) → Choice K
  | [] => .keep
  | r :: _ => .forced r

/-- The rewriting of a word that asks for no draw. -/
def drawlessRewriting (rules : List (Rule K)) (word : Word) : Word :=
  written ((List.range word.length).map fun i =>
    Choice.ofSole (bestFits rules word i)) word

/-- A pass without a draw leaves the word as it is. -/
structure Settled (rules : List (Rule K)) (limit : Nat) (word : Word) :
    Prop where
  drawless : Drawless rules word
  unchanged : drawlessRewriting rules word = word
  within : word.length ≤ limit

/-! ## One pass -/

variable [Scalar K] [RandomSource G K]

theorem decideAt_of_length_le_one {i : Nat}
    (hsole : (bestFits rules word i).length ≤ 1) (source : G) :
    decideAt rules word i source =
      (Choice.ofSole (bestFits rules word i), source) := by
  unfold decideAt
  split
  next hnone => rw [hnone, Choice.ofSole]
  next r hone => rw [hone, Choice.ofSole]
  next first others hseveral hbest =>
    rw [hbest, List.length_cons] at hsole
    have hothers : others = [] := List.eq_nil_of_length_eq_zero (by omega)
    subst hothers
    exact absurd rfl hseveral

theorem Drawless.decideAll_eq (hdrawless : Drawless rules word)
    {positions : List Nat} (hwithin : ∀ i ∈ positions, i < word.length)
    (source : G) :
    decideAll rules word positions source =
      (positions.map fun i => Choice.ofSole (bestFits rules word i),
        source) := by
  induction positions with
  | nil => rfl
  | cons i positions ih =>
      rw [List.forall_mem_cons] at hwithin
      have hsole := hdrawless i hwithin.1
      rw [decideAll, decideAt_of_length_le_one hsole]
      simp only [ih hwithin.2, List.map_cons]

theorem Drawless.expansion_eq (hdrawless : Drawless rules word)
    (source : G) :
    expansion rules word source = drawlessRewriting rules word := by
  rw [expansion, decisions, drawlessRewriting, hdrawless.decideAll_eq]
  intro i hi
  exact List.mem_range.mp hi

theorem Drawless.source_rewritePass (hdrawless : Drawless rules word)
    (tally : Tally) (source : G) :
    let pass := rewritePass (RuleTable.ofRules rules) limit tally source word
    pass.source = source ∧ pass.tally.drawn = tally.drawn := by
  intro pass
  obtain ⟨n, hn, _, htally, hsource, _⟩ :=
    rewritePass_made rules limit tally source word
  have hwithin : ∀ i ∈ List.range n, i < word.length := by
    intro i hi
    exact (List.mem_range.mp hi).trans_le hn
  constructor
  · rw [hsource, hdrawless.decideAll_eq hwithin]
  · have hnone : (Tally.ofPositions rules word n).drawn = 0 := by
      apply List.countP_eq_zero.mpr
      intro i hi
      have hsole := hdrawless i (hwithin i hi)
      simpa using Nat.lt_succ_of_le hsole
    rw [htally, foldl_count_decideAll, Tally.drawn_add, hnone, Nat.add_zero]

/-- A pass that is not cut has drawn nothing exactly if its word asks for no
draw. -/
theorem drawless_of_rewritePass {tally : Tally} {source : G}
    (hwhole : (rewritePass (RuleTable.ofRules rules) limit tally source
      word).truncated = false)
    (hundrawn : (rewritePass (RuleTable.ofRules rules) limit tally source
      word).tally.drawn = tally.drawn) : Drawless rules word := by
  rw [tally_rewritePass, scanned_eq_length hwhole, Tally.drawn_add] at hundrawn
  exact drawless_iff.mpr (by omega)

theorem Drawless.settled (hdrawless : Drawless rules word) {tally : Tally}
    {source : G}
    (hwhole : (rewritePass (RuleTable.ofRules rules) limit tally source
      word).truncated = false)
    (hsame : (rewritePass (RuleTable.ofRules rules) limit tally source
      word).word = word) : Settled rules limit word := by
  have hwithin : (drawlessRewriting rules word).length ≤ limit := by
    rw [← hdrawless.expansion_eq source, ← Nat.not_lt,
      ← rewritePass_truncated_iff rules limit tally source word, hwhole]
    exact Bool.false_ne_true
  rw [rewritePass_word, hdrawless.expansion_eq,
    List.take_of_length_le hwithin] at hsame
  exact ⟨hdrawless, hsame, hsame ▸ hwithin⟩

/-! ## Further passes -/

theorem Settled.rewritePass_eq (hsettled : Settled rules limit word)
    (tally : Tally) (source : G) :
    let pass := rewritePass (RuleTable.ofRules rules) limit tally source word
    pass.word = word ∧ pass.truncated = false ∧ pass.source = source ∧
      pass.tally.drawn = tally.drawn := by
  intro pass
  have hexpansion : expansion rules word source = word :=
    (hsettled.drawless.expansion_eq source).trans hsettled.unchanged
  refine ⟨?_, ?_, hsettled.drawless.source_rewritePass tally source⟩
  · have hword := rewritePass_word rules limit tally source word
    rw [hexpansion, List.take_of_length_le hsettled.within] at hword
    exact hword
  · have hcut := rewritePass_truncated_iff rules limit tally source word
    rw [hexpansion] at hcut
    rw [← Bool.not_eq_true]
    exact fun htruncated =>
      Nat.not_lt.mpr hsettled.within (hcut.mp htruncated)

end TreeGrowth
