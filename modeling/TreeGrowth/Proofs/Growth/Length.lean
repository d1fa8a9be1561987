import TreeGrowth.Proofs.Engine.Reachable
import TreeGrowth.Proofs.Growth.Told
import TreeGrowth.Proofs.Rewriting.Expansion

/-!
# Lengths of the words of a run

A rule that an engine has let in writes at least one symbol, so a pass that is
not cut never shortens its word, and it lengthens it by no more than the
longest successor allows.  A pass that is cut leaves a word of just the limit,
and it was made only because the word before it was shorter.  So the words of a
run grow from one pass to the next, within the limit after the first pass.
-/

namespace TreeGrowth

/-! ## One pass -/

section Pass

variable {K G : Type}

def Rule.longestSuccessor (rules : List (Rule K)) : Nat :=
  (rules.map fun r => r.successor.length).foldr max 0

theorem Rule.length_successor_le {rules : List (Rule K)} {r : Rule K}
    (hr : r ∈ rules) : r.successor.length ≤ Rule.longestSuccessor rules := by
  induction rules with
  | nil => simp at hr
  | cons first rest ih =>
      simp only [Rule.longestSuccessor, List.map_cons, List.foldr_cons] at ih ⊢
      rcases List.mem_cons.mp hr with rfl | hrest
      · exact Nat.le_max_left _ _
      · exact (ih hrest).trans (Nat.le_max_right _ _)

/-- What is written for a symbol has from one up to `bound` symbols. -/
def Choice.PieceWithin (bound : Nat) (choice : Choice K) : Prop :=
  ∀ c, 1 ≤ (choice.piece c).length ∧ (choice.piece c).length ≤ bound

theorem Choice.IsRightFor.pieceWithin {rules : List (Rule K)} {word : Word}
    {i : Nat} {choice : Choice K}
    (hright : choice.IsRightFor (bestFits rules word i))
    (hrules : ∀ r ∈ rules, r.successor ≠ []) :
    choice.PieceWithin (max 1 (Rule.longestSuccessor rules)) := by
  have hrule : ∀ r ∈ bestFits rules word i, 1 ≤ r.successor.length ∧
      r.successor.length ≤ max 1 (Rule.longestSuccessor rules) := by
    intro r hr
    have hmem : r ∈ rules := (mem_bestFits_iff.mp hr).1
    constructor
    · exact List.length_pos_of_ne_nil (hrules r hmem)
    · exact (Rule.length_successor_le hmem).trans (Nat.le_max_right _ _)
  intro c
  cases choice with
  | keep => simp [Choice.piece, Choice.rule?]
  | forced r =>
      apply hrule r
      rw [show bestFits rules word i = [r] from hright]
      exact List.mem_cons_self
  | drawn r => exact hrule r hright.1

theorem length_written_within {bound : Nat} {choices : List (Choice K)}
    {word : Word} (hlength : choices.length = word.length)
    (hpieces : ∀ choice ∈ choices, choice.PieceWithin bound) :
    word.length ≤ (written choices word).length ∧
      (written choices word).length ≤ bound * word.length := by
  induction choices generalizing word with
  | nil =>
      have hword : word = [] := List.eq_nil_of_length_eq_zero hlength.symm
      simp [written, hword]
  | cons choice choices ih =>
      cases word with
      | nil => simp at hlength
      | cons c word =>
          have hrest := ih (by simpa using hlength)
            (fun other hother => hpieces other (List.mem_cons_of_mem _ hother))
          have hpiece := hpieces choice List.mem_cons_self c
          simp only [written] at hrest
          simp only [written, List.zipWith_cons_cons, List.flatten_cons,
            List.length_append, List.length_cons, Nat.mul_add, Nat.mul_one]
          omega

variable [Scalar K] [RandomSource G K]

theorem length_expansion_within {rules : List (Rule K)}
    (hrules : ∀ r ∈ rules, r.successor ≠ []) (word : Word) (source : G) :
    word.length ≤ (expansion rules word source).length ∧
      (expansion rules word source).length ≤
        max 1 (Rule.longestSuccessor rules) * word.length := by
  have hlength : (decisions rules word source).1.length = word.length := by
    rw [decisions, length_decideAll, List.length_range]
  apply length_written_within hlength
  intro choice hchoice
  have hright :=
    decideAll_isRightFor rules word (List.range word.length) source
  obtain ⟨k, hk, rfl⟩ := List.getElem_of_mem hchoice
  have hposition : k < (List.range word.length).length := by
    rw [List.length_range, ← hlength]
    exact hk
  exact (hright.get hposition hk).pieceWithin hrules

/-- A pass over a word within the limit does not shorten it, and leads to a
word within the limit. -/
theorem length_rewritePass_within {rules : List (Rule K)}
    (hrules : ∀ r ∈ rules, r.successor ≠ []) {limit : Nat} (tally : Tally)
    (source : G) {word : Word} (hword : word.length ≤ limit) :
    let next :=
      (rewritePass (RuleTable.ofRules rules) limit tally source word).word
    word.length ≤ next.length ∧
      next.length ≤ max 1 (Rule.longestSuccessor rules) * word.length ∧
      next.length ≤ limit := by
  dsimp only
  have hexpansion := length_expansion_within hrules word source
  rw [rewritePass_word, List.length_take]
  omega

end Pass

/-! ## The stages of a run -/

variable {G σ : Type} [SeededSource G Float]

theorem RunPlan.within_of_lt_lastStage {plan : RunPlan} {source : G} {k : Nat}
    (hk : k < plan.lastStage source) :
    (plan.stage source k).word.length < plan.settings.lengthLimit := by
  have hopen : ¬plan.EndsAt source k := Nat.find_min _ hk
  have hpasses : k < plan.passes :=
    hk.trans_le (plan.lastStage_le_passes source)
  by_contra hfull
  apply hopen
  apply Or.inr
  rw [RunPlan.endReason?, if_pos ⟨hpasses, Nat.not_lt.mp hfull⟩]
  cases plan.passReason? source k <;> simp

theorem RunPlan.lastStage_eq_zero {plan : RunPlan} (source : G)
    (hfull : plan.settings.lengthLimit ≤ plan.start.length) :
    plan.lastStage source = 0 := by
  by_contra hsome
  have hwithin :=
    RunPlan.within_of_lt_lastStage (Nat.pos_of_ne_zero hsome)
  exact absurd hfull (Nat.not_le.mpr hwithin)

theorem RunPlan.length_stage_succ (e : Engine G) (requested : Int) (source : G)
    (hrules : ∀ r ∈ e.rules, r.successor ≠ []) {k : Nat}
    (hk : k < (RunPlan.ofEngine requested e).lastStage source) :
    let plan := RunPlan.ofEngine requested e
    let word := (plan.stage source k).word
    let next := (plan.stage source (k + 1)).word
    word.length ≤ next.length ∧
      next.length ≤ max 1 (Rule.longestSuccessor e.rules) * word.length ∧
      next.length ≤ e.settings.lengthLimit :=
  length_rewritePass_within hrules _ _ (RunPlan.within_of_lt_lastStage hk).le

theorem RunPlan.length_start_le_stage (e : Engine G) (requested : Int)
    (source : G) (hrules : ∀ r ∈ e.rules, r.successor ≠ []) {k : Nat}
    (hk : k ≤ (RunPlan.ofEngine requested e).lastStage source) :
    e.start.length ≤
      ((RunPlan.ofEngine requested e).stage source k).word.length := by
  induction k with
  | zero => exact Nat.le_refl _
  | succ k ih =>
      have hgrown :=
        (RunPlan.length_stage_succ e requested source hrules hk).1
      exact (ih (Nat.le_of_succ_le hk)).trans hgrown

theorem RunPlan.length_stage_le (e : Engine G) (requested : Int) (source : G)
    (hrules : ∀ r ∈ e.rules, r.successor ≠ []) {k : Nat}
    (hk : k ≤ (RunPlan.ofEngine requested e).lastStage source) :
    ((RunPlan.ofEngine requested e).stage source k).word.length ≤
      max e.settings.lengthLimit e.start.length := by
  cases k with
  | zero => exact Nat.le_max_right _ _
  | succ k =>
      have hlimit :=
        (RunPlan.length_stage_succ e requested source hrules hk).2.2
      exact hlimit.trans (Nat.le_max_left _ _)

/-- The words of the first `k` stages, the word that a run starts from
included. -/
def RunPlan.wordsUpTo (plan : RunPlan) (source : G) (k : Nat) : List Word :=
  (List.range (k + 1)).map fun j => (plan.stage source j).word

theorem RunPlan.start_cons_toldUpTo (plan : RunPlan) (source : G) (k : Nat) :
    plan.start :: (plan.toldUpTo source k).map Prod.snd =
      plan.wordsUpTo source k := by
  rw [RunPlan.wordsUpTo, List.range_succ_eq_map, List.map_cons,
    RunPlan.toldUpTo, List.map_map, List.map_map]
  rfl

theorem RunPlan.exists_of_getElem?_wordsUpTo {plan : RunPlan} {source : G}
    {k j : Nat} {word next : Word}
    (hword : (plan.wordsUpTo source k)[j]? = some word)
    (hnext : (plan.wordsUpTo source k)[j + 1]? = some next) :
    j < k ∧ word = (plan.stage source j).word ∧
      next = (plan.stage source (j + 1)).word := by
  have hj : j < k := by
    obtain ⟨hlength, _⟩ := List.getElem?_eq_some_iff.mp hnext
    simpa [RunPlan.wordsUpTo] using hlength
  rw [RunPlan.wordsUpTo, List.getElem?_map,
    List.getElem?_range (by omega)] at hword hnext
  exact ⟨hj, (Option.some.inj hword).symm, (Option.some.inj hnext).symm⟩

/-! ## The words of a run -/

theorem Rule.successor_ne_nil {r : Rule Float} (hvalid : r.isValid = true) :
    r.successor ≠ [] := by
  rintro hempty
  simp only [Rule.isValid, Rule.fault?, hempty] at hvalid
  split at hvalid <;> simp at hvalid

/-- A run that does not fail starts from a word with symbols and ends at a
stage of its plan. -/
theorem Run.exists_told_eq_of_status (run : Run G σ) (requested : Int)
    (observer : Observer G σ) {result : RunResult}
    (hresult : (run.generate requested observer).1 = .ok result)
    (hstatus : result.status ≠ .failure) :
    let plan := RunPlan.ofEngine requested run.engine
    run.engine.start ≠ [] ∧ ∃ (source : G) (k : Nat)
      (early : Option StopReason),
      k ≤ plan.lastStage source ∧
      run.told requested observer = plan.toldUpTo source k ∧
      result = plan.resultAt requested source k early := by
  rcases run.generate_not_begun requested observer with
    ⟨fault, _, hfailed⟩ | ⟨fault, _, _, hrefused⟩ | ⟨source, hfault, hsource⟩
  · rw [hfailed] at hresult
    obtain rfl := Except.ok.inj hresult
    exact absurd rfl hstatus
  · rw [hrefused] at hresult
    simp at hresult
  · obtain ⟨k, hk, htold, hresults⟩ :=
      run.exists_told_eq observer requested hfault hsource
    obtain ⟨early, hearly⟩ := hresults result hresult
    refine ⟨?_, source, k, early, hk, htold, hearly⟩
    intro hempty
    simp [Run.startFault?, hempty] at hfault

/-- However a run of an engine is observed or cancelled, if it does not fail,
its words never become shorter, and each is at most as many times as long as
the one before it as the longest successor says.  All words but the first are
within the limit, and no pass is made over a first word that is not. -/
theorem word_lengths_of_run {e : Engine G} (hreach : e.Reachable)
    (requested : Int) (observer : Observer G σ) (cancelled : Bool)
    (memory : σ) {result : RunResult}
    (hresult : (Run.generate requested observer
      { engine := e, cancelled, memory }).1 = .ok result)
    (hstatus : result.status ≠ .failure) :
    let words := e.start :: (Run.told requested observer
      { engine := e, cancelled, memory }).map Prod.snd
    words.length = result.statistics.passes + 1 ∧
      words.getLast? = some result.word ∧
      (e.settings.keepHistory = true → result.history = words) ∧
      (∀ k word next, words[k]? = some word → words[k + 1]? = some next →
        word.length ≤ next.length ∧
          next.length ≤
            max 1 (Rule.longestSuccessor e.rules) * word.length ∧
          next.length ≤ e.settings.lengthLimit) ∧
      (e.settings.lengthLimit ≤ e.start.length →
        result.statistics.passes = 0 ∧ result.word = e.start) ∧
      result.word ≠ [] ∧ e.start.length ≤ result.word.length ∧
      result.word.length ≤ max e.settings.lengthLimit e.start.length := by
  have hrules : ∀ r ∈ e.rules, r.successor ≠ [] := by
    intro r hr
    exact Rule.successor_ne_nil (hreach.isValid_of_mem r hr)
  let run : Run G σ := { engine := e, cancelled, memory }
  obtain ⟨hstart, source, k, early, hk, htold, rfl⟩ :=
    run.exists_told_eq_of_status requested observer hresult hstatus
  have hgrown := RunPlan.length_start_le_stage e requested source hrules hk
  intro words
  have hwords : words =
      (RunPlan.ofEngine requested e).wordsUpTo source k := by
    rw [← RunPlan.start_cons_toldUpTo, ← htold]
    rfl
  rw [hwords]
  refine ⟨?_, ?_, ?_, ?_, ?_, ?_, hgrown,
    RunPlan.length_stage_le e requested source hrules hk⟩
  · simp [RunPlan.wordsUpTo, RunPlan.resultAt]
  · simp [RunPlan.wordsUpTo, List.range_succ, RunPlan.resultAt, run]
  · intro hkeep
    exact if_pos hkeep
  · intro j word next hword hnext
    obtain ⟨hj, rfl, rfl⟩ := RunPlan.exists_of_getElem?_wordsUpTo hword hnext
    exact RunPlan.length_stage_succ e requested source hrules
      (hj.trans_le hk)
  · intro hfull
    have hzero : (RunPlan.ofEngine requested e).lastStage source = 0 :=
      RunPlan.lastStage_eq_zero source hfull
    obtain rfl : k = 0 := Nat.le_zero.mp (hk.trans_eq hzero)
    exact ⟨rfl, rfl⟩
  · intro hempty
    have hpositive := List.length_pos_of_ne_nil hstart
    have hzero : ((RunPlan.ofEngine requested e).stage source k).word.length =
        0 := congrArg List.length hempty
    exact absurd (hgrown.trans_eq hzero) (Nat.not_le.mpr hpositive)

def Engine.dormant : Engine Pcg64 :=
  { Engine.sample with
    rules := []
    settings :=
      { Engine.sample.settings with
        lengthLimit := 4
        lengthLimit_pos := by decide
        lengthLimit_le := by decide }
    progress := { word := ['A'] } }

/-- An engine that has refused a rule without symbols and let in two others. -/
def Engine.budding : Engine Pcg64 :=
  (Operation.performAll .dormant
    [.addRule (.ofWords [] ['A'] [] [] 1.0),
      .addRule (.ofWords [] ['A'] [] ['A', 'B'] 1.0),
      .addRule (.ofWords [] ['B'] [] ['A'] 1.0)]).1

theorem Engine.reachable_budding : Engine.budding.Reachable := by
  have hcreate : Engine.create ['A'] Engine.dormant.settings 0 =
      .ok Engine.dormant := rfl
  have hdormant : Engine.dormant.Reachable := .created hcreate
  exact hdormant.performAll _

theorem word_lengths_of_run_sample :
    let e := Engine.budding
    e.Reachable ∧ ∃ result, (Run.generate 5 (.idle : Observer Pcg64 Unit)
        { engine := e, cancelled := false, memory := () }).1 = .ok result ∧
      result.status ≠ .failure ∧ result.statistics.passes = 3 ∧
      result.word = ['A', 'B', 'A', 'A'] ∧
      e.start.length ≤ result.word.length ∧
      result.word.length ≤ max e.settings.lengthLimit e.start.length := by
  intro e
  have hsummary : ((Run.generate 5 (.idle : Observer Pcg64 Unit)
      { engine := e, cancelled := false, memory := () }).1.map fun result =>
        (result.status, result.statistics.passes, result.word)).toOption =
      some (.success, 3, ['A', 'B', 'A', 'A']) := by decide +kernel
  cases hresult : (Run.generate 5 (.idle : Observer Pcg64 Unit)
      { engine := e, cancelled := false, memory := () }).1 with
  | error fault =>
      rw [hresult] at hsummary
      simp [Except.map, Except.toOption] at hsummary
  | ok result =>
      rw [hresult] at hsummary
      simp only [Except.map, Except.toOption, Option.some.injEq,
        Prod.mk.injEq] at hsummary
      obtain ⟨hsuccess, hpasses, hword⟩ := hsummary
      have hstatus : result.status ≠ .failure := by simp [hsuccess]
      have hlengths := word_lengths_of_run Engine.reachable_budding 5 .idle
        false () hresult hstatus
      obtain ⟨_, _, _, _, _, _, hgrown, hlimit⟩ := hlengths
      exact ⟨Engine.reachable_budding, result, rfl, hstatus, hpasses, hword,
        hgrown, hlimit⟩

end TreeGrowth
