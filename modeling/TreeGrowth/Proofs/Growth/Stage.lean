import TreeGrowth.Grammar.Generation
import Mathlib

/-!
# The stages of a run

What a run computes is settled when it begins: its words, its tally and its
source after any number of passes depend on the plan and the first source
alone, whatever observers do to the engine meanwhile.  These are the stages of
the plan.  Observers decide only how far the run gets, by cancelling it or by
breaking it off; left alone, it ends at the first stage with a reason to stop.

The invariant ties a run under way to its stage, and an observer may add an
invariant of its own, on whatever it keeps in its memory.
-/

namespace TreeGrowth

variable {G σ : Type} [SeededSource G Float]

/-! ## Stages of a plan -/

/-- What a run has come to after a number of passes. -/
def RunPlan.stage (plan : RunPlan) (source : G) : Nat → Pass G
  | 0 => { word := plan.start, truncated := false, tally := {}, source }
  | k + 1 =>
      rewritePass plan.table plan.settings.lengthLimit
        (plan.stage source k).tally (plan.stage source k).source
        (plan.stage source k).word

def RunPlan.historyAt (plan : RunPlan) (source : G) (k : Nat) : List Word :=
  if plan.settings.keepHistory then
    (List.range (k + 1)).map fun j => (plan.stage source j).word
  else []

/-- The reason that the pass to a stage gives to stop there. -/
def RunPlan.passReason? (plan : RunPlan) (source : G) :
    Nat → Option StopReason
  | 0 => none
  | k + 1 =>
      if (plan.stage source (k + 1)).truncated then some .lengthLimit
      else if (plan.stage source (k + 1)).word = (plan.stage source k).word then
        some .fixedPoint
      else none

/-- The reason to stop early at a stage: that of the pass to it, or the length
of its word if more passes are to be made. -/
def RunPlan.endReason? (plan : RunPlan) (source : G) (k : Nat) :
    Option StopReason :=
  (plan.passReason? source k).or
    (if k < plan.passes ∧
        plan.settings.lengthLimit ≤ (plan.stage source k).word.length then
      some .lengthLimit
    else none)

theorem RunPlan.endReason?_ne_cancelled (plan : RunPlan) (source : G)
    (k : Nat) : plan.endReason? source k ≠ some .cancelled := by
  cases k with
  | zero =>
      simp only [RunPlan.endReason?, RunPlan.passReason?]
      split <;> simp
  | succ k =>
      simp only [RunPlan.endReason?, RunPlan.passReason?]
      split
      next => simp
      next =>
        split
        next => simp
        next => split <;> simp

def RunPlan.EndsAt (plan : RunPlan) (source : G) (k : Nat) : Prop :=
  plan.passes ≤ k ∨ plan.endReason? source k ≠ none

instance (plan : RunPlan) (source : G) :
    DecidablePred (plan.EndsAt source) :=
  fun _ => inferInstanceAs (Decidable (_ ∨ _))

theorem RunPlan.exists_endsAt (plan : RunPlan) (source : G) :
    ∃ k, plan.EndsAt source k :=
  ⟨plan.passes, Or.inl le_rfl⟩

/-- The stage at which a run ends that is left alone. -/
def RunPlan.lastStage (plan : RunPlan) (source : G) : Nat :=
  Nat.find (plan.exists_endsAt source)

theorem RunPlan.endsAt_lastStage (plan : RunPlan) (source : G) :
    plan.EndsAt source (plan.lastStage source) :=
  Nat.find_spec (plan.exists_endsAt source)

theorem RunPlan.lastStage_le_passes (plan : RunPlan) (source : G) :
    plan.lastStage source ≤ plan.passes :=
  Nat.find_min' _ (Or.inl le_rfl)

theorem RunPlan.lastStage_eq {plan : RunPlan} {source : G} {k : Nat}
    (hend : plan.EndsAt source k)
    (hopen : ∀ j < k, ¬plan.EndsAt source j) :
    plan.lastStage source = k :=
  (Nat.find_eq_iff _).mpr ⟨hend, hopen⟩

theorem RunPlan.le_lastStage {plan : RunPlan} {source : G} {k : Nat}
    (hopen : ∀ j < k, ¬plan.EndsAt source j) :
    k ≤ plan.lastStage source :=
  (Nat.le_find_iff _ _).mpr hopen

theorem RunPlan.truncated_eq_false_of_lt {plan : RunPlan} {source : G}
    {k : Nat} (hk : k < plan.lastStage source) :
    (plan.stage source k).truncated = false := by
  have hopen : ¬plan.EndsAt source k := Nat.find_min _ hk
  cases k with
  | zero => rfl
  | succ k =>
      by_contra htruncated
      apply hopen
      refine Or.inr ?_
      rw [RunPlan.endReason?, RunPlan.passReason?,
        if_pos (by simpa using htruncated)]
      simp

def RunPlan.resultAt (plan : RunPlan) (requested : Int) (source : G) (k : Nat)
    (early : Option StopReason) : RunResult :=
  let reason := early.getD
    (if (plan.settings.passLimit : Int) < requested then .passLimit
     else .completed)
  { word := (plan.stage source k).word
    status := if reason = .cancelled then .cancelled else .success
    history := plan.historyAt source k
    statistics :=
      { passes := k
        length := (plan.stage source k).word.length
        tally := (plan.stage source k).tally
        symbols := SymbolCounts.ofWord (plan.stage source k).word
        reason } }

theorem RunPlan.status_resultAt_ne_cancelled (plan : RunPlan)
    (requested : Int) (source : G) (k : Nat) {early : Option StopReason}
    (hearly : early ≠ some .cancelled) :
    (plan.resultAt requested source k early).status ≠ .cancelled := by
  have hreason : early.getD
      (if (plan.settings.passLimit : Int) < requested then .passLimit
       else .completed) ≠ .cancelled := by
    cases early with
    | none =>
        simp only [Option.getD_none]
        split <;> simp
    | some reason => simpa using hearly
  simp [RunPlan.resultAt, hreason]

/-! ## A run under way and its stage -/

structure Growth.AtStage (plan : RunPlan) (source : G) (k : Nat)
    (g : Growth G σ) : Prop where
  word : g.word = (plan.stage source k).word
  passes : g.passes = k
  history : g.history.toList = plan.historyAt source k
  tally : g.tally = (plan.stage source k).tally
  source : g.source = (plan.stage source k).source

variable {plan : RunPlan} {source : G} {k : Nat}

theorem Growth.atStage_begin (plan : RunPlan) (source : G) (run : Run G σ) :
    (run.begin plan source).AtStage plan source 0 := by
  constructor <;> try rfl
  cases hkeep : plan.settings.keepHistory <;>
    simp [Run.begin, RunPlan.historyAt, RunPlan.stage, hkeep]

theorem Growth.AtStage.withRun {g : Growth G σ}
    (hstage : g.AtStage plan source k) (run : Run G σ) :
    ({ g with run } : Growth G σ).AtStage plan source k :=
  ⟨hstage.word, hstage.passes, hstage.history, hstage.tally, hstage.source⟩

theorem Growth.AtStage.rewrite {g : Growth G σ}
    (hstage : g.AtStage plan source k) :
    (g.rewrite plan).1.AtStage plan source (k + 1) := by
  obtain ⟨hword, hpasses, hhistory, htally, hsource⟩ := hstage
  constructor
  · simp [Growth.rewrite, RunPlan.stage, hword, htally, hsource]
  · simp [Growth.rewrite, hpasses]
  · cases hkeep : plan.settings.keepHistory with
    | false => simpa [Growth.rewrite, RunPlan.historyAt, hkeep] using hhistory
    | true =>
        simp only [RunPlan.historyAt, hkeep, if_true] at hhistory ⊢
        rw [List.range_succ, List.map_append, ← hhistory]
        simp [Growth.rewrite, RunPlan.stage, hkeep, hword, htally, hsource]
  · simp [Growth.rewrite, RunPlan.stage, hword, htally, hsource]
  · simp [Growth.rewrite, RunPlan.stage, hword, htally, hsource]

theorem Growth.AtStage.rewrite_truncated {g : Growth G σ}
    (hstage : g.AtStage plan source k) :
    (g.rewrite plan).2 = (plan.stage source (k + 1)).truncated := by
  simp [Growth.rewrite, RunPlan.stage, hstage.word, hstage.tally,
    hstage.source]

end TreeGrowth
