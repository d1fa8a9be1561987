import TreeGrowth.Proofs.Growth.Notes
import TreeGrowth.Proofs.Growth.Told

/-!
# Single passes and runs

An engine makes single passes with a source of its own, which goes on from one
pass to the next, while every run starts a source anew.  Just after the
engine's source was started from the seed of its settings, the two begin with
the same draws.  So single passes that take up each other's words make the
words of a run, as far as the run goes; and since a run leaves the engine's
source alone, runs in between make no difference.
-/

namespace TreeGrowth

variable {G σ : Type} [SeededSource G Float]

/-! ## The tally only counts -/

theorem Scan.word_withTally (table : RuleTable Float) (limit : Nat)
    (left : Option Char) (word : Word) (scan : Scan G) (tally : Tally) :
    ∃ counted,
      Scan.word table limit left word { scan with tally } =
        ({ (Scan.word table limit left word scan).1 with tally := counted },
          (Scan.word table limit left word scan).2) := by
  induction word generalizing left scan tally with
  | nil => exact ⟨tally, rfl⟩
  | cons c rest ih =>
      obtain ⟨counted, hsymbol⟩ : ∃ counted,
          Scan.symbol table left c rest.head? { scan with tally } =
            { Scan.symbol table left c rest.head? scan with
              tally := counted } := ⟨_, rfl⟩
      simp only [Scan.word, hsymbol]
      by_cases hfull :
          limit < (Scan.symbol table left c rest.head? scan).output.size
      · simp only [if_pos hfull]
        exact ⟨counted, rfl⟩
      · simp only [if_neg hfull]
        exact ih (some c) _ counted

theorem rewritePass_withTally (table : RuleTable Float) (limit : Nat)
    (tally tally' : Tally) (source : G) (word : Word) :
    (rewritePass table limit tally' source word).word =
        (rewritePass table limit tally source word).word ∧
      (rewritePass table limit tally' source word).source =
        (rewritePass table limit tally source word).source := by
  obtain ⟨counted, hword⟩ := Scan.word_withTally table limit none word
    { output := #[], tally, source } tally'
  simp only [rewritePass, hword]
  exact ⟨trivial, trivial⟩

/-! ## What a run leaves alone -/

/-- Two states of an engine in which single passes go on alike. -/
structure Engine.PassesAlike (e e' : Engine G) : Prop where
  rules : e'.rules = e.rules
  settings : e'.settings = e.settings
  source : e'.source = e.source

omit [SeededSource G Float] in
theorem Engine.PassesAlike.refl (e : Engine G) : e.PassesAlike e :=
  ⟨rfl, rfl, rfl⟩

omit [SeededSource G Float] in
theorem Engine.PassesAlike.trans {e₁ e₂ e₃ : Engine G}
    (hfirst : e₁.PassesAlike e₂) (hnext : e₂.PassesAlike e₃) :
    e₁.PassesAlike e₃ :=
  ⟨hnext.rules.trans hfirst.rules, hnext.settings.trans hfirst.settings,
    hnext.source.trans hfirst.source⟩

/-- The observer does nothing to the rules, the settings and the own source of
an engine. -/
structure Observer.Spares (observer : Observer G σ) : Prop where
  onPass : ∀ passes word (run : Run G σ),
    run.engine.PassesAlike (observer.onPass passes word run).1.engine
  onProgress : ∀ fraction (run : Run G σ),
    run.engine.PassesAlike (observer.onProgress fraction run).1.engine

omit [SeededSource G Float] in
theorem Observer.idle_spares : (Observer.idle : Observer G σ).Spares :=
  ⟨fun _ _ run => .refl run.engine, fun _ run => .refl run.engine⟩

variable {observer : Observer G σ}

/-- A run draws from a source of its own and leaves that of the engine as it
is. -/
theorem Run.generate_passesAlike (hspares : observer.Spares) (requested : Int)
    (run : Run G σ) :
    run.engine.PassesAlike (run.generate requested observer).2.engine := by
  have hnotes : Engine.Unnoted run.engine.PassesAlike := by
    intro e progress statistics entropy journal halike
    exact ⟨halike.rules, halike.settings, halike.source⟩
  have hobserver : observer.Preserves run.engine.PassesAlike := by
    constructor
    · intro passes word other halike
      exact halike.trans (hspares.onPass passes word other)
    · intro fraction other halike
      exact halike.trans (hspares.onProgress fraction other)
  exact Run.generate_preserves hnotes hobserver requested run (.refl _)

/-! ## Passes one by one -/

/-- Single passes of an engine, each of which takes up the word of the one
before it.  There may be runs in between, of any length and with any observer
that spares the engine. -/
inductive Engine.Stepwise (e : Engine G) : Nat → Engine G → Word → Prop
  | start : Engine.Stepwise e 0 e e.start
  | pass {k : Nat} {e' : Engine G} {word : Word}
      (hsteps : Engine.Stepwise e k e' word) :
      Engine.Stepwise e (k + 1) (e'.singlePass word).1
        (e'.singlePass word).2
  | run {σ : Type} {k : Nat} {e' : Engine G} {word : Word}
      (hsteps : Engine.Stepwise e k e' word) (requested : Int)
      (observer : Observer G σ) (hspares : observer.Spares)
      (cancelled : Bool) (memory : σ) :
      Engine.Stepwise e k
        (Run.generate requested observer
          { engine := e', cancelled, memory }).2.engine word

theorem Engine.Stepwise.eq_stage {e e' : Engine G} {k : Nat} {word : Word}
    (hsteps : e.Stepwise k e' word) (n : Int) :
    e'.rules = e.rules ∧ e'.settings = e.settings ∧
      e'.source = ((RunPlan.ofEngine n e).stage e.source k).source ∧
      word = ((RunPlan.ofEngine n e).stage e.source k).word := by
  induction hsteps with
  | start => exact ⟨rfl, rfl, rfl, rfl⟩
  | @pass k e' word _ ih =>
      obtain ⟨hrules, hsettings, hsource, hword⟩ := ih
      refine ⟨hrules, hsettings, ?_⟩
      obtain ⟨hpass, hdrawn⟩ := rewritePass_withTally
        (RunPlan.ofEngine n e).table e.settings.lengthLimit
        ((RunPlan.ofEngine n e).stage e.source k).tally {} e'.source word
      simp only [Engine.singlePass, hrules, hsettings]
      rw [RunPlan.stage, ← hsource, ← hword]
      exact ⟨hdrawn, hpass⟩
  | @run σ k e' word _ requested observer hspares cancelled memory ih =>
      obtain ⟨hrules, hsettings, hsource, hword⟩ := ih
      have halike := Run.generate_passesAlike hspares requested
        { engine := e', cancelled, memory }
      exact ⟨halike.rules.trans hrules, halike.settings.trans hsettings,
        halike.source.trans hsource, hword⟩

theorem Engine.exists_stepwise (e : Engine G) (k : Nat) :
    ∃ e' word, e.Stepwise k e' word := by
  induction k with
  | zero => exact ⟨e, e.start, .start⟩
  | succ k ih =>
      obtain ⟨e', word, hsteps⟩ := ih
      exact ⟨_, _, hsteps.pass⟩

/-! ## Engines that have just been seeded -/

/-- Nothing has been drawn from the engine's own source since it was started
from the seed of the settings: when the engine was made, with new settings, or
with a new seed.  The start word and the rules may have been set since. -/
inductive Engine.JustSeeded : Engine G → Prop
  | created {start : Word} {settings : GrowthSettings} {entropy : Nat}
      {e : Engine G} (hcreate : Engine.create start settings entropy = .ok e) :
      Engine.JustSeeded e
  | restarted {start : Word} {settings : GrowthSettings} {e e' : Engine G}
      (hrestart : e.restart start (some settings) = (e', .ok ())) :
      Engine.JustSeeded e'
  | reseeded {seed : Int} {e e' : Engine G}
      (hreseed : e.reseed seed = (e', .ok ())) : Engine.JustSeeded e'
  | edited {e e' : Engine G} (hseeded : Engine.JustSeeded e)
      (hsettings : e'.settings = e.settings) (hsource : e'.source = e.source) :
      Engine.JustSeeded e'

theorem Engine.source_of_restartSource {e e' : Engine G}
    (hrestart : e.restartSource = .ok e') (hseed : 0 < e'.settings.seed) :
    e'.source = SeededSource.ofEntropy e'.settings.seed.toNat := by
  rw [Engine.restartSource] at hrestart
  cases hsource : SeededSource.ofSeed (G := G) e.entropy e.settings.seed with
  | error fault => simp [hsource, Except.map] at hrestart
  | ok source =>
      rw [hsource] at hrestart
      obtain rfl := Except.ok.inj hrestart
      rw [SeededSource.ofSeed_of_pos e.entropy hseed] at hsource
      exact (Except.ok.inj hsource).symm

theorem Engine.JustSeeded.source_eq {e : Engine G} (hseeded : e.JustSeeded)
    (hseed : 0 < e.settings.seed) :
    e.source = SeededSource.ofEntropy e.settings.seed.toNat := by
  induction hseeded with
  | @created start settings entropy e hcreate =>
      cases hsource : SeededSource.ofSeed (G := G) entropy settings.seed with
      | error fault =>
          simp [Engine.create, hsource, bind, Except.bind] at hcreate
      | ok source =>
          simp only [Engine.create, hsource, bind, Except.bind, pure,
            Except.pure, Except.ok.injEq] at hcreate
          subst hcreate
          rw [SeededSource.ofSeed_of_pos entropy hseed] at hsource
          exact (Except.ok.inj hsource).symm
  | @restarted start settings e e' hrestart =>
      simp only [Engine.restart] at hrestart
      split at hrestart
      next fault _ hrefused => simp at hrestart
      next next' _ hrestarted =>
        obtain ⟨rfl, _⟩ := Prod.mk.inj hrestart
        have hnext : 0 < next'.settings.seed := hseed
        have hsource := Engine.source_of_restartSource
          (Prod.mk.inj hrestarted).1 hnext
        exact hsource
  | @reseeded seed e e' hreseed =>
      simp only [Engine.reseed] at hreseed
      split at hreseed
      next next' hrestarted =>
        obtain ⟨rfl, _⟩ := Prod.mk.inj hreseed
        exact Engine.source_of_restartSource hrestarted hseed
      next fault hrefused => simp at hreseed
  | edited _ hsettings hsource ih =>
      rw [hsource, hsettings]
      exact ih (hsettings ▸ hseed)

/-! ## The words of a run -/

theorem RunPlan.getElem?_toldUpTo (plan : RunPlan) (source : G) {j k : Nat}
    (hj : j < k) :
    (plan.toldUpTo source k)[j]? =
      some (j + 1, (plan.stage source (j + 1)).word) := by
  simp [RunPlan.toldUpTo, hj]

theorem RunPlan.getElem?_historyAt (plan : RunPlan) (source : G) {j k : Nat}
    (hj : j ≤ k) (hkeep : plan.settings.keepHistory = true) :
    (plan.historyAt source k)[j]? = some (plan.stage source j).word := by
  rw [RunPlan.historyAt, if_pos hkeep, List.getElem?_map,
    List.getElem?_range (by omega), Option.map_some]

/-- Single passes of an engine that has just been seeded make the words of a
run of this engine, as far as the run goes, whatever runs there are in
between. -/
theorem stepwise_words_eq_told (e : Engine G) (hseeded : e.JustSeeded)
    (hseed : 0 < e.settings.seed) (n : Int) :
    ∃ result, (e.generate n).1 = .ok result ∧
      (e.told n).length = result.statistics.passes ∧
      ∀ k < result.statistics.passes,
        (∃ e' word, e.Stepwise (k + 1) e' word) ∧
        ∀ e' word, e.Stepwise (k + 1) e' word →
          (e.told n)[k]? = some (k + 1, word) ∧
          (e.settings.keepHistory = true →
            result.history[k + 1]? = some word) := by
  let run : Run G Unit := ⟨e, false, ()⟩
  have hsource := SeededSource.ofSeed_of_pos (G := G) e.entropy hseed
  cases hfault : run.startFault? with
  | some fault =>
      refine ⟨.failed fault.message, ?_, ?_, ?_⟩
      · simp only [Engine.generate, Run.generate, hfault, run]
      · rw [Engine.told, Run.told_eq_nil n hfault]
        rfl
      · intro k hk
        exact absurd hk (Nat.not_lt_zero k)
  | none =>
      have hwhole := run.generate_eq_lastStage .idle n hfault hsource
        (run.generate_idle_ne_broken n)
        (fun _ => Run.status_ne_cancelled_of_patient n Observer.idle_patient
          rfl)
      refine ⟨_, hwhole, ?_, ?_⟩
      · rw [e.told_eq n hfault hsource]
        exact RunPlan.length_toldUpTo _ _ _
      · intro k hk
        refine ⟨e.exists_stepwise (k + 1), fun e' word hsteps => ?_⟩
        have hlast : k < (RunPlan.ofEngine n e).lastStage
            (SeededSource.ofEntropy e.settings.seed.toNat : G) := hk
        obtain ⟨_, _, _, hword⟩ := hsteps.eq_stage n
        rw [hseeded.source_eq hseed] at hword
        rw [e.told_eq n hfault hsource, RunPlan.getElem?_toldUpTo _ _ hlast,
          hword]
        exact ⟨rfl, fun hkeep =>
          RunPlan.getElem?_historyAt _ _ (Nat.succ_le_of_lt hlast) hkeep⟩

/-- An engine with two rules for one symbol, so that its passes have to
draw. -/
def Engine.tossing : Engine Pcg64 :=
  { Engine.sample with
    rules :=
      [.ofWords [] ['A'] [] ['A', 'B'] 0.5,
        .ofWords [] ['A'] [] ['A', 'A'] 0.5] }

theorem stepwise_words_eq_told_sample :
    let e := Engine.tossing
    let first := e.singlePass e.start
    let second := (first.1.generate 2).2.singlePass first.2
    e.JustSeeded ∧ 0 < e.settings.seed ∧ (e.told 3).length = 3 ∧
      second.2 = ['A', 'B', 'A', 'A'] ∧
      (e.told 3)[1]? = some (2, second.2) := by
  intro e first second
  have hcreate : Engine.create (G := Pcg64) e.start e.settings 0 =
      .ok { Engine.tossing with rules := [], progress := { word := ['A'] } } :=
    rfl
  have hseeded : e.JustSeeded := .edited (.created hcreate) rfl rfl
  have hlength : (e.told 3).length = 3 := by decide +kernel
  have hsteps : e.Stepwise 2 second.1 second.2 :=
    .pass (.run (.pass .start) 2 .idle Observer.idle_spares false ())
  obtain ⟨result, _, hpasses, hwords⟩ :=
    stepwise_words_eq_told e hseeded (by decide) 3
  obtain ⟨_, htold⟩ := hwords 1 (by omega)
  exact ⟨hseeded, by decide, hlength, by decide +kernel,
    (htold _ _ hsteps).1⟩

end TreeGrowth
