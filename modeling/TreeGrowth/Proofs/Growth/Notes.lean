import TreeGrowth.Grammar.Generation

/-!
# What a run does to its engine

A run notes its progress, its statistics and its reports with the engine, and
takes a number for its source.  All else about the engine is left to whoever
observes the run.  So a property of engines that does not look at these notes
survives every run whose observer keeps it.
-/

namespace TreeGrowth

variable {G σ : Type}

/-- The property does not look at what a run notes with an engine. -/
def Engine.Unnoted (property : Engine G → Prop) : Prop :=
  ∀ (e : Engine G) progress statistics entropy journal, property e →
    property { e with progress, statistics, entropy, journal }

/-- The property does not look at what a single pass notes with an engine. -/
def Engine.UnnotedByPass (property : Engine G → Prop) : Prop :=
  ∀ (e : Engine G) passes fraction word journal, property e →
    property { e with
      progress := { e.progress with passes, fraction, word }
      journal }

structure Observer.Preserves (observer : Observer G σ)
    (property : Engine G → Prop) : Prop where
  onPass : ∀ passes word (run : Run G σ), property run.engine →
    property (observer.onPass passes word run).1.engine
  onProgress : ∀ fraction (run : Run G σ), property run.engine →
    property (observer.onProgress fraction run).1.engine

variable {observer : Observer G σ} {property : Engine G → Prop}

theorem Engine.Unnoted.byPass (hnotes : Engine.Unnoted property) :
    Engine.UnnotedByPass property := by
  intro e passes fraction word journal he
  exact hnotes e _ e.statistics e.entropy journal he

theorem Growth.notify_preserves (hobserver : observer.Preserves property)
    (plan : RunPlan) (g : Growth G σ) (hg : property g.run.engine) :
    property (g.notify plan observer).1.run.engine := by
  have hpass := hobserver.onPass g.passes g.word g.run hg
  unfold Growth.notify
  split
  next run message hbroken =>
    rw [hbroken] at hpass
    exact hpass
  next run hwent =>
    rw [hwent] at hpass
    exact hobserver.onProgress _ run hpass

variable [SeededSource G Float]

theorem Growth.step_preserves (hnotes : Engine.UnnotedByPass property)
    (hobserver : observer.Preserves property) (plan : RunPlan)
    (g : Growth G σ) (hg : property g.run.engine) :
    property (g.step plan observer).1.run.engine := by
  have hrewrite : property (g.rewrite plan).1.run.engine :=
    hnotes g.run.engine _ _ _ _ hg
  have hnotify := Growth.notify_preserves hobserver plan _ hrewrite
  unfold Growth.step
  split
  next => exact hg
  next =>
    simp only
    split
    next next' message hbroken =>
      rw [hbroken] at hnotify
      exact hnotify
    next next' hwent =>
      rw [hwent] at hnotify
      split
      next => exact hnotes next'.run.engine _ _ _ _ hnotify
      next =>
        split
        next => exact hnotes next'.run.engine _ _ _ _ hnotify
        next => exact hnotify

theorem Growth.advance_preserves (hnotes : Engine.UnnotedByPass property)
    (hobserver : observer.Preserves property) (plan : RunPlan) (left : Nat)
    (g : Growth G σ) (hg : property g.run.engine) :
    property (g.advance plan observer left).1.run.engine := by
  induction left generalizing g with
  | zero => exact hg
  | succ left ih =>
      have hstep := Growth.step_preserves hnotes hobserver plan g hg
      rw [Growth.advance]
      split
      next next' hwent =>
        rw [hwent] at hstep
        exact ih next' hstep
      next next' halt hstopped =>
        rw [hstopped] at hstep
        exact hstep

omit [SeededSource G Float] in
theorem Growth.finish_preserves (hnotes : Engine.Unnoted property)
    (plan : RunPlan) (requested : Int) (early : Option StopReason)
    (g : Growth G σ) (hg : property g.run.engine) :
    property (g.finish plan requested early).2.engine := by
  unfold Growth.finish
  simp only
  split
  next => exact hnotes g.run.engine _ _ _ _ hg
  next => exact hnotes g.run.engine _ _ _ _ hg
  next => exact hnotes g.run.engine _ _ _ _ hg

/-- A run leaves alone what it does not note, unless its observer changes
it. -/
theorem Run.generate_preserves (hnotes : Engine.Unnoted property)
    (hobserver : observer.Preserves property) (requested : Int)
    (run : Run G σ) (hrun : property run.engine) :
    property (run.generate requested observer).2.engine := by
  unfold Run.generate
  split
  next => exact hnotes run.engine _ _ _ _ hrun
  next =>
    simp only
    split
    next => exact hrun
    next source _ =>
      have hbegin : property (run.begin
          (RunPlan.ofEngine requested run.engine) source).run.engine :=
        hnotes run.engine _ _ _ _ hrun
      have hadvance := Growth.advance_preserves hnotes.byPass hobserver
        (RunPlan.ofEngine requested run.engine)
        (RunPlan.ofEngine requested run.engine).passes _ hbegin
      split
      next g message hbroken =>
        rw [hbroken] at hadvance
        exact hadvance
      next g reason hstopped =>
        rw [hstopped] at hadvance
        exact Growth.finish_preserves hnotes _ requested (some reason) g
          hadvance
      next g hwent =>
        rw [hwent] at hadvance
        exact Growth.finish_preserves hnotes _ requested none g hadvance

end TreeGrowth
