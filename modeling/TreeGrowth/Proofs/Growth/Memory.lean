import TreeGrowth.Grammar.Generation

/-!
# The memory of an observer

A run never looks into the memory of its observer.  So if one observer does to
the image of a memory just what another does to the memory, then their runs
come to the same result, and the memories correspond all the way.
-/

namespace TreeGrowth

variable {G σ τ : Type}

def Run.mapMemory (f : σ → τ) (run : Run G σ) : Run G τ :=
  { engine := run.engine, cancelled := run.cancelled, memory := f run.memory }

def Growth.mapMemory (f : σ → τ) (g : Growth G σ) : Growth G τ :=
  { word := g.word, passes := g.passes, history := g.history,
    tally := g.tally, source := g.source, run := g.run.mapMemory f }

/-- The second observer does to the image of a memory what the first one does
to the memory. -/
structure Observer.Maps (f : σ → τ) (observer : Observer G σ)
    (observer' : Observer G τ) : Prop where
  onPass : ∀ passes word (run : Run G σ),
    observer'.onPass passes word (run.mapMemory f) =
      (observer.onPass passes word run).map (Run.mapMemory f) id
  onProgress : ∀ fraction (run : Run G σ),
    observer'.onProgress fraction (run.mapMemory f) =
      (observer.onProgress fraction run).map (Run.mapMemory f) id

variable {f : σ → τ} {observer : Observer G σ} {observer' : Observer G τ}

theorem Growth.mapMemory_notify (hmaps : observer.Maps f observer')
    (plan : RunPlan) (g : Growth G σ) :
    (g.mapMemory f).notify plan observer' =
      (g.notify plan observer).map (Growth.mapMemory f) id := by
  have hpass := hmaps.onPass g.passes g.word g.run
  simp only [Growth.notify]
  cases htold : observer.onPass g.passes g.word g.run with
  | mk run broken =>
      rw [htold] at hpass
      simp only [Growth.mapMemory, hpass, Prod.map_apply, id_eq]
      cases broken with
      | some message => rfl
      | none =>
          simp only [hmaps.onProgress]
          rfl

theorem Growth.mapMemory_finish (plan : RunPlan) (requested : Int)
    (early : Option StopReason) (g : Growth G σ) :
    (g.mapMemory f).finish plan requested early =
      (g.finish plan requested early).map id (Run.mapMemory f) := by
  rcases early with _ | _ | _ | _ | _ | _ <;> rfl

variable [SeededSource G Float]

theorem Growth.mapMemory_step (hmaps : observer.Maps f observer')
    (plan : RunPlan) (g : Growth G σ) :
    (g.mapMemory f).step plan observer' =
      (g.step plan observer).map (Growth.mapMemory f) id := by
  have hbefore : (g.mapMemory f).stopBefore? plan = g.stopBefore? plan := rfl
  have hrewrite : (g.mapMemory f).rewrite plan =
      (g.rewrite plan).map (Growth.mapMemory f) id := rfl
  unfold Growth.step
  rw [hbefore, hrewrite]
  cases g.stopBefore? plan with
  | some reason => rfl
  | none =>
      simp only [Prod.map_fst, Prod.map_snd, id_eq,
        Growth.mapMemory_notify hmaps]
      cases (g.rewrite plan).1.notify plan observer with
      | mk next broken =>
          cases broken with
          | some message => rfl
          | none =>
              -- Reports and words are the same before and after the map.
              by_cases htruncated : (g.rewrite plan).2 = true
              · simp only [Prod.map_apply, id_eq, if_pos htruncated]
                rfl
              · by_cases hsame : next.word = g.word
                · have hmapped : (next.mapMemory f).word =
                      (g.mapMemory f).word := hsame
                  simp only [Prod.map_apply, id_eq, if_neg htruncated,
                    if_pos hsame, if_pos hmapped]
                  rfl
                · have hmapped : (next.mapMemory f).word ≠
                      (g.mapMemory f).word := hsame
                  simp only [Prod.map_apply, id_eq, if_neg htruncated,
                    if_neg hsame, if_neg hmapped]

theorem Growth.mapMemory_advance (hmaps : observer.Maps f observer')
    (plan : RunPlan) (left : Nat) (g : Growth G σ) :
    (g.mapMemory f).advance plan observer' left =
      (g.advance plan observer left).map (Growth.mapMemory f) id := by
  induction left generalizing g with
  | zero => rfl
  | succ left ih =>
      simp only [Growth.advance, Growth.mapMemory_step hmaps]
      cases g.step plan observer with
      | mk next halt =>
          cases halt with
          | some halt => rfl
          | none => exact ih next

/-- Runs with corresponding observers come to the same result. -/
theorem Run.generate_mapMemory (hmaps : observer.Maps f observer')
    (requested : Int) (run : Run G σ) :
    (run.mapMemory f).generate requested observer' =
      (run.generate requested observer).map id (Run.mapMemory f) := by
  have hfault : (run.mapMemory f).startFault? = run.startFault? := rfl
  have hengine : (run.mapMemory f).engine = run.engine := rfl
  have hbegin : ∀ plan (source : G), (run.mapMemory f).begin plan source =
      (run.begin plan source).mapMemory f := fun _ _ => rfl
  unfold Run.generate
  rw [hfault]
  cases run.startFault? with
  | some fault => rfl
  | none =>
      simp only [hengine]
      cases SeededSource.ofSeed (G := G) run.engine.entropy
          (RunPlan.ofEngine requested run.engine).settings.seed with
      | error fault => rfl
      | ok source =>
          simp only [hbegin, Growth.mapMemory_advance hmaps]
          cases (run.begin (RunPlan.ofEngine requested run.engine)
              source).advance (RunPlan.ofEngine requested run.engine) observer
              (RunPlan.ofEngine requested run.engine).passes with
          | mk g halt =>
              rcases halt with _ | reason | message
              · simp only [Prod.map_apply, id_eq, Growth.mapMemory_finish]
                rfl
              · simp only [Prod.map_apply, id_eq, Growth.mapMemory_finish]
                rfl
              · rfl

end TreeGrowth
