import TreeGrowth.Proofs.Engine.Operation
import TreeGrowth.Proofs.Growth.Notes

/-!
# Engines that operations lead to

An engine is made with a start word and settings, and from then on changed by
its operations only.  Whoever observes a run may operate on the engine between
its passes, so what a run notes with the engine counts as a step of its own,
and operations may come between any two notes.  No operation lets a faulty rule
into an engine.
-/

namespace TreeGrowth

variable {G σ : Type} [SeededSource G Float]

inductive Engine.Reachable : Engine G → Prop
  | created {start : Word} {settings : GrowthSettings} {entropy : Nat}
      {e : Engine G} (hcreate : Engine.create start settings entropy = .ok e) :
      Engine.Reachable e
  | restarted {e : Engine G} (hreach : Engine.Reachable e) (start : Word)
      (settings? : Option GrowthSettings) :
      Engine.Reachable (e.restart start settings?).1
  | emptied {e : Engine G} (hreach : Engine.Reachable e) :
      Engine.Reachable e.reset
  | reseeded {e : Engine G} (hreach : Engine.Reachable e) (seed : Int) :
      Engine.Reachable (e.reseed seed).1
  | ruleAdded {e : Engine G} (hreach : Engine.Reachable e)
      (rule : Rule Float) : Engine.Reachable (e.addRule rule).1
  | ruleTextAdded {e : Engine G} (hreach : Engine.Reachable e)
      (text : List Char) : Engine.Reachable (e.addRuleText text).1
  | rulesRemoved {e : Engine G} (hreach : Engine.Reachable e)
      (predecessor : Word) : Engine.Reachable (e.removeRules predecessor).1
  | ruleRemoved {e : Engine G} (hreach : Engine.Reachable e)
      (rule : Rule Float) : Engine.Reachable (e.removeRule rule).1
  | rulesCleared {e : Engine G} (hreach : Engine.Reachable e) :
      Engine.Reachable e.clearRules
  | passed {e : Engine G} (hreach : Engine.Reachable e) (word : Word) :
      Engine.Reachable (e.singlePass word).1
  /-- A run has noted something. -/
  | noted {e : Engine G} (hreach : Engine.Reachable e) (progress : Progress)
      (statistics : Statistics) (entropy : Nat) (journal : Journal) :
      Engine.Reachable { e with progress, statistics, entropy, journal }

/-! ## Runs lead to reachable engines -/

/-- Runs need no step of their own: a run leads from a reachable engine to a
reachable one, if its observer does. -/
theorem Engine.Reachable.generate {observer : Observer G σ}
    (hobserver : observer.Preserves Engine.Reachable) (requested : Int)
    {run : Run G σ} (hreach : run.engine.Reachable) :
    (run.generate requested observer).2.engine.Reachable := by
  apply Run.generate_preserves _ hobserver requested run hreach
  intro e progress statistics entropy journal he
  exact he.noted progress statistics entropy journal

mutual

theorem Engine.Reachable.perform {e : Engine G} (hreach : e.Reachable) :
    ∀ operation : Operation, (operation.perform e).1.Reachable
  | .restart start settings? => by
      have hnext := hreach.restarted start settings?
      unfold Operation.perform
      split
      next e' _ hrestart =>
        rw [hrestart] at hnext
        exact hnext
      next e' fault hrestart =>
        rw [hrestart] at hnext
        exact hnext
  | .reset => hreach.emptied
  | .reseed seed => by
      have hnext := hreach.reseeded seed
      unfold Operation.perform
      split
      next e' _ hreseed =>
        rw [hreseed] at hnext
        exact hnext
      next e' fault hreseed =>
        rw [hreseed] at hnext
        exact hnext
  | .addRule rule => hreach.ruleAdded rule
  | .addRuleText text => hreach.ruleTextAdded text
  | .removeRules predecessor => hreach.rulesRemoved predecessor
  | .removeRule rule => hreach.ruleRemoved rule
  | .clearRules => hreach.rulesCleared
  | .singlePass word => hreach.passed word
  | .generate requested script => by
      let observer : Observer G Unit :=
        .operating fun passes e => Operation.performAll e (script passes)
      have hobserver : observer.Preserves Engine.Reachable := by
        constructor
        · intro passes word run hrun
          exact hrun.performAll (script passes)
        · intro fraction run hrun
          exact hrun
      let run : Run G Unit :=
        { engine := e, cancelled := false, memory := () }
      have hrun : run.engine.Reachable := hreach
      have hnext := Engine.Reachable.generate hobserver requested hrun
      unfold Operation.perform
      simp only
      split
      next result run hrun =>
        rw [hrun] at hnext
        exact hnext
      next fault run hrun =>
        rw [hrun] at hnext
        exact hnext
termination_by structural operation => operation

theorem Engine.Reachable.performAll {e : Engine G} (hreach : e.Reachable) :
    ∀ operations : List Operation,
      (Operation.performAll e operations).1.Reachable
  | [] => hreach
  | operation :: rest => by
      have hnext := hreach.perform operation
      unfold Operation.performAll
      split
      next e' message hbroken =>
        rw [hbroken] at hnext
        exact hnext
      next e' hwent =>
        rw [hwent] at hnext
        exact hnext.performAll rest
termination_by structural operations => operations

end

/-! ## The rules of a reachable engine -/

omit [SeededSource G Float] in
theorem Engine.rules_addRule (e : Engine G) (rule : Rule Float) :
    (e.addRule rule).1.rules =
      if rule.isValid then e.rules ++ [rule] else e.rules := by
  unfold Engine.addRule Rule.isValid
  cases rule.fault? <;> rfl

theorem Engine.restartSource_rules {e e' : Engine G}
    (hrestart : e.restartSource = .ok e') : e'.rules = e.rules := by
  unfold Engine.restartSource at hrestart
  cases hsource : SeededSource.ofSeed (G := G) e.entropy e.settings.seed with
  | error fault => simp [hsource, Except.map] at hrestart
  | ok source =>
      rw [hsource] at hrestart
      obtain rfl := Except.ok.inj hrestart
      rfl

theorem Engine.rules_restart (e : Engine G) (start : Word)
    (settings? : Option GrowthSettings) :
    (e.restart start settings?).1.rules = e.rules := by
  cases settings? with
  | none => rfl
  | some settings =>
      unfold Engine.restart
      simp only
      cases hrestart :
          ({ e with start, settings } : Engine G).restartSource with
      | error fault => rfl
      | ok e' =>
          have hrules := Engine.restartSource_rules hrestart
          exact hrules

theorem Engine.rules_reseed (e : Engine G) (seed : Int) :
    (e.reseed seed).1.rules = e.rules := by
  unfold Engine.reseed
  simp only
  cases hrestart : ({ e with settings := { e.settings with seed } } :
      Engine G).restartSource with
  | error fault => rfl
  | ok e' =>
      have hrules := Engine.restartSource_rules hrestart
      exact hrules

theorem Engine.Reachable.isValid_of_mem {e : Engine G} (hreach : e.Reachable) :
    ∀ r ∈ e.rules, r.isValid = true := by
  have hadded : ∀ (e : Engine G) (rule : Rule Float),
      (∀ r ∈ e.rules, r.isValid = true) →
        ∀ r ∈ (e.addRule rule).1.rules, r.isValid = true := by
    intro e rule he r hr
    rw [Engine.rules_addRule] at hr
    split at hr
    next hvalid =>
      rcases List.mem_append.mp hr with hold | hnew
      · exact he r hold
      · rw [List.mem_singleton.mp hnew]
        exact hvalid
    next => exact he r hr
  induction hreach with
  | @created start settings entropy e hcreate =>
      cases hsource :
          SeededSource.ofSeed (G := G) entropy settings.seed with
      | error fault =>
          simp [Engine.create, hsource, bind, Except.bind] at hcreate
      | ok source =>
          simp only [Engine.create, hsource, bind, Except.bind, pure,
            Except.pure, Except.ok.injEq] at hcreate
          subst hcreate
          simp
  | restarted _ start settings? ih =>
      rw [Engine.rules_restart]
      exact ih
  | emptied _ _ => simp [Engine.reset]
  | reseeded _ seed ih =>
      rw [Engine.rules_reseed]
      exact ih
  | ruleAdded _ rule ih => exact hadded _ rule ih
  | ruleTextAdded _ text ih =>
      unfold Engine.addRuleText
      split
      next rule _ => exact hadded _ rule ih
      next => exact ih
  | rulesRemoved _ predecessor ih =>
      intro r hr
      exact ih r (List.mem_filter.mp hr).1
  | ruleRemoved _ rule ih =>
      intro r hr
      exact ih r (List.mem_of_mem_eraseP hr)
  | rulesCleared _ _ => simp [Engine.clearRules]
  | passed _ _ ih => exact ih
  | noted _ _ _ _ _ ih => exact ih

end TreeGrowth
