import TreeGrowth.Proofs.Engine.Readiness

/-!
# Failed set-up

Setting an engine up raises an error just if a negative seed is handed over.
Such a seed is refused only once it is set, with the start word and the other
settings that came along, so these are lost.  All else is as before: two
engines that differ in start word and settings alone stay so under the same
set-up, which raises the same errors in both, and no longer differ once both
get new settings.  Until then an engine that holds a refused seed makes no run.
-/

namespace TreeGrowth

variable {G : Type} [SeededSource G Float]

/-! ## Set-up and the seeds it hands over -/

def Operation.isSetUp : Operation → Bool
  | .singlePass _ | .generate _ _ => false
  | _ => true

/-- The seed that an operation hands over to the engine. -/
def Operation.seed? : Operation → Option Int
  | .restart _ settings? => settings?.map fun settings => settings.seed
  | .reseed seed => some seed
  | _ => none

/-- Performs every operation, whether or not an earlier one has raised an
error, and collects what they raise. -/
def Operation.attemptAll (e : Engine G) :
    List Operation → Engine G × List (Option String)
  | [] => (e, [])
  | operation :: rest =>
      let (e, raised) := operation.perform e
      let (e, later) := attemptAll e rest
      (e, raised :: later)

/-- The engine as an operation leaves it if its seed is refused. -/
def Operation.assigned (e : Engine G) : Operation → Engine G
  | .restart start (some settings) => { e with start, settings }
  | .reseed seed => { e with settings := { e.settings with seed } }
  | _ => e

/-! ## Set-up that raises an error -/

variable {operation : Operation} {seed : Int}

theorem Operation.perform_of_refused {e : Engine G}
    (hseed : operation.seed? = some seed) {fault : SeedError}
    (hrefused : SeededSource.ofSeed (G := G) e.entropy seed = .error fault) :
    operation.perform e = (operation.assigned e, some fault.message) := by
  cases operation with
  | reseed seed =>
      obtain rfl := Option.some.inj hseed
      simp [Operation.perform, Operation.assigned, Engine.reseed,
        Engine.restartSource, hrefused, Except.map]
  | restart start settings? =>
      obtain ⟨settings, rfl, rfl⟩ := Option.map_eq_some_iff.mp hseed
      simp [Operation.perform, Operation.assigned, Engine.restart,
        Engine.restartSource, hrefused, Except.map]
  | reset | addRule _ | addRuleText _ | removeRules _ | removeRule _
  | clearRules | singlePass _ | generate _ _ =>
      cases hseed

theorem Operation.not_raises_of_seeded {e : Engine G}
    (hseed : operation.seed? = some seed) {source : G}
    (hsource : SeededSource.ofSeed e.entropy seed = .ok source) :
    (operation.perform e).2 = none := by
  cases operation with
  | reseed seed =>
      obtain rfl := Option.some.inj hseed
      simp [Operation.perform, Engine.reseed, Engine.restartSource, hsource,
        Except.map]
  | restart start settings? =>
      obtain ⟨settings, rfl, rfl⟩ := Option.map_eq_some_iff.mp hseed
      simp [Operation.perform, Engine.restart, Engine.restartSource, hsource,
        Except.map]
  | reset | addRule _ | addRuleText _ | removeRules _ | removeRule _
  | clearRules | singlePass _ | generate _ _ =>
      cases hseed

theorem Operation.not_raises_of_seedless
    (hsetup : operation.isSetUp = true) (hseed : operation.seed? = none)
    (e : Engine G) : (operation.perform e).2 = none := by
  cases operation with
  | singlePass word => cases hsetup
  | generate requested script => cases hsetup
  | reseed seed => cases hseed
  | restart start settings? =>
      obtain rfl := Option.map_eq_none_iff.mp hseed
      rfl
  | reset | addRule _ | addRuleText _ | removeRules _ | removeRule _
  | clearRules =>
      rfl

/-- Only a negative seed makes set-up raise an error. -/
theorem Operation.raises_iff (hsetup : operation.isSetUp = true)
    (e : Engine G) :
    (operation.perform e).2 ≠ none ↔
      ∃ seed < 0, operation.seed? = some seed := by
  cases hseed : operation.seed? with
  | none => simp [Operation.not_raises_of_seedless hsetup hseed]
  | some seed =>
      by_cases hneg : seed < 0
      · have hrefused := SeededSource.ofSeed_of_neg (G := G) e.entropy hneg
        simp [Operation.perform_of_refused hseed hrefused, hneg]
      · obtain ⟨source, hsource⟩ :=
          SeededSource.exists_ofSeed (G := G) e.entropy (not_lt.mp hneg)
        simpa [Operation.not_raises_of_seeded hseed hsource] using hneg

theorem Operation.perform_of_raises (hsetup : operation.isSetUp = true)
    {e : Engine G} {message : String}
    (hraised : (operation.perform e).2 = some message) :
    ∃ seed < 0, operation.seed? = some seed ∧
      message = (SeedError.negative seed).message ∧
      (operation.perform e).1 = operation.assigned e := by
  have hne : (operation.perform e).2 ≠ none := by simp [hraised]
  obtain ⟨seed, hneg, hseed⟩ := (Operation.raises_iff hsetup e).mp hne
  have hperform := Operation.perform_of_refused hseed
    (SeededSource.ofSeed_of_neg (G := G) e.entropy hneg)
  rw [hperform] at hraised
  exact ⟨seed, hneg, hseed, (Option.some.inj hraised).symm,
    congrArg Prod.fst hperform⟩

/-! ## Engines that differ in start word and settings -/

/-- The engines agree in all but the start word and the settings. -/
def Engine.Alike (e e' : Engine G) : Prop :=
  e' = { e with start := e'.start, settings := e'.settings }

omit [SeededSource G Float] in
theorem Operation.alike_assigned (e : Engine G) (operation : Operation) :
    e.Alike (operation.assigned e) := by
  cases operation with
  | restart start settings? => cases settings? <;> rfl
  | reset | reseed _ | addRule _ | addRuleText _ | removeRules _
  | removeRule _ | clearRules | singlePass _ | generate _ _ =>
      rfl

omit [SeededSource G Float] in
theorem Operation.seed_assigned (e : Engine G)
    (hseed : operation.seed? = some seed) :
    (operation.assigned e).settings.seed = seed := by
  cases operation with
  | reseed seed => exact Option.some.inj hseed
  | restart start settings? =>
      obtain ⟨settings, rfl, rfl⟩ := Option.map_eq_some_iff.mp hseed
      rfl
  | reset | addRule _ | addRuleText _ | removeRules _ | removeRule _
  | clearRules | singlePass _ | generate _ _ =>
      cases hseed

omit [SeededSource G Float] in
/-- To add a rule changes the rules and the journal only, whatever the start
word and the settings are. -/
theorem Engine.exists_addRule_frame (e : Engine G) (rule : Rule Float) :
    ∃ rules journal, ∀ start settings,
      (({ e with start, settings } : Engine G).addRule rule).1 =
        { e with start, settings, rules, journal } := by
  cases hfault : rule.fault? with
  | none =>
      simp only [Engine.addRule, Engine.report, hfault]
      exact ⟨_, _, fun _ _ => rfl⟩
  | some fault =>
      simp only [Engine.addRule, Engine.report, hfault]
      exact ⟨_, _, fun _ _ => rfl⟩

omit [SeededSource G Float] in
theorem Engine.exists_addRuleText_frame (e : Engine G) (text : List Char) :
    ∃ rules journal, ∀ start settings,
      (({ e with start, settings } : Engine G).addRuleText text).1 =
        { e with start, settings, rules, journal } := by
  cases hparse : Rule.parse text with
  | ok rule =>
      simp only [Engine.addRuleText, hparse]
      exact e.exists_addRule_frame rule
  | error fault =>
      simp only [Engine.addRuleText, Engine.report, hparse]
      exact ⟨_, _, fun _ _ => rfl⟩

/-- New settings make engines equal that were alike, even if they are
refused. -/
theorem Engine.Alike.perform_restart {e e' : Engine G} (halike : e.Alike e')
    (start : Word) (settings : GrowthSettings) :
    (Operation.restart start (some settings)).perform e' =
      (Operation.restart start (some settings)).perform e := by
  rw [halike]
  rfl

theorem Engine.Alike.perform {e e' : Engine G} (halike : e.Alike e')
    {operation : Operation} (hsetup : operation.isSetUp = true) :
    (operation.perform e').2 = (operation.perform e).2 ∧
      (operation.perform e).1.Alike (operation.perform e').1 := by
  rw [halike]
  cases operation with
  | singlePass word => cases hsetup
  | generate requested script => cases hsetup
  | reset => exact ⟨rfl, rfl⟩
  | clearRules => exact ⟨rfl, rfl⟩
  | removeRules predecessor => exact ⟨rfl, rfl⟩
  | removeRule rule => exact ⟨rfl, rfl⟩
  | addRule rule =>
      obtain ⟨rules, journal, hadd⟩ := e.exists_addRule_frame rule
      refine ⟨rfl, ?_⟩
      rw [Operation.perform, Operation.perform, hadd, hadd]
      rfl
  | addRuleText text =>
      obtain ⟨rules, journal, hadd⟩ := e.exists_addRuleText_frame text
      refine ⟨rfl, ?_⟩
      rw [Operation.perform, Operation.perform, hadd, hadd]
      rfl
  | reseed seed =>
      simp only [Operation.perform, Engine.reseed, Engine.restartSource]
      cases SeededSource.ofSeed (G := G) e.entropy seed <;> exact ⟨rfl, rfl⟩
  | restart start settings? =>
      cases settings? with
      | none => exact ⟨rfl, rfl⟩
      | some settings => exact ⟨rfl, rfl⟩

theorem Operation.attemptAll_cons (e : Engine G) (operation : Operation)
    (rest : List Operation) :
    Operation.attemptAll e (operation :: rest) =
      let later := Operation.attemptAll (operation.perform e).1 rest
      (later.1, (operation.perform e).2 :: later.2) :=
  rfl

theorem Engine.Alike.attemptAll {e e' : Engine G} (halike : e.Alike e')
    {operations : List Operation}
    (hsetup : ∀ operation ∈ operations, operation.isSetUp = true) :
    (Operation.attemptAll e' operations).2 =
        (Operation.attemptAll e operations).2 ∧
      (Operation.attemptAll e operations).1.Alike
        (Operation.attemptAll e' operations).1 := by
  induction operations generalizing e e' with
  | nil => exact ⟨rfl, halike⟩
  | cons operation rest ih =>
      obtain ⟨hfirst, hrest⟩ := List.forall_mem_cons.mp hsetup
      obtain ⟨hraised, hnext⟩ := halike.perform hfirst
      obtain ⟨hlater, hlast⟩ := ih hnext hrest
      simp only [Operation.attemptAll_cons, hraised, hlater]
      exact ⟨trivial, hlast⟩

theorem Engine.Alike.attemptAll_eq {e e' : Engine G} (halike : e.Alike e')
    {operations : List Operation}
    (hsetup : ∀ operation ∈ operations, operation.isSetUp = true)
    {start : Word} {settings : GrowthSettings}
    (hnew : .restart start (some settings) ∈ operations) :
    Operation.attemptAll e' operations =
      Operation.attemptAll e operations := by
  induction operations generalizing e e' with
  | nil => cases hnew
  | cons operation rest ih =>
      rw [Operation.attemptAll_cons, Operation.attemptAll_cons]
      rcases List.mem_cons.mp hnew with rfl | hlater
      · rw [halike.perform_restart]
      · obtain ⟨hfirst, hrest⟩ := List.forall_mem_cons.mp hsetup
        obtain ⟨hraised, hnext⟩ := halike.perform hfirst
        rw [hraised, ih hnext hrest hlater]

/-! ## Engines that hold a refused seed -/

theorem Operation.seed_perform {operation : Operation}
    (hsetup : operation.isSetUp = true) (hseed : operation.seed? = none)
    (e : Engine G) :
    (operation.perform e).1.settings.seed = e.settings.seed := by
  cases operation with
  | singlePass word => cases hsetup
  | generate requested script => cases hsetup
  | reseed seed => cases hseed
  | restart start settings? =>
      obtain rfl := Option.map_eq_none_iff.mp hseed
      rfl
  | reset | removeRules _ | removeRule _ | clearRules => rfl
  | addRule rule =>
      obtain ⟨rules, journal, hadd⟩ := e.exists_addRule_frame rule
      have hkept := congrArg (fun e : Engine G => e.settings.seed)
        (hadd e.start e.settings)
      exact hkept
  | addRuleText text =>
      obtain ⟨rules, journal, hadd⟩ := e.exists_addRuleText_frame text
      have hkept := congrArg (fun e : Engine G => e.settings.seed)
        (hadd e.start e.settings)
      exact hkept

theorem Operation.seed_attemptAll {operations : List Operation}
    (hsetup : ∀ operation ∈ operations, operation.isSetUp = true)
    (hseed : ∀ operation ∈ operations, operation.seed? = none)
    (e : Engine G) :
    (Operation.attemptAll e operations).1.settings.seed =
      e.settings.seed := by
  induction operations generalizing e with
  | nil => rfl
  | cons operation rest ih =>
      obtain ⟨hfirst, hrest⟩ := List.forall_mem_cons.mp hsetup
      obtain ⟨hfirst', hrest'⟩ := List.forall_mem_cons.mp hseed
      rw [Operation.attemptAll_cons]
      exact (ih hrest hrest' _).trans (Operation.seed_perform hfirst hfirst' e)

/-! ## What failed set-up leaves behind -/

/-- Set-up raises an error just if it hands over a negative seed, and then it
has set that seed, and the start word and the settings that came along, but
nothing else.  Set-up that follows raises what it would have raised without the
failure, and leads to an engine with the same rules, statistics, progress,
source and journal, and to the very same engine once it hands over settings.
As long as it hands over no seed, the refused one stays, and no run begins. -/
theorem failed_setUp_keeps_rest (e : Engine G) {operation : Operation}
    (hsetup : operation.isSetUp = true) :
    ((operation.perform e).2 ≠ none ↔
        ∃ seed < 0, operation.seed? = some seed) ∧
      ∀ message, (operation.perform e).2 = some message →
        let failed := (operation.perform e).1
        ∃ seed < 0, operation.seed? = some seed ∧
          message = "expected non-negative integer" ∧
          failed = operation.assigned e ∧
          ∀ later : List Operation, (∀ next ∈ later, next.isSetUp = true) →
            let kept := Operation.attemptAll e later
            let hurt := Operation.attemptAll failed later
            hurt.2 = kept.2 ∧
              hurt.1 = { kept.1 with
                start := hurt.1.start
                settings := hurt.1.settings } ∧
              ((∃ start settings, .restart start (some settings) ∈ later) →
                hurt.1 = kept.1) ∧
              ((∀ next ∈ later, next.seed? = none) →
                ∀ (σ : Type) (requested : Int) (observer : Observer G σ)
                  (cancelled : Bool) (memory : σ),
                  let run : Run G σ := { engine := hurt.1, cancelled, memory }
                  run.startFault? = none →
                    run.generate requested observer =
                      (.error (.seed (.negative seed)), run)) := by
  refine ⟨Operation.raises_iff hsetup e, ?_⟩
  intro message hraised failed
  obtain ⟨seed, hneg, hseed, hmessage, hassigned⟩ :=
    Operation.perform_of_raises hsetup hraised
  have halike : e.Alike failed := by
    rw [show failed = _ from hassigned]
    exact operation.alike_assigned e
  have hrefused : failed.settings.seed = seed := by
    rw [show failed = _ from hassigned]
    exact Operation.seed_assigned e hseed
  refine ⟨seed, hneg, hseed, hmessage, hassigned, ?_⟩
  intro later hlater kept hurt
  obtain ⟨houtcomes, hrest⟩ := halike.attemptAll hlater
  refine ⟨houtcomes, hrest, ?_, ?_⟩
  · rintro ⟨start, settings, hnew⟩
    exact congrArg Prod.fst (halike.attemptAll_eq hlater hnew)
  · intro hnone σ requested observer cancelled memory run hbegins
    have hheld : run.engine.settings.seed = seed :=
      (Operation.seed_attemptAll hlater hnone failed).trans hrefused
    apply Run.generate_of_refused requested observer hbegins
    rw [hheld]
    exact SeededSource.ofSeed_of_neg _ hneg

/-- A refused seed keeps an engine from running, also with a further rule, and
new settings put it right. -/
theorem failed_setUp_keeps_rest_sample :
    let e := Engine.budding
    let failed := ((Operation.reseed (-7)).perform e).1
    let grown := (Operation.attemptAll failed
      [.addRule (.ofWords [] ['B'] [] ['B', 'A'] 0.5)]).1
    let run : Run Pcg64 Unit :=
      { engine := grown, cancelled := false, memory := () }
    let renewal : List Operation := [.restart ['A'] (some e.settings)]
    e.Reachable ∧ (Operation.reseed (-7)).isSetUp = true ∧
      ((Operation.reseed (-7)).perform e).2 =
        some "expected non-negative integer" ∧
      run.startFault? = none ∧
      run.generate 5 .idle = (.error (.seed (.negative (-7))), run) ∧
      (Operation.attemptAll failed renewal).1 =
        (Operation.attemptAll e renewal).1 := by
  intro e failed grown run renewal
  have hraised : ((Operation.reseed (-7)).perform e).2 =
      some "expected non-negative integer" := rfl
  have hbegins : run.startFault? = none := by decide +kernel
  obtain ⟨_, hfailed⟩ := failed_setUp_keeps_rest e
    (show (Operation.reseed (-7)).isSetUp = true from rfl)
  obtain ⟨seed, _, hseed, _, _, hlater⟩ := hfailed _ hraised
  obtain rfl : -7 = seed := Option.some.inj hseed
  obtain ⟨_, _, _, hruns⟩ := hlater
    [.addRule (.ofWords [] ['B'] [] ['B', 'A'] 0.5)] (by simp; rfl)
  obtain ⟨_, _, hrenewed, _⟩ := hlater renewal (by simp [renewal]; rfl)
  exact ⟨Engine.reachable_budding, rfl, hraised, hbegins,
    hruns (by simp; rfl) Unit 5 .idle false () hbegins,
    hrenewed ⟨_, _, List.mem_singleton_self _⟩⟩

/-- Set-up that raises an error does not always leave the engine as it was. -/
theorem not_every_failed_setUp_atomic :
    ¬∀ e : Engine Pcg64, e.Reachable →
      ∀ operation : Operation, operation.isSetUp = true →
        (operation.perform e).2 ≠ none → (operation.perform e).1 = e := by
  intro hatomic
  have hkept := hatomic .budding Engine.reachable_budding (.reseed (-7)) rfl
    (by decide +kernel)
  have hseed : (-7 : Int) = 42 :=
    congrArg (fun e : Engine Pcg64 => e.settings.seed) hkept
  exact absurd hseed (by decide)

end TreeGrowth
