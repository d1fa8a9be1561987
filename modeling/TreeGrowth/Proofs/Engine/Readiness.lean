import TreeGrowth.Proofs.Engine.Reachable
import TreeGrowth.Proofs.Growth.Length
import TreeGrowth.Proofs.Growth.Return

/-!
# Readiness of an engine

Before a run one may ask an engine for its faults.  They are collected apart
from the checks with which a run begins, and the faults of rules are among
them.  Since no operation lets a faulty rule in, the two agree on every engine
that operations lead to: the first fault is the message of the failed run, and
an engine without faults never fails.
-/

namespace TreeGrowth

variable {G σ : Type} [SeededSource G Float]

theorem Rule.faultLines_of_valid {rules : List (Rule Float)}
    (hvalid : ∀ r ∈ rules, r.isValid = true) :
    ∀ line ∈ Rule.faultLines rules, line = "" := by
  intro line hline
  obtain ⟨⟨r, i⟩, hr, rfl⟩ := List.mem_map.mp hline
  have hfault : r.fault? = none :=
    Option.isNone_iff_eq_none.mp (hvalid r (List.fst_mem_of_mem_zipIdx hr))
  simp only [hfault]

theorem Engine.Reachable.faults_eq {e : Engine G} (hreach : e.Reachable) :
    e.faults =
      (if e.start.isEmpty then [StartFault.emptyStart.message] else []) ++
        if e.rules.isEmpty then [StartFault.noRules.message] else [] := by
  have hlines := Rule.faultLines_of_valid hreach.isValid_of_mem
  have hnone : (Rule.faultLines e.rules).filter (fun line => !line.isEmpty) =
      [] := by
    rw [List.filter_eq_nil_iff]
    intro line hline
    simp [hlines line hline]
  rw [Engine.faults, hnone, List.append_nil]

/-- The first fault of an engine is the one with which a run fails to begin. -/
theorem Run.head?_faults (run : Run G σ) (hreach : run.engine.Reachable) :
    run.engine.faults.head? =
      run.startFault?.map Engine.StartFault.message := by
  rw [hreach.faults_eq, Run.startFault?]
  cases run.engine.start.isEmpty with
  | true => rfl
  | false => cases run.engine.rules.isEmpty <;> rfl

theorem Run.isReady_iff (run : Run G σ) (hreach : run.engine.Reachable) :
    run.engine.isReady = true ↔ run.startFault? = none := by
  rw [Engine.isReady, List.isEmpty_iff, ← List.head?_eq_none_iff,
    run.head?_faults hreach, Option.map_eq_none_iff]

/-- An engine that operations lead to holds valid rules only.  If its seed is
not negative, it is ready just if no run of it fails, and it has no faults
then.  A run that fails, however it is observed, names the first fault and
leaves all of the engine as it was, up to the report. -/
theorem isReady_iff_runs_succeed {e : Engine G} (hreach : e.Reachable)
    (hseed : 0 ≤ e.settings.seed) :
    (∀ r ∈ e.rules, r.isValid = true) ∧
      (e.isReady = true ↔ ∀ requested, ∃ result,
        (e.generate requested).1 = .ok result ∧ result.status ≠ .failure) ∧
      (e.isReady = true → e.faults = []) ∧
      ∀ (σ : Type) (requested : Int) (observer : Observer G σ)
        (cancelled : Bool) (memory : σ) (result : RunResult),
        let run : Run G σ := { engine := e, cancelled, memory }
        (run.generate requested observer).1 = .ok result →
          result.status = .failure →
            e.isReady = false ∧ e.faults.head? = some result.message ∧
              ∃ journal, (run.generate requested observer).2 =
                { run with engine := { e with journal } } := by
  let alone : Run G Unit := { engine := e, cancelled := false, memory := () }
  have hready : e.isReady = true ↔ alone.startFault? = none :=
    alone.isReady_iff hreach
  refine ⟨hreach.isValid_of_mem, ?_, List.isEmpty_iff.mp, ?_⟩
  · rw [hready]
    constructor
    · intro hsound requested
      obtain ⟨result, hresult⟩ := alone.exists_generate_eq_ok requested
        Observer.not_raises_idle hseed
      refine ⟨result, hresult, fun hfailure => ?_⟩
      exact (Run.status_eq_failure_iff hresult).mp hfailure hsound
    · intro hruns
      obtain ⟨result, hresult, hstatus⟩ := hruns 0
      have hresult' : (alone.generate 0 .idle).1 = .ok result := hresult
      by_contra hfault
      exact hstatus ((Run.status_eq_failure_iff hresult').mpr hfault)
  · intro σ requested observer cancelled memory result run hresult hfailure
    obtain ⟨fault, hfault⟩ := Option.ne_none_iff_exists'.mp
      ((Run.status_eq_failure_iff hresult).mp hfailure)
    have hfailed := Run.generate_of_startFault requested observer hfault
    rw [hfailed] at hresult
    obtain rfl := Except.ok.inj hresult
    refine ⟨?_, ?_, _, congrArg Prod.snd hfailed⟩
    · have hunready := (run.isReady_iff hreach).mp.mt (by simp [hfault])
      simpa using hunready
    · have hfirst := run.head?_faults hreach
      rwa [hfault] at hfirst

/-- An engine that has refused a rule is ready for any number of passes; once
its rules are cleared it is not, and its runs leave it as it is. -/
theorem isReady_iff_runs_succeed_sample :
    let e := Engine.budding
    let bare := e.clearRules
    e.Reachable ∧ 0 ≤ e.settings.seed ∧ e.isReady = true ∧
      (∀ requested, ∃ result, (e.generate requested).1 = .ok result ∧
        result.status ≠ .failure) ∧
      bare.Reachable ∧ 0 ≤ bare.settings.seed ∧ bare.isReady = false ∧
      bare.faults.head? = some "No rules defined" ∧
      ∃ journal, (bare.generate 5).2 = { bare with journal } := by
  intro e bare
  have hreach : e.Reachable := Engine.reachable_budding
  have hready : e.isReady = true := by decide +kernel
  obtain ⟨_, hruns, _, _⟩ := isReady_iff_runs_succeed hreach (by decide)
  have hreach' : bare.Reachable := hreach.rulesCleared
  obtain ⟨_, _, _, hfails⟩ := isReady_iff_runs_succeed hreach' (by decide)
  obtain ⟨hunready, hfirst, journal, hkept⟩ :=
    hfails Unit 5 .idle false () _ rfl rfl
  exact ⟨hreach, by decide, hready, hruns.mp hready, hreach', by decide,
    hunready, hfirst, journal, congrArg Run.engine hkept⟩

end TreeGrowth
