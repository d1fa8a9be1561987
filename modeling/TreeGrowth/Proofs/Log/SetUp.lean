import TreeGrowth.Log.Root
import Mathlib

/-!
# Setting the root of all loggers up again and again

A set-up takes the handlers of earlier set-ups away and leaves all others where
they are.  If it returns, its own handlers stand behind those; if the name of
its level means nothing or its file is refused, none do, and the logger is left
with what others have installed.  The context only changes when a set-up
returns, the level also when only the file is refused.
-/

namespace TreeGrowth

namespace LogRoot

/-- The handlers that no set-up has installed. -/
def foreign (root : LogRoot) : List LogHandler :=
  root.handlers.filter fun h => !h.installed

/-- The root after one set-up after the other, whether they return or not. -/
def setupAll (root : LogRoot) (requests : List LogSetup) : LogRoot :=
  requests.foldl (fun root request => (root.setup request).1) root

end LogRoot

namespace LogSetup

/-- The level of a set-up, unless its name means nothing. -/
def level? (request : LogSetup) : Option Int :=
  (LogLevel.ofName request.level).toOption

/-- What is wrong with a set-up: the name of its level, or else its file. -/
def fault? (request : LogSetup) : Option SetupError :=
  match LogLevel.ofName request.level with
  | .error fault => some (.level fault)
  | .ok _ => request.refusal?.map .file

def returns (request : LogSetup) : Bool := request.fault?.isNone

end LogSetup

namespace LogRoot

variable {root : LogRoot} {request : LogSetup}

/-! ## One set-up -/

/-- A set-up stops at the name of its level, or at its file with the level
already changed, or goes through. -/
theorem setup_cases (root : LogRoot) (request : LogSetup) :
    (∃ fault, request.level? = none ∧
      request.fault? = some (.level fault) ∧
      root.setup request =
        ({ root with handlers := root.foreign }, .error (.level fault))) ∨
    (∃ level reason, request.level? = some level ∧
      request.fault? = some (.file reason) ∧
      root.setup request =
        ({ root with level, handlers := root.foreign },
          .error (.file reason))) ∨
    ∃ level, request.level? = some level ∧ request.fault? = none ∧
      root.setup request =
        ({ root with
            level
            handlers := root.foreign ++ root.handlersFor request
            context := LogFields.setAll root.context request.context
            files := request.opens?.elim root.files fun file =>
              root.files.opened file.path },
          .ok (root.handlersFor request)) := by
  simp only [LogSetup.level?, LogSetup.fault?, setup]
  cases LogLevel.ofName request.level with
  | error fault => exact .inl ⟨fault, rfl, rfl, rfl⟩
  | ok level =>
      cases request.refusal? with
      | some reason => exact .inr (.inl ⟨level, reason, rfl, rfl, rfl⟩)
      | none => exact .inr (.inr ⟨level, rfl, rfl, rfl⟩)

theorem installed_of_mem_handlersFor {h : LogHandler}
    (hmem : h ∈ root.handlersFor request) : h.installed = true := by
  simp only [handlersFor, List.mem_cons, List.mem_map] at hmem
  rcases hmem with rfl | ⟨file, -, rfl⟩ <;> rfl

theorem foreign_eq_handlers_iff :
    root.foreign = root.handlers ↔ ∀ h ∈ root.handlers, h.installed = false := by
  simp [foreign, List.filter_eq_self]

theorem answer_setup (root : LogRoot) (request : LogSetup) :
    (root.setup request).2 =
      request.fault?.elim (.ok (root.handlersFor request)) .error := by
  rcases root.setup_cases request with ⟨_, -, hfault, hsetup⟩ |
    ⟨_, _, -, hfault, hsetup⟩ | ⟨_, -, hfault, hsetup⟩ <;>
    rw [hsetup, hfault] <;> rfl

/-- The handlers that a set-up installs are those that it returns. -/
theorem handlers_setup (root : LogRoot) (request : LogSetup) :
    (root.setup request).1.handlers =
      root.foreign ++ (root.setup request).2.toOption.getD [] := by
  rcases root.setup_cases request with ⟨_, -, -, hsetup⟩ |
    ⟨_, _, -, -, hsetup⟩ | ⟨_, -, -, hsetup⟩
  · rw [hsetup]
    exact (List.append_nil _).symm
  · rw [hsetup]
    exact (List.append_nil _).symm
  · rw [hsetup]
    rfl

theorem foreign_setup (root : LogRoot) (request : LogSetup) :
    (root.setup request).1.foreign = root.foreign := by
  have hkept : root.foreign.filter (fun h => !h.installed) = root.foreign := by
    simp [foreign, List.filter_filter]
  have hnone : ((root.setup request).2.toOption.getD []).filter
      (fun h => !h.installed) = [] := by
    rw [answer_setup, List.filter_eq_nil_iff]
    intro h hmem
    cases hfault : request.fault? with
    | none =>
        rw [hfault] at hmem
        simp [installed_of_mem_handlersFor hmem]
    | some fault =>
        rw [hfault] at hmem
        cases hmem
  rw [foreign, handlers_setup, List.filter_append, hkept, hnone,
    List.append_nil]

theorem level_setup (root : LogRoot) (request : LogSetup) :
    (root.setup request).1.level = request.level?.getD root.level := by
  rcases root.setup_cases request with ⟨_, hlevel, -, hsetup⟩ |
    ⟨_, _, hlevel, -, hsetup⟩ | ⟨_, hlevel, -, hsetup⟩ <;>
    rw [hsetup, hlevel] <;> rfl

theorem context_setup (root : LogRoot) (request : LogSetup) :
    (root.setup request).1.context =
      if request.returns then LogFields.setAll root.context request.context
      else root.context := by
  rcases root.setup_cases request with ⟨_, -, hfault, hsetup⟩ |
    ⟨_, _, -, hfault, hsetup⟩ | ⟨_, -, hfault, hsetup⟩ <;>
    rw [hsetup, LogSetup.returns, hfault] <;> rfl

theorem setup_of_level_error {fault : LogLevel.NameError}
    (herror : (root.setup request).2 = .error (.level fault)) :
    (root.setup request).1 = { root with handlers := root.foreign } := by
  rcases root.setup_cases request with ⟨_, -, -, hsetup⟩ |
    ⟨_, _, -, -, hsetup⟩ | ⟨_, -, -, hsetup⟩
  · rw [hsetup]
  · simp [hsetup] at herror
  · simp [hsetup] at herror

theorem setup_of_file_error {reason : String}
    (herror : (root.setup request).2 = .error (.file reason)) :
    ∃ level, request.level? = some level ∧
      (root.setup request).1 = { root with level, handlers := root.foreign } := by
  rcases root.setup_cases request with ⟨_, -, -, hsetup⟩ |
    ⟨level, _, hlevel, -, hsetup⟩ | ⟨_, -, -, hsetup⟩
  · simp [hsetup] at herror
  · exact ⟨level, hlevel, by rw [hsetup]⟩
  · simp [hsetup] at herror

/-! ## Many set-ups -/

theorem setupAll_cons (root : LogRoot) (request : LogSetup)
    (requests : List LogSetup) :
    root.setupAll (request :: requests) =
      (root.setup request).1.setupAll requests := rfl

theorem foreign_setupAll (root : LogRoot) (requests : List LogSetup) :
    (root.setupAll requests).foreign = root.foreign := by
  induction requests generalizing root with
  | nil => rfl
  | cons request requests ih =>
      rw [setupAll_cons, ih, foreign_setup]

/-- The level is that of the last set-up whose level means something. -/
theorem level_setupAll (root : LogRoot) (requests : List LogSetup) :
    (root.setupAll requests).level =
      (requests.filterMap LogSetup.level?).getLastD root.level := by
  induction requests generalizing root with
  | nil => rfl
  | cons request requests ih =>
      rw [setupAll_cons, ih, level_setup]
      cases hlevel : request.level? with
      | none => rw [List.filterMap_cons_none hlevel, Option.getD_none]
      | some level =>
          rw [List.filterMap_cons_some hlevel, List.getLastD_cons,
            Option.getD_some]

/-- The fields of the context are those of the set-ups that returned. -/
theorem context_setupAll (root : LogRoot) (requests : List LogSetup) :
    (root.setupAll requests).context =
      (requests.filter LogSetup.returns).foldl
        (fun context request => LogFields.setAll context request.context)
        root.context := by
  induction requests generalizing root with
  | nil => rfl
  | cons request requests ih =>
      rw [setupAll_cons, ih, context_setup]
      by_cases hreturns : request.returns = true
      · rw [if_pos hreturns, List.filter_cons_of_pos hreturns,
          List.foldl_cons]
      · rw [if_neg hreturns, List.filter_cons_of_neg hreturns]

theorem setupAll_concat (root : LogRoot) (requests : List LogSetup)
    (request : LogSetup) :
    root.setupAll (requests ++ [request]) =
      ((root.setupAll requests).setup request).1 := by
  rw [setupAll, List.foldl_append]
  rfl

end LogRoot

/-- After any set-ups the root has the handlers of others, in their order, and
behind them exactly the handlers that the last set-up returned.  A set-up
returns if the name of its level means something and its file, if it has one,
is not refused.  The level is that of the last set-up whose level means
something, and only set-ups that return count for the context.  One that stops
at the name of its level changes nothing but the handlers: those of an earlier
set-up are gone, so it leaves the root as it was only if there were none.  One
that stops at its file has changed the level as well. -/
theorem setup_leaves_foreign_and_returned (root : LogRoot)
    (requests : List LogSetup) (request : LogSetup) :
    let before := root.setupAll requests
    let after := root.setupAll (requests ++ [request])
    let answer := (before.setup request).2
    answer = request.fault?.elim (.ok (before.handlersFor request)) .error ∧
      after.handlers = root.foreign ++ answer.toOption.getD [] ∧
      after.level = ((requests ++ [request]).filterMap
        LogSetup.level?).getLastD root.level ∧
      after.context = ((requests ++ [request]).filter LogSetup.returns).foldl
        (fun context request => LogFields.setAll context request.context)
        root.context ∧
      (∀ fault, answer = .error (.level fault) →
        after = { before with handlers := root.foreign } ∧
          (after = before ↔ ∀ h ∈ before.handlers, h.installed = false)) ∧
      ∀ reason, answer = .error (.file reason) →
        ∃ level, request.level? = some level ∧
          after = { before with level, handlers := root.foreign } ∧
          (after = before ↔ level = before.level ∧
            ∀ h ∈ before.handlers, h.installed = false) := by
  intro before after answer
  have hforeign : before.foreign = root.foreign :=
    LogRoot.foreign_setupAll root requests
  have hafter : after = (before.setup request).1 :=
    LogRoot.setupAll_concat root requests request
  have hhandlers : after.handlers = root.foreign ++ answer.toOption.getD [] := by
    rw [hafter, LogRoot.handlers_setup, hforeign]
  refine ⟨before.answer_setup request, hhandlers,
    LogRoot.level_setupAll root (requests ++ [request]),
    LogRoot.context_setupAll root (requests ++ [request]), ?_, ?_⟩
  · intro fault hfault
    have hleft : after = { before with handlers := root.foreign } := by
      rw [hafter, LogRoot.setup_of_level_error hfault, hforeign]
    refine ⟨hleft, ?_⟩
    rw [← LogRoot.foreign_eq_handlers_iff, hforeign, hleft]
    constructor
    · exact congrArg LogRoot.handlers
    · intro hkept
      rw [hkept]
  · intro reason hreason
    obtain ⟨level, hlevel, hstopped⟩ := LogRoot.setup_of_file_error hreason
    have hleft : after = { before with level, handlers := root.foreign } := by
      rw [hafter, hstopped, hforeign]
    refine ⟨level, hlevel, hleft, ?_⟩
    rw [← LogRoot.foreign_eq_handlers_iff, hforeign, hleft]
    constructor
    · intro hsame
      exact ⟨congrArg LogRoot.level hsame, congrArg LogRoot.handlers hsame⟩
    · rintro ⟨hkept, hhandlers⟩
      rw [hkept, hhandlers]

/-- A root with a handler of its own, which no set-up has installed. -/
def LogRoot.sample : LogRoot where
  onTerminal := false
  handlers :=
    [{ target := .console, formatter := {}, installed := false }]

/-- The name of a level may be written in small letters. -/
theorem setup_leaves_foreign_and_returned_sample :
    let requests : List LogSetup :=
      [{ level := "DEBUG" }, { level := "none" }, { level := "error" }]
    let unknown : LogSetup := { level := "loud" }
    let refused : LogSetup :=
      { level := "info"
        file? := some { path := "/", refusal? := some "Is a directory: '/'" } }
    let after := LogRoot.sample.setupAll (requests ++ [unknown])
    let after' := LogRoot.sample.setupAll (requests ++ [refused])
    after.handlers = LogRoot.sample.handlers ∧ after.level = 40 ∧
      after ≠ LogRoot.sample.setupAll requests ∧
      after'.handlers = LogRoot.sample.handlers ∧ after'.level = 20 ∧
      after' ≠ LogRoot.sample.setupAll requests := by
  intro requests unknown refused after after'
  obtain ⟨hanswer, hhandlers, hlevel, -, hunknown, -⟩ :=
    setup_leaves_foreign_and_returned .sample requests unknown
  obtain ⟨hanswer', hhandlers', hlevel', -, -, hrefused⟩ :=
    setup_leaves_foreign_and_returned .sample requests refused
  have hfault : unknown.fault? = some (.level (.unknown "LOUD")) := by
    decide +kernel
  have hfault' : refused.fault? =
      some (.file "Is a directory: '/'") := by
    decide +kernel
  rw [hfault] at hanswer
  rw [hfault'] at hanswer'
  rw [hanswer] at hhandlers
  rw [hanswer'] at hhandlers'
  have hlevels : (requests ++ [unknown]).filterMap LogSetup.level? =
      [10, 40] := by
    decide +kernel
  have hlevels' : (requests ++ [refused]).filterMap LogSetup.level? =
      [10, 40, 20] := by
    decide +kernel
  rw [hlevels] at hlevel
  rw [hlevels'] at hlevel'
  have hinstalled : ¬∀ h ∈ (LogRoot.sample.setupAll requests).handlers,
      h.installed = false := by
    decide +kernel
  refine ⟨hhandlers, hlevel, ?_, hhandlers', hlevel', ?_⟩
  · intro hsame
    exact hinstalled ((hunknown _ hanswer).2.mp hsame)
  · intro hsame
    obtain ⟨_, -, -, hkept⟩ := hrefused _ hanswer'
    exact hinstalled (hkept.mp hsame).2

/-- A set-up that fails takes the handlers of the one before it away. -/
theorem not_every_failed_setup_atomic :
    ¬∀ (root : LogRoot) (requests : List LogSetup) (request : LogSetup)
        (fault : LogLevel.NameError),
      ((root.setupAll requests).setup request).2 = .error (.level fault) →
        (root.setupAll (requests ++ [request])).handlers =
          (root.setupAll requests).handlers := by
  intro hatomic
  have hkept := hatomic { onTerminal := false } [{ level := "INFO" }]
    { level := "BOGUS" } (.unknown "BOGUS") (by decide +kernel)
  revert hkept
  decide +kernel

end TreeGrowth
