import Pipework.Proofs.Run.Missing
import Pipework.Proofs.Run.Simulation

/-!
# Handlers that a blocking run cannot wait for

A blocking run does not call a handler that has to be waited for. It finds out when the parameters of
the call have been prepared, and stops there with an error that no policy may act on. But parameters
are prepared first. Where a reference has no value or a declaration is not met, that is the error,
and the policy of the step may act on it as on any failure of a handler: the step may be skipped, and
the run goes on though it has come to a handler that it cannot call.

`run_of_awaited` says all that such a step can do.
-/

namespace Pipework

variable {σ : Type}

namespace Task

variable {t : Task σ}

/-- Why a blocking run does not call a handler that has to be waited for: there are no parameters for
the call, or it would have to wait. -/
def refusal (t : Task σ) : Except PipelineError Params → PipelineError
  | .ok _ => .asyncOnly t.step.atom.qualifiedName
  | .error e => e

/-- An attempt to call the handler fails and changes nothing. -/
theorem attempt_of_awaited (awaited : t.atom.handler.isAsync = true)
    (prepared : Except PipelineError Params) (r : Run σ) :
    t.attempt .blocking prepared r = (.error (t.refusal prepared), r) := by
  cases prepared with
  | error e => rfl
  | ok params =>
    simp only [attempt, invoke, awaited, BEq.rfl, Bool.and_self, ↓reduceIte, refusal]

/-- **What becomes of the step.** If there are parameters, it stops the run whatever its policy is.
If there are none, its policy acts on what is wrong with them. -/
theorem run_of_awaited (awaited : t.atom.handler.isAsync = true) (hooks : List (Hook σ))
    (r : Run σ) :
    t.run hooks .blocking r =
      match t.prepare r.context with
      | .ok _ => r.stopAt hooks t.index t.step (.asyncOnly t.step.atom.qualifiedName)
      | .error e =>
        match t.step.onError with
        | .stop => r.stopAt hooks t.index t.step e
        | .skip => r.skipOver hooks t.index t.step e
        | .retry =>
          let again := (r.recordFailure hooks t.index t.step e).announceRetry hooks t.index t.step
          again.stopAt hooks t.index t.step (t.refusal (t.prepare again.context)) := by
  have first : t.first .blocking r = (.error (t.refusal (t.prepare r.context)), r) :=
    attempt_of_awaited awaited _ r
  rw [run_of_error first]
  cases prepared : t.prepare r.context with
  | ok params => rfl
  | error e =>
    have policy : t.step.policyFor (t.refusal (.error e)) = t.step.onError :=
      if_pos (isRecoverable_of_prepare prepared)
    simp only [policy]
    cases t.step.onError with
    | stop => rfl
    | skip => rfl
    | retry =>
      simp only [second, attempt_of_awaited awaited, prepared, preparedOr]
      rfl

end Task

namespace Executor

/-- Where the steps in front of a step do not end the run, the steps come to what the step gives, and
the steps behind it if it does not end the run. -/
theorem runSteps_of_reached {ex : Executor σ} {mode : Mode} {before after : List Step} {step : Step}
    {atom : Registered σ} (found : ex.registry.lookup step.atom.type step.atom.action = some atom)
    {index : Nat} {r : Run σ} (reached : (ex.runSteps mode index before r).1 = .ok ()) :
    ex.runSteps mode index (before ++ step :: after) r =
      andThen (ex.runSteps mode (index + before.length + 1) after)
        (Task.run ⟨index + before.length, step, atom⟩ ex.hooks mode
          (ex.enter (index + before.length) step (ex.runSteps mode index before r).2)) := by
  rw [runSteps_append]
  rcases ran : ex.runSteps mode index before r with ⟨result, r₁⟩
  rw [ran] at reached
  subst reached
  simp only [runSteps_cons, runStep_of_found found]

/-- **A blocking run stops at a handler that it cannot wait for, once it has parameters for it.** Let
it come to a step with such a handler. If parameters can be prepared, it stops there whatever the
policy of the step is. If they cannot, the error is recoverable and the policy acts on it: the run
stops with it, or after a second preparation, or it goes on with the steps behind. -/
theorem blocking_run_stops_once_prepared (ex : Executor σ) {p : Pipeline} {before after : List Step}
    {step : Step} {atom : Registered σ} (split : p.steps = before ++ step :: after)
    (found : ex.registry.lookup step.atom.type step.atom.action = some atom)
    (awaited : atom.handler.isAsync = true) (r : Run σ)
    (reached : (ex.runSteps .blocking 0 before (ex.start p r)).1 = .ok ()) :
    let index := before.length
    let t : Task σ := ⟨index, step, atom⟩
    let entered := ex.enter index step (ex.runSteps .blocking 0 before (ex.start p r)).2
    let ended := ex.runSteps .blocking 0 p.steps (ex.start p r)
    (ex.execute .blocking p r).1 = ended.1 ∧
    (∀ params, t.prepare entered.context = .ok params →
      ended = entered.stopAt ex.hooks index step (.asyncOnly step.atom.qualifiedName)) ∧
    ∀ e, t.prepare entered.context = .error e →
      e.isRecoverable = true ∧
      (step.onError = .stop → ended = entered.stopAt ex.hooks index step e) ∧
      (step.onError = .retry →
        let again := (entered.recordFailure ex.hooks index step e).announceRetry ex.hooks index step
        ended = again.stopAt ex.hooks index step (t.refusal (t.prepare again.context))) ∧
      (step.onError = .skip → ended = ex.runSteps .blocking (index + 1) after
        (entered.skipOver ex.hooks index step e).2) := by
  intro index t entered ended
  have ran : ended = andThen _ _ := (congrArg (ex.runSteps .blocking 0 · (ex.start p r)) split).trans
    (runSteps_of_reached found reached)
  rw [Nat.zero_add, Task.run_of_awaited awaited] at ran
  refine ⟨rfl, fun params prepared => ?_, fun e prepared =>
    ⟨Task.isRecoverable_of_prepare prepared, fun policy => ?_, fun policy => ?_, fun policy => ?_⟩⟩
  · simp only [t, index, entered] at prepared
    simp only [prepared] at ran
    exact ran
  all_goals
    simp only [t, index, entered] at prepared
    simp only [prepared, policy] at ran
    exact ran

/-- An executor with two hooks and two handlers, one of which has to be waited for. -/
def halfAwaited : Executor Unit where
  hooks := [.logging, .events]
  registry := [
    ((.data, "load"), { info := {}, handler := { isAsync := false, run := loaded } }),
    ((.source, "fetch"), { info := {}, handler := { isAsync := true, run := loaded } })]
where
  loaded (call : Call Unit) : Reply Unit :=
    { outcome := .ok (some (.string "loaded")), memory := call.memory, notes := [], state := () }

/-- Two calls of the handler that has to be waited for, both to be skipped when they fail, and one of
the other handler. The first call refers to a variable without a value. -/
def fetchingTwice : Pipeline where
  name := "fetching twice"
  steps := [{ atom := ⟨.source, "fetch", [("table", .string "$missing")]⟩, onError := .skip },
    { atom := ⟨.source, "fetch", []⟩, onError := .skip },
    { atom := ⟨.data, "load", []⟩ }]

/-- The first call is skipped and the second stops the run, though it is to be skipped as well. -/
theorem second_fetch_stops_the_run :
    (halfAwaited.runSteps .blocking 0 (fetchingTwice.steps.take 1)
        (halfAwaited.start fetchingTwice ⟨{}, (), []⟩)).1 = .ok () ∧
    (halfAwaited.execute .blocking fetchingTwice ⟨{}, (), []⟩).1 =
      .error (.asyncOnly "source.fetch") ∧
    (halfAwaited.execute .blocking fetchingTwice ⟨{}, (), []⟩).2.context.stepCount = 2 := by
  have reached : (halfAwaited.runSteps .blocking 0 (fetchingTwice.steps.take 1)
      (halfAwaited.start fetchingTwice ⟨{}, (), []⟩)).1 = .ok () := rfl
  have split : fetchingTwice.steps = fetchingTwice.steps.take 1 ++
    { atom := ⟨.source, "fetch", []⟩, onError := .skip } :: [{ atom := ⟨.data, "load", []⟩ }] := rfl
  obtain ⟨result, stops, -⟩ :=
    blocking_run_stops_once_prepared halfAwaited split rfl rfl ⟨{}, (), []⟩ reached
  refine ⟨reached, ?_, rfl⟩
  rw [result, stops _ rfl]
  rfl

/-- The first of these calls, and one of the other handler. -/
def fetchingUnprepared : Pipeline where
  name := "fetching unprepared"
  steps := [{ atom := ⟨.source, "fetch", [("table", .string "$missing")]⟩, onError := .skip },
    { atom := ⟨.data, "load", []⟩ }]

/-- A blocking run goes past a handler that it would have to wait for: it has entered both steps and
succeeded, for the first was skipped for want of parameters. -/
theorem unprepared_fetch_is_skipped :
    (∃ atom, halfAwaited.registry.lookup .source "fetch" = some atom ∧
      atom.handler.isAsync = true) ∧
    (halfAwaited.execute .blocking fetchingUnprepared ⟨{}, (), []⟩).1 = .ok () ∧
    (halfAwaited.execute .blocking fetchingUnprepared ⟨{}, (), []⟩).2.context.stepCount = 2 :=
  ⟨⟨_, rfl, rfl⟩, rfl, rfl⟩

end Executor

end Pipework
