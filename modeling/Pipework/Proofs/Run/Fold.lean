import Pipework.Proofs.Run.Passage

/-!
# A run as a fold

With hooks that leave the inputs of a run alone, a step can be said more simply than it is run: its
parameters are prepared once, from the variables it starts with, and each of its attempts is made with
them.

A run itself prepares the parameters after the hooks have been told of the step, keeps them only if
that succeeded, and otherwise prepares them again for the second attempt. What a handler does to the
variables is not seen by either preparation, for the second one follows only where no handler has
been called.
-/

namespace Pipework

variable {σ : Type}

/-- The hook changes neither the variables nor the data. -/
def Hook.SparesInputs (hook : Hook σ) : Prop :=
  ∀ callback c state, (hook.react callback c state).context.vars = c.vars ∧
    (hook.react callback c state).context.data = c.data

/-- A hook that writes to the log leaves the inputs. -/
theorem Hook.sparesInputs_ofLog (write : Callback → Context → Option (String × LogLevel)) :
    (ofLog write : Hook σ).SparesInputs := by
  intro callback c state
  simp only [ofLog]
  split <;> exact ⟨rfl, rfl⟩

/-- A hook that sends signals leaves the inputs. -/
theorem Hook.sparesInputs_ofSignal (send : Callback → Context → Option Signal) :
    (ofSignal send : Hook σ).SparesInputs :=
  fun _ _ _ => ⟨rfl, rfl⟩

/-! ## The variables between attempts -/

namespace Run

variable {hooks : List (Hook σ)} (spare : ∀ hook ∈ hooks, hook.SparesInputs)

include spare

/-- Telling the hooks leaves the variables. -/
theorem vars_notify (callback : Callback) (r : Run σ) :
    (r.notify hooks callback).context.vars = r.context.vars := by
  apply notify_preserves (P := fun r' => r'.context.vars = r.context.vars)
  · intro hook mem place r' same
    exact (spare hook mem callback r'.context r'.state).1.trans same
  · rfl

variable (index : Nat) (step : Step) (e : PipelineError) (r : Run σ)

/-- Recording a failure leaves the variables. -/
theorem vars_recordFailure :
    (r.recordFailure hooks index step e).context.vars = r.context.vars :=
  vars_notify spare (.onError index step e) r

/-- Announcing a second attempt leaves the variables. -/
theorem vars_announceRetry :
    (r.announceRetry hooks index step).context.vars = r.context.vars := by
  unfold announceRetry
  exact vars_notify spare _ (r.enter _)

end Run

/-- Entering a step leaves the variables. -/
theorem Executor.vars_enter {ex : Executor σ} (spare : ∀ hook ∈ ex.hooks, hook.SparesInputs)
    (index : Nat) (step : Step) (r : Run σ) :
    (ex.enter index step r).context.vars = r.context.vars :=
  Run.vars_notify spare (.beforeStep index step) { r with context := r.context.enterStep }

/-! ## Parameters are prepared once -/

namespace Task

variable (t : Task σ)

/-- Parameters depend on the variables and on nothing else. -/
theorem prepare_congr {c c' : Context} (vars : c'.vars = c.vars) : t.prepare c' = t.prepare c := by
  simp only [prepare, Context.lookup, vars]

/-- The second attempt has the parameters of the first, or is refused them for the same error. -/
theorem second_eq {hooks : List (Hook σ)} (spare : ∀ hook ∈ hooks, hook.SparesInputs) {mode : Mode}
    {start r₁ : Run σ} {e : PipelineError} (first : t.first mode start = (.error e, r₁)) :
    t.second hooks mode start (r₁.recordFailure hooks t.index t.step e) =
      t.attempt mode (t.prepare start.context)
        ((r₁.recordFailure hooks t.index t.step e).announceRetry hooks t.index t.step) := by
  unfold second
  cases prepared : t.prepare start.context with
  | ok params => rfl
  | error refused =>
    -- Without parameters there was no call, so the variables are still those of the first attempt.
    obtain rfl : start = r₁ := by
      simp only [Task.first, prepared, attempt] at first
      exact congrArg Prod.snd first
    have vars := (Run.vars_announceRetry spare t.index t.step
      (start.recordFailure hooks t.index t.step e)).trans
        (Run.vars_recordFailure spare t.index t.step e start)
    show t.attempt mode (t.prepare _) _ = _
    rw [t.prepare_congr vars, prepared]

/-- A step of which the calls are settled before the first: they are made with these parameters, the
second as the first, or not at all. -/
def settle (hooks : List (Hook σ)) (mode : Mode) (prepared : Except PipelineError Params)
    (r : Run σ) : Except PipelineError Unit × Run σ :=
  match t.attempt mode prepared r with
  | (.ok value, r) => r.complete hooks t.index t.step value
  | (.error e, r) =>
    match t.step.policyFor e with
    | .stop => r.stopAt hooks t.index t.step e
    | .skip => r.skipOver hooks t.index t.step e
    | .retry =>
      let r := (r.recordFailure hooks t.index t.step e).announceRetry hooks t.index t.step
      match t.attempt mode prepared r with
      | (.ok value, r) => r.complete hooks t.index t.step value
      | (.error e, r) => r.stopAt hooks t.index t.step e

/-- A task is run with its calls settled before the first. -/
theorem run_eq_settle {hooks : List (Hook σ)} (spare : ∀ hook ∈ hooks, hook.SparesInputs)
    (mode : Mode) (r : Run σ) : t.run hooks mode r = t.settle hooks mode (t.prepare r.context) r := by
  unfold settle
  rcases first : t.first mode r with ⟨e | value, r₁⟩ <;>
    have made : t.attempt mode (t.prepare r.context) r = _ := first <;>
    simp only [made]
  · rewrite [run_of_error first, second_eq t spare first]
    rfl
  · exact run_of_ok first

end Task

/-! ## The fold -/

namespace Executor

/-- A step with its calls settled when it starts. -/
def settle (ex : Executor σ) (mode : Mode) (index : Nat) (step : Step) (r : Run σ) :
    Except PipelineError Unit × Run σ :=
  let entered := ex.enter index step r
  match ex.registry.lookup step.atom.type step.atom.action with
  | none =>
    entered.stopAt ex.hooks index step (.unknownAtom step.atom.type.name step.atom.action)
  | some atom =>
    let t : Task σ := ⟨index, step, atom⟩
    t.settle ex.hooks mode (t.prepare r.context) entered

/-- The next step, unless a step before it has ended the run. -/
def foldStep (ex : Executor σ) (mode : Mode) :
    Except PipelineError Unit × Run σ → Step × Nat → Except PipelineError Unit × Run σ
  | (.ok (), r), (step, index) => ex.settle mode index step r
  | (.error e, r), _ => (.error e, r)

/-- Behind a failure the fold does nothing. -/
theorem foldl_foldStep_error (ex : Executor σ) (mode : Mode) (e : PipelineError) (r : Run σ)
    (steps : List (Step × Nat)) : steps.foldl (ex.foldStep mode) (.error e, r) = (.error e, r) := by
  induction steps with
  | nil => rfl
  | cons step steps ih => exact ih

variable {ex : Executor σ} (spare : ∀ hook ∈ ex.hooks, hook.SparesInputs) (mode : Mode)

include spare

/-- A step is run with its calls settled when it starts. -/
theorem runStep_eq_settle (index : Nat) (step : Step) (r : Run σ) :
    ex.runStep mode index step r = ex.settle mode index step r := by
  unfold settle
  cases found : ex.registry.lookup step.atom.type step.atom.action with
  | none => exact runStep_of_missing found
  | some atom =>
    have vars := vars_enter spare index step r
    rw [runStep_of_found found, Task.run_eq_settle _ spare, Task.prepare_congr _ vars]

/-- Steps are folded over, each with its place. -/
theorem runSteps_eq_foldl (index : Nat) (steps : List Step) (r : Run σ) :
    ex.runSteps mode index steps r =
      (steps.zipIdx index).foldl (ex.foldStep mode) (.ok (), r) := by
  induction steps generalizing index r with
  | nil => rfl
  | cons step steps ih =>
    rw [runSteps, List.zipIdx_cons, List.foldl_cons, foldStep, ← runStep_eq_settle spare]
    rcases ex.runStep mode index step r with ⟨e | ⟨⟩, r₁⟩
    · exact (ex.foldl_foldStep_error mode e r₁ _).symm
    · exact ih (index + 1) r₁

/-- **A run is a fold over its steps**, between the beginning and the end that hooks are told of. -/
theorem execute_eq_foldl (p : Pipeline) (r : Run σ) :
    ex.execute mode p r =
      let (result, r) := p.steps.zipIdx.foldl (ex.foldStep mode) (.ok (), ex.start p r)
      (result, r.notify ex.hooks (.afterPipeline p result)) := by
  rw [execute, runSteps_eq_foldl spare]

end Executor

end Pipework
