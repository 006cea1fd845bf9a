import Pipework.Run.Execute

/-!
# How steps pass

`Passes` says in one place all that running a step can do: which attempts are made and in which
states, what decides how the step ends, and the run it leaves. `runStep_passes` ties it to
`Executor.runStep`. Proofs about steps go by the cases of `Passes` and open no step function.

What decides is documented with the policies of a step. A step without a handler stops the run
whatever its policy is, and so does an error that is not recoverable. Any other error of the first
attempt is the policy's; a second attempt is made only under `retry`, and its error stops the run.

`Walks` puts steps together to a run: one after the other, up to the first that ends it.
-/

namespace Pipework

/-- How a step ended. Values are those that replace the data, so never null. -/
inductive Passage where
  | completed (value : Option Json)
  | skipped (e : PipelineError)
  | recovered (e : PipelineError) (value : Option Json)
  | stopped (e : PipelineError)
  | stoppedAgain (first second : PipelineError)

namespace Passage

/-- The error with which a step ended the run, if it did. -/
def failure : Passage → Option PipelineError
  | .completed _ | .skipped _ | .recovered _ _ => none
  | .stopped e => some e
  | .stoppedAgain _ e => some e

/-- Did an attempt of the step succeed? -/
def Completes : Passage → Prop
  | .completed _ | .recovered _ _ => True
  | .skipped _ | .stopped _ | .stoppedAgain _ _ => False

/-- A step that ended the run did not complete. -/
theorem not_completes_of_failure {passage : Passage} {e : PipelineError}
    (ended : passage.failure = some e) : ¬ passage.Completes := by
  cases passage <;> first | exact id | cases ended

/-- What the step gives the run: that error, or nothing to stop for. -/
def result (passage : Passage) : Except PipelineError Unit :=
  match passage.failure with
  | some e => .error e
  | none => .ok ()

/-- The step gives an error exactly when it ended the run with it. -/
theorem result_eq_error {passage : Passage} {e : PipelineError} :
    passage.result = .error e ↔ passage.failure = some e := by
  cases passage <;> simp [result, failure]

/-- The step gives nothing exactly when it did not end the run. -/
theorem result_eq_ok {passage : Passage} : passage.result = .ok () ↔ passage.failure = none := by
  cases passage <;> simp [result, failure]

end Passage

/-- The value that replaces the data: a null counts as none. -/
def replacing (value : Option Json) : Option Json :=
  value.filter fun v => !v.isNull

variable {σ : Type}

/-- What telling each hook preserves, telling all of them preserves. -/
theorem Run.notify_preserves {P : Run σ → Prop} {hooks : List (Hook σ)} {callback : Callback}
    (tells : ∀ hook ∈ hooks, ∀ place r, P r → P (r.tell callback (hook, place))) {r : Run σ}
    (holds : P r) : P (r.notify hooks callback) := by
  have told : ∀ (pairs : List (Hook σ × Nat)) (r : Run σ), (∀ pair ∈ pairs, pair.1 ∈ hooks) →
      P r → P (pairs.foldl (fun r hook => r.tell callback hook) r) := by
    intro pairs
    induction pairs with
    | nil => exact fun r _ holds => holds
    | cons pair pairs ih =>
      intro r mem holds
      apply ih _ fun other h => mem other (List.mem_cons_of_mem _ h)
      exact tells pair.1 (mem pair List.mem_cons_self) pair.2 r holds
  exact told hooks.zipIdx r (fun pair mem => List.fst_mem_of_mem_zipIdx mem) holds

/-- What a pipeline declares are variables and, where there is none, the domain. -/
theorem Executor.declare_eq (p : Pipeline) (c : Context) :
    declare p c = { c with
      vars := p.vars.foldl (fun vars (name, value) => vars.set name value) c.vars
      domain := c.domain <|> p.domain } := by
  have declared : ∀ (vars : Fields) (c : Context),
      vars.foldl (fun c (name, value) => c.setVariable name value) c =
        { c with vars := vars.foldl (fun vars (name, value) => vars.set name value) c.vars } := by
    intro vars
    induction vars with
    | nil => exact fun _ => rfl
    | cons var vars ih => exact fun c => ih (c.setVariable var.1 var.2)
  simp only [declare, declared]

namespace Task

/-- The first attempt of a step. -/
def first (t : Task σ) (mode : Mode) (r : Run σ) : Except PipelineError (Option Json) × Run σ :=
  t.attempt mode (t.prepare r.context) r

/-- The second attempt, made after it was announced. `start` is the run in which the first attempt
was made and in which its parameters were prepared. -/
def second (t : Task σ) (hooks : List (Hook σ)) (mode : Mode) (start r : Run σ) :
    Except PipelineError (Option Json) × Run σ :=
  let r := r.announceRetry hooks t.index t.step
  t.attempt mode (t.preparedOr (t.prepare start.context) r.context) r

/-- A first attempt that succeeds completes the step. -/
theorem run_of_ok {t : Task σ} {hooks : List (Hook σ)} {mode : Mode} {r r₁ : Run σ}
    {value : Option Json} (first : t.first mode r = (.ok value, r₁)) :
    t.run hooks mode r = r₁.complete hooks t.index t.step value := by
  unfold Task.first at first
  simp only [Task.run, first]

/-- A first attempt that fails leaves the step to the policy for its error. -/
theorem run_of_error {t : Task σ} {hooks : List (Hook σ)} {mode : Mode} {r r₁ : Run σ}
    {e : PipelineError} (first : t.first mode r = (.error e, r₁)) :
    t.run hooks mode r =
      match t.step.policyFor e with
      | .stop => r₁.stopAt hooks t.index t.step e
      | .skip => r₁.skipOver hooks t.index t.step e
      | .retry =>
        match t.second hooks mode r (r₁.recordFailure hooks t.index t.step e) with
        | (.ok value, r₂) => r₂.complete hooks t.index t.step value
        | (.error e', r₂) => r₂.stopAt hooks t.index t.step e' := by
  unfold Task.first at first
  simp only [Task.run, first]
  rfl

end Task

namespace Executor

/-- A step counted and announced, before its handler is looked for. -/
def enter (ex : Executor σ) (index : Nat) (step : Step) (r : Run σ) : Run σ :=
  { r with context := r.context.enterStep }.notify ex.hooks (.beforeStep index step)

/-- The step, run from `r`, passes in this way and leaves this run. -/
inductive Passes (ex : Executor σ) (mode : Mode) (index : Nat) (step : Step) (r : Run σ) :
    Passage → Run σ → Prop
  | unknown
      (missing : ex.registry.lookup step.atom.type step.atom.action = none) :
      Passes ex mode index step r (.stopped (.unknownAtom step.atom.type.name step.atom.action))
        ((ex.enter index step r).stopAt ex.hooks index step
          (.unknownAtom step.atom.type.name step.atom.action)).2
  | completed {atom : Registered σ} {value : Option Json} {r₁ : Run σ}
      (found : ex.registry.lookup step.atom.type step.atom.action = some atom)
      (first : (Task.mk index step atom).first mode (ex.enter index step r) = (.ok value, r₁)) :
      Passes ex mode index step r (.completed (replacing value))
        (r₁.complete ex.hooks index step value).2
  | stopped {atom : Registered σ} {e : PipelineError} {r₁ : Run σ}
      (found : ex.registry.lookup step.atom.type step.atom.action = some atom)
      (first : (Task.mk index step atom).first mode (ex.enter index step r) = (.error e, r₁))
      (final : e.isRecoverable = false ∨ step.onError = .stop) :
      Passes ex mode index step r (.stopped e) (r₁.stopAt ex.hooks index step e).2
  | skipped {atom : Registered σ} {e : PipelineError} {r₁ : Run σ}
      (found : ex.registry.lookup step.atom.type step.atom.action = some atom)
      (first : (Task.mk index step atom).first mode (ex.enter index step r) = (.error e, r₁))
      (recoverable : e.isRecoverable = true) (policy : step.onError = .skip) :
      Passes ex mode index step r (.skipped e) (r₁.skipOver ex.hooks index step e).2
  | recovered {atom : Registered σ} {e : PipelineError} {value : Option Json} {r₁ r₂ : Run σ}
      (found : ex.registry.lookup step.atom.type step.atom.action = some atom)
      (first : (Task.mk index step atom).first mode (ex.enter index step r) = (.error e, r₁))
      (recoverable : e.isRecoverable = true) (policy : step.onError = .retry)
      (second : (Task.mk index step atom).second ex.hooks mode (ex.enter index step r)
        (r₁.recordFailure ex.hooks index step e) = (.ok value, r₂)) :
      Passes ex mode index step r (.recovered e (replacing value))
        (r₂.complete ex.hooks index step value).2
  | stoppedAgain {atom : Registered σ} {e e' : PipelineError} {r₁ r₂ : Run σ}
      (found : ex.registry.lookup step.atom.type step.atom.action = some atom)
      (first : (Task.mk index step atom).first mode (ex.enter index step r) = (.error e, r₁))
      (recoverable : e.isRecoverable = true) (policy : step.onError = .retry)
      (second : (Task.mk index step atom).second ex.hooks mode (ex.enter index step r)
        (r₁.recordFailure ex.hooks index step e) = (.error e', r₂)) :
      Passes ex mode index step r (.stoppedAgain e e') (r₂.stopAt ex.hooks index step e').2

/-- A step with a handler is its task, run when the step has been announced. -/
theorem runStep_of_found {ex : Executor σ} {mode : Mode} {index : Nat} {step : Step} {r : Run σ}
    {atom : Registered σ}
    (found : ex.registry.lookup step.atom.type step.atom.action = some atom) :
    ex.runStep mode index step r =
      Task.run ⟨index, step, atom⟩ ex.hooks mode (ex.enter index step r) := by
  simp only [runStep, found]
  rfl

/-- A step without a handler stops the run when it has been announced. -/
theorem runStep_of_missing {ex : Executor σ} {mode : Mode} {index : Nat} {step : Step} {r : Run σ}
    (missing : ex.registry.lookup step.atom.type step.atom.action = none) :
    ex.runStep mode index step r = (ex.enter index step r).stopAt ex.hooks index step
      (.unknownAtom step.atom.type.name step.atom.action) := by
  simp only [runStep, missing]
  rfl

/-- Every step passes in some way, and gives the run what it passes with. -/
theorem runStep_passes (ex : Executor σ) (mode : Mode) (index : Nat) (step : Step) (r : Run σ) :
    ∃ passage, ex.Passes mode index step r passage (ex.runStep mode index step r).2 ∧
      (ex.runStep mode index step r).1 = passage.result := by
  cases found : ex.registry.lookup step.atom.type step.atom.action with
  | none =>
    rw [runStep_of_missing found]
    exact ⟨_, .unknown found, rfl⟩
  | some atom =>
    rw [runStep_of_found found]
    rcases first : (Task.mk index step atom).first mode (ex.enter index step r) with ⟨e | value, r₁⟩
    · rw [Task.run_of_error first]
      -- The policy has a say only in an error that is recoverable.
      by_cases recoverable : e.isRecoverable = true
      · have policyFor : step.policyFor e = step.onError := if_pos recoverable
        cases policy : step.onError with
        | stop =>
          simp only [policyFor, policy]
          exact ⟨_, .stopped found first (.inr policy), rfl⟩
        | skip =>
          simp only [policyFor, policy]
          exact ⟨_, .skipped found first recoverable policy, rfl⟩
        | retry =>
          simp only [policyFor, policy]
          rcases second : (Task.mk index step atom).second ex.hooks mode (ex.enter index step r)
            (r₁.recordFailure ex.hooks index step e) with ⟨e' | value, r₂⟩
          · exact ⟨_, .stoppedAgain found first recoverable policy second, rfl⟩
          · exact ⟨_, .recovered found first recoverable policy second, rfl⟩
      · have policyFor : step.policyFor e = .stop := if_neg recoverable
        simp only [policyFor]
        exact ⟨_, .stopped found first (.inl (Bool.eq_false_iff.mpr recoverable)), rfl⟩
    · rw [Task.run_of_ok first]
      exact ⟨_, .completed found first, rfl⟩

/-! ## All steps -/

/-- The steps, run from the first run and counted from the index, pass in these ways, with this
result and this last run. Only a step that ends the run is the last without being the last step. -/
inductive Walks (ex : Executor σ) (mode : Mode) :
    Nat → List Step → Run σ → List Passage → Except PipelineError Unit → Run σ → Prop
  | done {index : Nat} {r : Run σ} : Walks ex mode index [] r [] (.ok ()) r
  | stop {index : Nat} {step : Step} {steps : List Step} {passage : Passage} {e : PipelineError}
      {r r' : Run σ} (passes : ex.Passes mode index step r passage r')
      (failure : passage.failure = some e) :
      Walks ex mode index (step :: steps) r [passage] (.error e) r'
  | next {index : Nat} {step : Step} {steps : List Step} {passage : Passage}
      {passages : List Passage} {result : Except PipelineError Unit} {r r₁ r' : Run σ}
      (passes : ex.Passes mode index step r passage r₁) (failure : passage.failure = none)
      (rest : Walks ex mode (index + 1) steps r₁ passages result r') :
      Walks ex mode index (step :: steps) r (passage :: passages) result r'

/-- Running steps is a walk over them. -/
theorem runSteps_walks (ex : Executor σ) (mode : Mode) (index : Nat) (steps : List Step)
    (r : Run σ) :
    ∃ passages, ex.Walks mode index steps r passages (ex.runSteps mode index steps r).1
      (ex.runSteps mode index steps r).2 := by
  induction steps generalizing index r with
  | nil => exact ⟨[], .done⟩
  | cons step steps ih =>
    obtain ⟨passage, passes, given⟩ := ex.runStep_passes mode index step r
    rw [runSteps]
    rcases ran : ex.runStep mode index step r with ⟨e | ⟨⟩, r₁⟩ <;> rw [ran] at passes given
    · exact ⟨[passage], .stop passes (Passage.result_eq_error.mp given.symm)⟩
    · obtain ⟨passages, walks⟩ := ih (index + 1) r₁
      exact ⟨passage :: passages, .next passes (Passage.result_eq_ok.mp given.symm) walks⟩

namespace Walks

variable {ex : Executor σ} {mode : Mode} {index : Nat} {steps : List Step} {r r' : Run σ}
  {passages : List Passage} {result : Except PipelineError Unit}

/-- A walk succeeds exactly when it comes to all steps and none of them ends the run. -/
theorem result_eq_ok_iff (walks : ex.Walks mode index steps r passages result r') :
    result = .ok () ↔
      passages.length = steps.length ∧ ∀ passage ∈ passages, passage.failure = none := by
  induction walks with
  | done => simp only [List.length_nil, List.not_mem_nil, false_imp_iff, implies_true, and_self]
  | stop passes failure =>
    simp only [reduceCtorEq, List.mem_singleton, forall_eq, failure, and_false]
  | next passes failure rest ih =>
    simp only [ih, List.length_cons, Nat.add_right_cancel_iff, List.forall_mem_cons, failure,
      true_and]

/-- A walk fails with an error exactly when the last step it comes to ends the run with it. -/
theorem result_eq_error_iff (walks : ex.Walks mode index steps r passages result r')
    (e : PipelineError) : result = .error e ↔
      ∃ passage, passages.getLast? = some passage ∧ passage.failure = some e := by
  induction walks with
  | done => simp only [reduceCtorEq, List.getLast?_nil, false_and, exists_false]
  | stop passes failure =>
    simp only [List.getLast?_singleton, Option.some.injEq, exists_eq_left', failure,
      Except.error.injEq]
  | @next _ _ _ passage passages _ _ _ _ passes failure rest ih =>
    rw [ih]
    cases passages with
    | nil =>
      simp only [List.getLast?_nil, reduceCtorEq, false_and, exists_false, List.getLast?_singleton,
        Option.some.injEq, exists_eq_left', failure]
    | cons next passages => rw [List.getLast?_cons_cons]

end Walks

end Executor

end Pipework
