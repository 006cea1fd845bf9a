import Pipework.Registry
import Pipework.Run.Hook
import Pipework.Script.Parse

/-!
# Running a pipeline

A run takes the steps of a pipeline in order. For each it counts the step,
finds the handler, resolves references in the parameters and brings them into
the declared shape, and calls the handler. A value that is not null replaces
the data. A failure is recorded; what happens next is the step's policy, if the
error is one that a policy may act on.

`runStep` is one step, `runSteps` the walk over all of them, and `execute` the
whole run with its beginning and end. A blocking run differs from a waiting one
in `invoke` only.
-/

namespace Pipework

/-- May a run wait for handlers? -/
inductive Mode where
  | blocking
  | waiting
  deriving DecidableEq, Repr

/-- What a run changes: the context, the handlers' state, and the journal. -/
structure Run (σ : Type) where
  context : Context
  state : σ
  journal : Journal := []

namespace Run

variable {σ : Type}

/-- Adds an entry to the journal. -/
def enter (r : Run σ) (entry : Entry) : Run σ :=
  { r with journal := r.journal ++ [entry] }

/-- Adds the lines that reading a pipeline reported. -/
def reportAll (r : Run σ) (lines : List Report) : Run σ :=
  { r with journal := r.journal ++ lines.map fun line => .signal (.report line) }

/-- Tells one hook something. -/
def tell (r : Run σ) (callback : Callback) (hook : Hook σ × Nat) : Run σ :=
  let reaction := hook.1.react callback r.context r.state
  { context := reaction.context
    state := reaction.state
    journal := r.journal ++ .notice hook.2 callback :: reaction.signals.map .signal }

/-- Tells all hooks something, in their order. -/
def notify (hooks : List (Hook σ)) (callback : Callback) (r : Run σ) : Run σ :=
  hooks.zipIdx.foldl (fun r hook => r.tell callback hook) r

end Run

/-! ## One step -/

/-- A step as it is being run: its place, and what is registered for its atom. -/
structure Task (σ : Type) where
  index : Nat
  step : Step
  atom : Registered σ

namespace Task

variable {σ : Type}

/-- The failure of the step that a handler or a declaration check reports. -/
def failure (step : Step) (e : AtomError) : PipelineError :=
  .handler step.identifier e.message

/-- The parameters of the call: references resolved, declarations applied. -/
def prepare (t : Task σ) (c : Context) : Except PipelineError Params := do
  let resolved ← c.lookup.resolveFields t.step.atom.params
  (Params.normalize t.atom.info.params resolved).mapError (failure t.step)

/-- Calls the handler, unless the run would have to wait for it and cannot. -/
def invoke (t : Task σ) (mode : Mode) (params : Params) (r : Run σ) :
    Except PipelineError (Option Json) × Run σ :=
  if t.atom.handler.isAsync && mode == .blocking then
    (.error (.asyncOnly t.step.atom.qualifiedName), r)
  else
    let reply := t.atom.handler.run ⟨params, r.context.domain, r.context.toMemory, r.state⟩
    let entry := Entry.call t.step.atom.type t.step.atom.action params
    (reply.outcome.mapError (failure t.step),
      { context := r.context.absorb reply.memory reply.notes
        state := reply.state
        journal := r.journal ++ [entry] })

/-- The parameters of an attempt: those of the attempt before, or new ones. -/
def preparedOr (t : Task σ) (kept : Except PipelineError Params) (c : Context) :
    Except PipelineError Params :=
  match kept with
  | .ok params => .ok params
  | .error _ => t.prepare c

/-- Calls the handler if there are parameters for it. -/
def attempt (t : Task σ) (mode : Mode) (prepared : Except PipelineError Params) (r : Run σ) :
    Except PipelineError (Option Json) × Run σ :=
  match prepared with
  | .ok params => t.invoke mode params r
  | .error e => (.error e, r)

end Task

namespace Run

variable {σ : Type}

/-- Tells the hooks about a failure and records it. -/
def recordFailure (hooks : List (Hook σ)) (index : Nat) (step : Step) (e : PipelineError)
    (r : Run σ) : Run σ :=
  let r := r.notify hooks (.onError index step e)
  { r with context := r.context.recordFailure e step.identifier }

/-- A failure that ends the run. -/
def stopAt (hooks : List (Hook σ)) (index : Nat) (step : Step) (e : PipelineError) (r : Run σ) :
    Except PipelineError Unit × Run σ :=
  let r := r.recordFailure hooks index step e
  (.error e, r.enter (.report .debug
    ("Stopping at step " ++ placeText index step ++ ": " ++ e.message)))

/-- A failure that the run goes on after. -/
def skipOver (hooks : List (Hook σ)) (index : Nat) (step : Step) (e : PipelineError) (r : Run σ) :
    Except PipelineError Unit × Run σ :=
  let r := r.recordFailure hooks index step e
  (.ok (), r.enter (.report .warn
    ("Skipping failed step " ++ placeText index step ++ ": " ++ e.message)))

/-- The end of a step whose handler succeeded. A null counts as no value. -/
def complete (hooks : List (Hook σ)) (index : Nat) (step : Step) (value : Option Json) (r : Run σ) :
    Except PipelineError Unit × Run σ :=
  let value := value.filter fun v => !v.isNull
  let context := match value with
    | some data => r.context.setData data
    | none => r.context
  (.ok (), { r with context }.notify hooks (.afterStep index step value))

/-- Announces the second attempt of a step. -/
def announceRetry (hooks : List (Hook σ)) (index : Nat) (step : Step) (r : Run σ) : Run σ :=
  (r.enter (.report .debug ("Retrying step " ++ placeText index step))).notify hooks
    (.onRetry index step)

end Run

/-- What a step's policy makes of an error. -/
def Step.policyFor (step : Step) (e : PipelineError) : Policy :=
  if e.isRecoverable then step.onError else .stop

namespace Task

variable {σ : Type}

/-- The second attempt of a step. Its parameters are those of the first attempt
if there were any; a second failure ends the run. -/
def retry (t : Task σ) (hooks : List (Hook σ)) (mode : Mode) (kept : Except PipelineError Params)
    (r : Run σ) : Except PipelineError Unit × Run σ :=
  let r := r.announceRetry hooks t.index t.step
  match t.attempt mode (t.preparedOr kept r.context) r with
  | (.ok value, r) => r.complete hooks t.index t.step value
  | (.error e, r) => r.stopAt hooks t.index t.step e

/-- The attempts of a step, and what its policy makes of a failure. -/
def run (t : Task σ) (hooks : List (Hook σ)) (mode : Mode) (r : Run σ) :
    Except PipelineError Unit × Run σ :=
  let prepared := t.prepare r.context
  match t.attempt mode prepared r with
  | (.ok value, r) => r.complete hooks t.index t.step value
  | (.error e, r) =>
    match t.step.policyFor e with
    | .stop => r.stopAt hooks t.index t.step e
    | .skip => r.skipOver hooks t.index t.step e
    | .retry => t.retry hooks mode prepared (r.recordFailure hooks t.index t.step e)

end Task

/-! ## All steps -/

/-- What runs pipelines: handlers, hooks, and a rule for reading scripts. -/
structure Executor (σ : Type) where
  registry : Registry σ
  hooks : List (Hook σ) := []
  unknownTypes : Script.UnknownTypes := default

namespace Executor

variable {σ : Type}

/-- The executor with one more hook, told last. -/
def withHook (ex : Executor σ) (hook : Hook σ) : Executor σ :=
  { ex with hooks := ex.hooks ++ [hook] }

/-- One step: it is counted and announced before its handler is looked for, and
a step without a handler ends the run whatever its policy. -/
def runStep (ex : Executor σ) (mode : Mode) (index : Nat) (step : Step) (r : Run σ) :
    Except PipelineError Unit × Run σ :=
  let r := { r with context := r.context.enterStep }.notify ex.hooks (.beforeStep index step)
  match ex.registry.lookup step.atom.type step.atom.action with
  | some atom => Task.run ⟨index, step, atom⟩ ex.hooks mode r
  | none => r.stopAt ex.hooks index step (.unknownAtom step.atom.type.name step.atom.action)

/-- The steps in order, the first of them at the given place, up to the first
failure that ends the run. -/
def runSteps (ex : Executor σ) (mode : Mode) (index : Nat) :
    List Step → Run σ → Except PipelineError Unit × Run σ
  | [], r => (.ok (), r)
  | step :: steps, r =>
    match ex.runStep mode index step r with
    | (.ok (), r) => runSteps ex mode (index + 1) steps r
    | (.error e, r) => (.error e, r)

/-- What a pipeline puts into the context: its variables win over those there
are, its domain does not. -/
def declare (p : Pipeline) (c : Context) : Context :=
  let c := p.vars.foldl (fun c (name, value) => c.setVariable name value) c
  { c with domain := c.domain <|> p.domain }

/-- The beginning of a run. -/
def start (ex : Executor σ) (p : Pipeline) (r : Run σ) : Run σ :=
  let r := { r with context := declare p r.context }
  (r.enter (.report .debug ("Executing pipeline '" ++ p.name ++ "' (" ++
    toString p.steps.length ++ " steps) as " ++ r.context.id.text))).notify ex.hooks
    (.beforePipeline p)

/-- Runs a pipeline. The hooks are told about the end of every run that began. -/
def execute (ex : Executor σ) (mode : Mode) (p : Pipeline) (r : Run σ) :
    Except PipelineError Unit × Run σ :=
  let (result, r) := ex.runSteps mode 0 p.steps (ex.start p r)
  (result, r.notify ex.hooks (.afterPipeline p result))

/-- Runs the pipeline of a script. A script that is not read is not begun. -/
def executeText (ex : Executor σ) (mode : Mode) (text : String) (r : Run σ) :
    Except PipelineError Unit × Run σ :=
  let read := Script.read ex.unknownTypes text
  let r := r.reportAll read.reports
  match read.result with
  | .ok p => ex.execute mode p r
  | .error e => (.error e, r)

end Executor

end Pipework
