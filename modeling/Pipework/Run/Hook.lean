import Pipework.Run.Journal
import Pipework.Script.Print

/-!
# Hooks

A hook follows a run. It is told what happens and may react: change the context
and the state it shares with the handlers, and send signals. Three hooks are
provided. They write to the log of the context, report lines, or emit events,
and do nothing else.
-/

namespace Pipework

/-- What a hook leaves when it has been told something. -/
structure Reaction (σ : Type) where
  context : Context
  state : σ
  signals : List Signal := []

/-- Something that follows a run. -/
structure Hook (σ : Type) where
  react : Callback → Context → σ → Reaction σ

/-- Milliseconds with two places; nothing is said of an unknown time but zero. -/
def millisecondsText (duration : Option Double) : String :=
  ((duration.getD default).toPlaces 2).text ⟨none, ""⟩

/-- The place of a step as people count, with its call. -/
def placeText (index : Nat) (step : Step) : String :=
  toString (index + 1) ++ " (" ++ step.atom.qualifiedName ++ ")"

namespace Hook

variable {σ : Type}

/-- The hook that writes the lines of `write` to the log of the context. -/
def ofLog (write : Callback → Context → Option (String × LogLevel)) : Hook σ where
  react callback c state :=
    match write callback c with
    | some (message, level) => { context := c.log message level, state }
    | none => { context := c, state }

/-- The hook that sends a signal where `send` gives one. -/
def ofSignal (send : Callback → Context → Option Signal) : Hook σ where
  react callback c state := { context := c, state, signals := (send callback c).toList }

/-- What the logging hook writes. -/
def logLine : Callback → Context → Option (String × LogLevel)
  | .beforePipeline p, _ => some ("Starting pipeline: " ++ p.name, .info)
  | .afterPipeline _ _, c => some ("Pipeline completed in " ++ millisecondsText c.elapsed ++ "ms", .info)
  | .beforeStep _ step, _ => some ("Executing: " ++ step.identifier, .info)
  | .onError _ step e, _ => some ("Error in " ++ step.identifier ++ ": " ++ e.message, .error)
  | .afterStep .., _ | .onRetry .., _ => none

/-- Follows a run in the log of its context. -/
def logging : Hook σ := ofLog logLine

/-- What the tracing hook reports. -/
def traceLine : Callback → Context → Report
  | .beforePipeline p, c =>
    ⟨.info, "Starting pipeline: " ++ p.name ++ " (" ++ c.id.text ++ ", " ++
      toString p.steps.length ++ " steps)"⟩
  | .afterPipeline p (.ok ()), c =>
    ⟨.info, "Pipeline " ++ p.name ++ " finished: " ++ (Status.ofOutcome (.ok ()) c).name ++ " in " ++
      millisecondsText c.elapsed ++ "ms (" ++ toString c.errors.length ++ " errors)"⟩
  | .afterPipeline p (.error e), _ => ⟨.error, "Pipeline " ++ p.name ++ " failed: " ++ e.message⟩
  | .beforeStep index step, c =>
    ⟨.debug, "[" ++ c.id.text ++ "] step " ++ toString (index + 1) ++ ": " ++ step.identifier⟩
  | .afterStep index step value, _ =>
    ⟨.debug, "Step " ++ placeText index step ++ " completed, data " ++
      (if value.isSome then "replaced" else "unchanged")⟩
  | .onError index step e, _ =>
    ⟨.warn, "Step " ++ placeText index step ++ " failed with policy " ++ step.onError.name ++ ": " ++
      e.message⟩
  | .onRetry index step, _ => ⟨.info, "Retrying step " ++ placeText index step⟩

/-- Follows a run in reported lines. -/
def tracing : Hook σ := ofSignal fun callback c => some (.report (traceLine callback c))

/-- The event for a callback. -/
def eventOf : Callback → Context → Event
  | .beforePipeline p, c => .pipelineStarted c.id p.name p.steps.length
  | .afterPipeline _ result, c => .pipelineCompleted c.id (Status.ofOutcome result c) c.elapsed
  | .beforeStep index step, _ => .stepStarted index step.identifier
  | .afterStep index step value, _ => .stepCompleted index step.identifier value.isSome
  | .onError index step e, _ => .stepFailed index step.identifier e.message step.onError
  | .onRetry index step, _ => .stepRetrying index step.identifier

/-- Follows a run in events. -/
def events : Hook σ := ofSignal fun callback c => some (.event (eventOf callback c))

end Hook

end Pipework
