import Pipework.Context

/-!
# The journal of a run

What happens during a run, in order: the hooks are told something, a handler is
called, a line is reported, an event is emitted. The journal is all that a run
shows besides its result, its final context and the handlers' own state.
-/

namespace Pipework

/-- What hooks are told; steps are counted from 0. -/
inductive Callback where
  | beforePipeline (pipeline : Pipeline)
  | afterPipeline (pipeline : Pipeline) (result : Except PipelineError Unit)
  | beforeStep (index : Nat) (step : Step)
  /-- The value has replaced the data; without one the data is as it was. -/
  | afterStep (index : Nat) (step : Step) (value : Option Json)
  | onError (index : Nat) (step : Step) (error : PipelineError)
  /-- A failed step is about to be tried again. -/
  | onRetry (index : Nat) (step : Step)

/-- What a run emits for whoever follows it; steps are in script form. -/
inductive Event where
  | pipelineStarted (id : Uuid) (pipeline : String) (steps : Nat)
  | stepStarted (index : Nat) (step : String)
  | stepCompleted (index : Nat) (step : String) (replaced : Bool)
  | stepFailed (index : Nat) (step : String) (error : String) (policy : Policy)
  | stepRetrying (index : Nat) (step : String)
  /-- The duration is in milliseconds. -/
  | pipelineCompleted (id : Uuid) (status : Status) (duration : Option Double)
  deriving DecidableEq

/-- What leaves a run while it goes on. -/
inductive Signal where
  | report (line : Report)
  | event (event : Event)
  deriving DecidableEq

/-- One thing that happened. -/
inductive Entry where
  /-- A hook, by its place among the hooks, was told something. -/
  | notice (hook : Nat) (callback : Callback)
  /-- A handler was called with these parameters. -/
  | call (type : AtomType) (action : String) (params : Params)
  | signal (signal : Signal)

/-- A line about the work, as an entry. -/
def Entry.report (level : LogLevel) (message : String) : Entry :=
  .signal (.report ⟨level, message⟩)

/-- What has happened, in order. -/
abbrev Journal := List Entry

namespace Journal

/-- The lines reported. -/
def reports (j : Journal) : List Report :=
  j.filterMap fun
    | .signal (.report line) => some line
    | _ => none

/-- The events emitted. -/
def events (j : Journal) : List Event :=
  j.filterMap fun
    | .signal (.event e) => some e
    | _ => none

/-- What the hooks were told. -/
def notices (j : Journal) : List (Nat × Callback) :=
  j.filterMap fun
    | .notice hook callback => some (hook, callback)
    | _ => none

/-- The calls of handlers. -/
def calls (j : Journal) : List (AtomType × String × Params) :=
  j.filterMap fun
    | .call type action params => some (type, action, params)
    | _ => none

end Journal

end Pipework
