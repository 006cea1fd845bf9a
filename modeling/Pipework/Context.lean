import Pipework.Error
import Pipework.Instant
import Pipework.Pipeline
import Pipework.Reference
import Pipework.Uuid

/-!
# The context of a run

One context is threaded through a run. It holds the inputs (variables,
metadata, data, and on whose behalf the run is made) and what the run leaves
behind: error records, log lines and the number of steps entered.

Handlers see less of it. What they may read and change is the `Memory`; what
they may add is a list of `Note`s, which `Context.absorb` writes down.

A context carries the time as it was last read by whoever owns the clock.
Everything that is written down gets that time.

The variables and the metadata are sorted tables: keys and values, each key
once, in the order of the keys. Setting a key keeps a table so, which makes the
list a normal form: two tables that answer every key alike are the same list,
and listing a table needs no sorting.
-/

namespace Pipework

/-! ## Sorted tables -/

/-- Sets a key in a table; `before` is the strict order of the keys. -/
def setSorted {κ β : Type} (before : κ → κ → Bool) (key : κ) (value : β) :
    List (κ × β) → List (κ × β)
  | [] => [(key, value)]
  | (k, v) :: rest =>
    if before key k then (key, value) :: (k, v) :: rest
    else if before k key then (k, v) :: setSorted before key value rest
    else (key, value) :: rest

/-- Values by name, sorted by the code points of the names. -/
abbrev Bindings := List (String × Json)

namespace Bindings

/-- The value of a name. -/
def get? (b : Bindings) (name : String) : Option Json :=
  b.lookup name

/-- Gives a name a value. -/
def set (b : Bindings) (name : String) (value : Json) : Bindings :=
  setSorted (fun a b => decide (a < b)) name value b

/-- Gives several names their values, in order. -/
def setAll (b : Bindings) (pairs : List (String × Json)) : Bindings :=
  pairs.foldl (fun b (name, value) => b.set name value) b

end Bindings

/-! ## What a run carries -/

/-- A line of the log of a context. -/
structure LogEntry where
  level : LogLevel
  message : String
  timestamp : Instant
  /-- How many steps had been entered. -/
  step : Nat
  deriving DecidableEq, Repr

/-- A failure, whether or not the run went on after it. -/
structure ErrorRecord where
  message : String
  kind : ErrorKind
  /-- The failing step in script form, or `step_N` when none was given. -/
  step : String
  /-- How many steps had been entered. -/
  stepIndex : Nat
  timestamp : Instant
  deriving DecidableEq, Repr

namespace ErrorRecord

/-- The tree form of a record. -/
def toJson (r : ErrorRecord) : Json :=
  .object [("message", .string r.message), ("kind", .string r.kind.name),
    ("step", .string r.step), ("step_index", .ofNat r.stepIndex),
    ("timestamp", .string r.timestamp.text)]

end ErrorRecord

/-- The part of a context that handlers read and change. -/
structure Memory where
  data : Json := .null
  vars : Bindings := []
  metadata : Bindings := []
  deriving Inhabited

/-- What a handler adds to a context. -/
inductive Note where
  | log (message : String) (level : LogLevel)
  /-- An error that does not fail the step. -/
  | error (message : String) (step : Option String)
  deriving DecidableEq, Repr

/-- The state of one run. -/
structure Context extends Memory where
  id : Uuid := .nil
  domain : Option String := none
  user : Option String := none
  organization : Option String := none
  errors : List ErrorRecord := []
  logs : List LogEntry := []
  startedAt : Instant := ⟨0⟩
  /-- The time as last read. -/
  now : Instant := ⟨0⟩
  /-- How many steps have been entered. -/
  stepCount : Nat := 0
  deriving Inhabited

namespace Context

def setVariable (c : Context) (name : String) (value : Json) : Context :=
  { c with vars := c.vars.set name value }

def setMetadata (c : Context) (name : String) (value : Json) : Context :=
  { c with metadata := c.metadata.set name value }

def setData (c : Context) (data : Json) : Context :=
  { c with data }

/-- Counts one more step. -/
def enterStep (c : Context) : Context :=
  { c with stepCount := c.stepCount + 1 }

def hasErrors (c : Context) : Bool :=
  !c.errors.isEmpty

/-- Writes a log line. -/
def log (c : Context) (message : String) (level : LogLevel) : Context :=
  { c with logs := c.logs ++ [⟨level, message, c.now, c.stepCount⟩] }

/-- Writes an error record, and an error line in the log that repeats it. -/
def recordError (c : Context) (message : String) (kind : ErrorKind) (step : Option String) : Context :=
  let step := step.getD ("step_" ++ toString c.stepCount)
  let record : ErrorRecord := ⟨message, kind, step, c.stepCount, c.now⟩
  { c with errors := c.errors ++ [record] }.log ("ERROR: " ++ message) .error

/-- Records an error against a step. -/
def recordFailure (c : Context) (e : PipelineError) (step : String) : Context :=
  c.recordError e.message e.kind (some step)

/-- Writes one note of a handler down. -/
def write (c : Context) : Note → Context
  | .log message level => c.log message level
  | .error message step => c.recordError message .handler step

/-- What is left of a context after a handler: its memory as the handler left
it, and the handler's notes. -/
def absorb (c : Context) (memory : Memory) (notes : List Note) : Context :=
  notes.foldl write { c with toMemory := memory }

/-- The bindings that references are resolved in. -/
def lookup (c : Context) : Lookup := c.vars.get?

/-- The same inputs for a new run, with nothing left behind by this one. -/
def cloneForRun (c : Context) (id : Uuid) : Context :=
  { toMemory := c.toMemory
    id
    domain := c.domain
    user := c.user
    organization := c.organization
    startedAt := c.now
    now := c.now }

/-- Milliseconds since the run was started, counted in whole microseconds. -/
def elapsed (c : Context) : Option Double :=
  let micros := Int.tdiv (c.now.nanoseconds - c.startedAt.nanoseconds) 1000
  (Double.ofInt? micros).bind fun x => x.divNat? 1000

/-- An overview without data and log lines. -/
def summary (c : Context) : Json :=
  .object [("execution_id", .string c.id.text), ("domain", Json.ofText? c.domain),
    ("user_id", Json.ofText? c.user), ("org_id", Json.ofText? c.organization),
    ("variables", .object c.vars), ("metadata", .object c.metadata),
    ("step_count", .ofNat c.stepCount), ("execution_time_ms", Json.ofDouble? c.elapsed),
    ("has_errors", .bool c.hasErrors), ("error_count", .ofNat c.errors.length),
    ("log_count", .ofNat c.logs.length)]

end Context

/-! ## Outcomes -/

/-- How a run stands. -/
inductive Status where
  | running
  /-- Every step completed and nothing was recorded. -/
  | completed
  /-- Every step was entered, and some failures were recorded. -/
  | completedWithErrors
  /-- A failure ended the run. -/
  | failed
  deriving DecidableEq, Repr, Inhabited

namespace Status

def all : List Status := [.running, .completed, .completedWithErrors, .failed]

def name : Status → String
  | .running => "Running"
  | .completed => "Completed"
  | .completedWithErrors => "CompletedWithErrors"
  | .failed => "Failed"

def ofName? (name : String) : Option Status :=
  all.find? (·.name == name)

/-- Did every step get its turn? -/
def isSuccess : Status → Bool
  | .completed | .completedWithErrors => true
  | .running | .failed => false

/-- How a run ended, from its result and the context it left. -/
def ofOutcome (result : Except PipelineError Unit) (c : Context) : Status :=
  match result with
  | .error _ => .failed
  | .ok () => if c.hasErrors then .completedWithErrors else .completed

end Status

end Pipework
