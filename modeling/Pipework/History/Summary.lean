import Pipework.Context
import Pipework.Json.Printer

/-!
# Summaries of runs

What the history keeps of a run: how it stands or ended, when, and how many
steps it entered and errors it left. Counts are words, as stores keep them.
-/

namespace Pipework

/-- One run, as the history keeps it. -/
structure RunSummary where
  id : Uuid
  pipeline : String
  status : Status
  startedAt : Instant
  completedAt : Option Instant := none
  /-- Steps entered, the failing one among them. -/
  steps : UInt64
  /-- Errors recorded. -/
  errors : UInt64
  deriving DecidableEq

namespace RunSummary

/-- The summary of a run from the context it left; a running one has not
completed. -/
def ofContext (p : Pipeline) (c : Context) (status : Status) : RunSummary :=
  { id := c.id
    pipeline := p.name
    status
    startedAt := c.startedAt
    completedAt := if status = .running then none else some c.now
    steps := UInt64.ofNat c.stepCount
    errors := UInt64.ofNat c.errors.length }

/-- Whole milliseconds that the run took. -/
def duration? (run : RunSummary) : Option Int :=
  run.completedAt.map run.startedAt.millisecondsTo

/-- The tree form of a summary. -/
def toJson (run : RunSummary) : Json :=
  .object [("execution_id", .string run.id.text), ("pipeline_name", .string run.pipeline),
    ("status", .string run.status.name), ("started_at", .string run.startedAt.text),
    ("completed_at", Json.ofText? (run.completedAt.map Instant.text)),
    ("step_count", .ofNat run.steps.toNat), ("error_count", .ofNat run.errors.toNat)]

end RunSummary

end Pipework
