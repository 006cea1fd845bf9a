import Pipework.History.Summary

/-!
# Histories in a table

A table keeps summaries as rows of texts and signed words, as a database on disk
does. An instant is a text with the offset `+00:00`, and rows are ordered by
that text. A negative limit is no limit.

Reading a row back can fail if somebody else has written to the table; the
causes are `Row.Fault`.
-/

namespace Pipework

/-- A summary in columns. -/
structure Row where
  id : String
  pipeline : String
  status : String
  startedAt : String
  completedAt : Option String
  steps : Int64
  errors : Int64
  deriving DecidableEq

namespace Row

/-- Why a row is no summary. -/
inductive Fault where
  | id (fault : Uuid.Fault)
  | status (name : String)
  | time (column text : String)
  deriving DecidableEq, Repr

/-- The wording of a fault. -/
def Fault.message : Fault → String
  | .id fault => fault.message
  | .status name => "unknown execution status '" ++ name ++ "'"
  | .time column text =>
    "error occurred while decoding column " ++ "\"" ++ column ++ "\": invalid datetime: " ++ text

/-- The row of a summary. -/
def ofSummary (run : RunSummary) : Row :=
  { id := run.id.text
    pipeline := run.pipeline
    status := run.status.name
    startedAt := run.startedAt.offsetText
    completedAt := run.completedAt.map Instant.offsetText
    steps := run.steps.toInt64
    errors := run.errors.toInt64 }

/-- The instant in a column. -/
def instant (column text : String) : Except Fault Instant :=
  match Instant.ofText? text with
  | some t => .ok t
  | none => .error (.time column text)

/-- The summary of a row. -/
def toSummary (row : Row) : Except Fault RunSummary := do
  let id ← (Uuid.parse row.id).mapError .id
  let status ← match Status.ofName? row.status with
    | some status => .ok status
    | none => .error (.status row.status)
  let startedAt ← instant "started_at" row.startedAt
  let completedAt ← match row.completedAt with
    | none => .ok none
    | some text => (instant "completed_at" text).map some
  .ok {
    id, pipeline := row.pipeline, status, startedAt, completedAt
    steps := row.steps.toUInt64
    errors := row.errors.toUInt64 }

end Row

/-- Rows, no two with one identifier, the one inserted last in front. -/
abbrev Table := List Row

namespace Table

/-- Inserts a row, in place of one with its identifier. -/
def insert (table : Table) (row : Row) : Table :=
  row :: table.filter (·.id ≠ row.id)

/-- Saves a summary. -/
def save (table : Table) (run : RunSummary) : Table :=
  table.insert (.ofSummary run)

/-- The summary of a run. -/
def load? (table : Table) (id : Uuid) : Except Row.Fault (Option RunSummary) :=
  match table.find? (·.id = id.text) with
  | some row => row.toSummary.map some
  | none => .ok none

/-- Does the row belong to the pipeline asked for, if one is? -/
def matching (pipeline : Option String) (row : Row) : Bool :=
  pipeline.all (row.pipeline == ·)

/-- Started no later than the other, by the texts. -/
def newerFirst (a b : Row) : Bool :=
  decide (b.startedAt ≤ a.startedAt)

/-- As many rows as the limit allows. -/
def limited (limit : Int64) (rows : List Row) : List Row :=
  if limit < 0 then rows else rows.take limit.toNatClampNeg

/-- The newest summaries, of one pipeline or of all, up to a limit. -/
def list (table : Table) (pipeline : Option String) (limit : UInt64) :
    Except Row.Fault (List RunSummary) :=
  (limited limit.toInt64 ((table.filter (matching pipeline)).mergeSort newerFirst)).mapM
    Row.toSummary

/-- The names of the pipelines that have rows, each once, sorted. -/
def pipelines (table : Table) : List String :=
  (table.map (·.pipeline)).eraseDups.mergeSort fun a b => decide (a ≤ b)

end Table

end Pipework
