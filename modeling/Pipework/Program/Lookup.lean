import Pipework.Program.Session

/-!
# The command that shows the history

`history` shows one run, the pipelines that have runs, or the newest runs, as
lines or as a JSON document.
-/

namespace Pipework.Action

/-- Prints all that the history keeps of a run. -/
def showRun (run : RunSummary) : Action Unit := do
  note .info "Run Details"
  say ("  ID: " ++ (← styled .cyan run.id.text))
  say ("  Pipeline: " ++ (← styled .bold run.pipeline))
  say ("  Status: " ++ (← read).display.status run.status)
  say ("  Started: " ++ (← styled .dim run.startedAt.offsetText))
  if let some t := run.completedAt then say ("  Completed: " ++ (← styled .dim t.offsetText))
  if let some ms := run.duration? then say ("  Duration: " ++ (← styled .dim (toString ms ++ "ms")))
  say ("  Steps: " ++ toString run.steps ++ " (" ++ toString run.errors ++ " errors)")

/-- The failure of a row that cannot be read back. -/
def rowFailure (fault : Row.Fault) : Failure := ⟨fault.message, []⟩

/-- Shows the run of an identifier. -/
def lookUpRun (table : Table) (id : String) (json : Bool) : Action Unit := do
  let id ← orFail (fun fault => ⟨"Invalid execution ID format", [fault.message]⟩) (Uuid.parse id)
  match ← orFail rowFailure (table.load? id) with
  | some run => if json then say run.toJson.pretty else showRun run
  | none => fail ⟨"Run " ++ id.text ++ " not found", []⟩

/-- Shows the pipelines that have runs. -/
def listPipelines (table : Table) (json : Bool) : Action Unit := do
  let names := table.pipelines
  if json then say (Json.object [("pipelines", .array (names.map Json.string))]).pretty
  else if names.isEmpty then note .info "No runs found"
  else
    note .info "Pipelines with recorded runs:"
    for name in names do say ("  " ++ (← styled .bold name))

/-- Shows the newest runs, of one pipeline or of all. -/
def listRuns (table : Table) (pipeline : Option String) (limit : Nat) (json : Bool) : Action Unit := do
  let runs ← orFail rowFailure (table.list pipeline (UInt64.ofNat limit))
  if json then say (Json.object [("runs", .array (runs.map RunSummary.toJson))]).pretty
  else if runs.isEmpty then note .info "No runs found"
  else
    note .info ("Run history (showing latest " ++ toString limit ++ "):")
    for run in runs do say ("  " ++ (← read).display.runLine run)

/-- Shows what a query asks for. -/
def showHistory (query : HistoryQuery) (config : Config) : Action Unit := do
  let table ← history (← openHistory config)
  match query.run with
  | some id => lookUpRun table id query.json
  | none =>
    if query.pipelines then listPipelines table query.json
    else listRuns table query.pipeline query.limit query.json

end Pipework.Action
