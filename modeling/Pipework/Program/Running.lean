import Pipework.Builtin.Atoms
import Pipework.Program.Session

/-!
# Commands that run pipelines

`run` takes a pipeline from a file and `exec` a script. Both give it variables,
data and a domain from outside, run it and show what it left; a run that did
not succeed is refused at the end. `run` also keeps the run in the history: as
running before it begins, so that a run that is broken off shows, and as it
ended afterwards.
-/

namespace Pipework.Action

/-- Gives variables from outside, and says so if there is to be talk of it. -/
def applyOverrides (p : Pipeline) (overrides : List Assignment) (talk : Bool) : Action Pipeline := do
  if talk then
    for a in overrides do
      note .info ("Variable override: " ++ (← styled .cyan a.name) ++ " = " ++ (← styled .dim a.value))
  return p.override overrides

/-- The data that a text gives. -/
def dataOf (text : String) : Action Json :=
  orFail (fun stop => ⟨"--data is not valid JSON", [stop.message text.toList]⟩) (Json.parse text)

/-- The context that a run begins with. -/
def newContext (setup : Setup) : Action Context := do
  let host ← read
  let c : Context := { id := host.id, startedAt := host.now, now := host.now, domain := setup.domain }
  match setup.data with
  | none => return c
  | some text => return c.setData (← dataOf text)

/-- What a run left, as a document. -/
def outcomeJson (status : Status) (c : Context) : Json :=
  .object [("status", .string status.name), ("data", c.data), ("summary", c.summary),
    ("errors", .array (c.errors.map ErrorRecord.toJson))]

/-- Shows what a run left. -/
def showOutcome (status : Status) (c : Context) (verbose json : Bool) : Action Unit := do
  if json then say (outcomeJson status c).pretty
  else
    let display := (← read).display
    say ("\n" ++ display.style .bold "Result:")
    say (display.value 40 c.data)
    if verbose then
      say ("\n" ++ display.style .bold "Log:")
      for entry in c.logs do say (display.logLine entry)

/-- What runs the pipelines of a command. -/
def executorOf (config : Config) (verbose : Bool) : Executor Unit :=
  let ex := (config.executor Builtin.registry).withHook .events
  if verbose then ex.withHook .tracing else ex

/-- Runs a pipeline, shows what the run left, and sums it up. -/
def runPipeline (p : Pipeline) (c : Context) (config : Config) (verbose json : Bool) : Action RunSummary := do
  let (result, r) := (executorOf config verbose).execute .waiting p { context := c, state := () }
  let status := Status.ofOutcome result r.context
  let display := (← read).display
  report r.journal.reports
  modify fun s => { s with progress := s.progress ++ r.journal.events.map display.event }
  if let .error e := result then report [⟨.error, e.message⟩]
  showOutcome status r.context verbose json
  return RunSummary.ofContext p r.context status

/-- Says how a run ended; one that did not succeed is refused. -/
def finishRun (run : RunSummary) (talk : Bool) : Action Unit := do
  let name ← styled .bold run.pipeline
  let tell (symbol : Symbol) (text : String) : Action Unit :=
    if talk then say ("\n" ++ symbol.text ++ " " ++ name ++ " " ++ text) else return
  match run.status with
  | .completed => tell .check ("completed " ++ (← styled .green "successfully"))
  | .completedWithErrors =>
    tell .warn ("completed with " ++ (← styled .yellow (toString run.errors)) ++ " error(s)")
  | .failed | .running =>
    tell .cross (← styled .red "failed")
    throw .refused

/-- Runs the pipeline of a file, and records the run unless that is not wanted. -/
def runFile (file : String) (setup : Setup) (record : Bool) (config : Config) (verbose : Bool) :
    Action Unit := do
  let talk := !setup.json
  let p ← context "Failed to load pipeline" (loadPipeline config.unknownTypes file)
  if talk then note .info ("Loaded pipeline: " ++ (← styled .bold p.name))
  let p ← applyOverrides p setup.overrides talk
  let c ← newContext setup
  let path ← if record && config.history then some <$> openHistory config else pure none
  saveRun path (RunSummary.ofContext p c .running)
  let run ← runPipeline p c config verbose setup.json
  saveRun path run
  if path.isSome && talk then
    note .info ("Run saved to history (ID: " ++ (← styled .dim run.id.short) ++ ")")
  finishRun run talk

/-- Runs a script, which is the standard input if it is a hyphen. -/
def execScript (script : String) (setup : Setup) (config : Config) (verbose : Bool) : Action Unit := do
  let talk := !setup.json
  let text ← if script == "-" then
      orFail (fun reason => ⟨"Failed to read pipeline from stdin", [reason]⟩) (← read).input
    else pure script
  let loaded := Script.read config.unknownTypes text
  report loaded.reports
  let p ← orFail (fun e => ⟨e.message, []⟩) loaded.result
  let p ← applyOverrides p setup.overrides talk
  let c ← newContext setup
  finishRun (← runPipeline p c config verbose setup.json) talk

end Pipework.Action
