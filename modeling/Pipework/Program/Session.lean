import Pipework.CommandLine.Command
import Pipework.Config
import Pipework.Display
import Pipework.Document.Form
import Pipework.History.Table
import Pipework.Program.Failure

/-!
# Sessions

A command is done in a session. What it needs of its surroundings is its `Host`:
files, the standard input, the time, an identifier for a run. What it leaves is
in the `Session`: the lines it printed and reported, and the histories.

Histories are kept by path. A history without a path lasts for one command.
-/

namespace Pipework

/-- The surroundings of a command. -/
structure Host where
  /-- The text of a file, or why it cannot be read. -/
  file : String → Except String String
  /-- The text of the standard input, or why it cannot be read. -/
  input : Except String String
  /-- Where the history is that no configuration places elsewhere. -/
  historyPath : String
  /-- Why the history at a path cannot be opened, if it cannot. -/
  locked : String → Option Failure := fun _ => none
  /-- The identifier of a run that the command may begin. -/
  id : Uuid
  now : Instant
  display : Display

/-- What a command has done so far. -/
structure Session where
  /-- What has been printed, each ending its line. -/
  printed : List String := []
  reports : List Report := []
  /-- What those who watch a run are shown of its progress. -/
  progress : List String := []
  histories : List (String × Table) := []
  /-- The summaries saved by the command, with the paths of their histories. -/
  saves : List (String × RunSummary) := []

/-- How a command ends before its end. -/
inductive Stop where
  | failure (failure : Failure)
  /-- It has said itself what is wrong. -/
  | refused
  deriving DecidableEq, Repr

/-- A part of a command. -/
abbrev Action := ReaderT Host (ExceptT Stop (StateM Session))

namespace Action

/-- Fails. -/
def fail {α : Type} (f : Failure) : Action α :=
  throw (.failure f)

/-- What an attempt gives, or the failure that is made of its error. -/
def orFail {ε α : Type} (failure : ε → Failure) : Except ε α → Action α
  | .ok a => return a
  | .error e => fail (failure e)

/-- What an action gives; a failure of it becomes the cause of another. -/
def context {α : Type} (message : String) (action : Action α) : Action α :=
  tryCatch action fun
    | .failure f => fail (f.under message)
    | .refused => throw .refused

/-- Prints a text and ends its line. -/
def say (text : String) : Action Unit :=
  modify fun s => { s with printed := s.printed ++ [text] }

/-- Prints a line behind a symbol. -/
def note (symbol : Symbol) (text : String) : Action Unit :=
  say (symbol.text ++ " " ++ text)

/-- A text in a style, as the host shows it. -/
def styled (style : Style) (text : String) : Action String := do
  return (← read).display.style style text

/-- Reports lines about the work. -/
def report (lines : List Report) : Action Unit :=
  modify fun s => { s with reports := s.reports ++ lines }

/-- The text of a file; `what` says what was expected to be in it. -/
def readFile (what path : String) : Action String := do
  orFail (fun reason => ⟨"Failed to read " ++ what ++ " file: " ++ path, [reason]⟩) ((← read).file path)

/-- The pipeline of a file, in the form that its name tells. -/
def loadPipeline (unknown : Script.UnknownTypes) (path : String) : Action Pipeline := do
  let text ← readFile "pipeline" path
  let loaded := Pipeline.read (.ofPath path) unknown text
  report loaded.reports
  orFail (fun e => ⟨e.message, []⟩) loaded.result

/-- The settings of the file at a path, or the defaults. -/
def loadConfig : Option String → Action Config
  | none => return {}
  | some path => do
    let text ← readFile "config" path
    orFail (fun fault => ⟨"Invalid config file: " ++ path, [fault.message]⟩) (Config.ofYamlText text)

/-! ## Histories -/

/-- The history at a path. -/
def history (path : String) : Action Table := do
  return ((← get).histories.lookup path).getD []

/-- Puts a history at a path in place of the one there. -/
def setHistory (path : String) (table : Table) : Action Unit :=
  modify fun s => { s with histories := (path, table) :: s.histories.filter (·.1 != path) }

/-- The path of the history that the settings name, once it is open. -/
def openHistory (config : Config) : Action String := do
  let host ← read
  let path := config.historyPath.getD host.historyPath
  match host.locked path with
  | some f => fail f
  | none =>
    if path.isEmpty then setHistory path []
    report [⟨.debug, "Opened run history at " ++ path⟩]
    return path

/-- Saves a summary in the history at a path; without one it is not kept. -/
def saveRun (path : Option String) (run : RunSummary) : Action Unit := do
  match path with
  | none => return
  | some path =>
    setHistory path ((← history path).save run)
    modify fun s => { s with saves := s.saves ++ [(path, run)] }

end Action

end Pipework
