import Pipework.History.Summary
import Pipework.Run.Hook
import Pipework.Text.Classes

/-!
# What people read

The lines that the program shows: how a run stands, a run in a listing, an
event, a log line, a value. Some parts are styled, if the reader's terminal
shows styles; a symbol at the start of a line says what kind of line it is.
-/

namespace Pipework

/-- How a part of a line looks. -/
inductive Style where
  | bold
  | dim
  | red
  | green
  | yellow
  | blue
  | cyan
  deriving DecidableEq, Repr

namespace Style

/-- The number that switches a style on. -/
def code : Style → Nat
  | .bold => 1
  | .dim => 2
  | .red => 31
  | .green => 32
  | .yellow => 33
  | .blue => 34
  | .cyan => 36

end Style

/-- The symbols at the start of a line. -/
inductive Symbol where
  | check
  | cross
  | spinner
  | info
  | warn
  | rocket
  deriving DecidableEq, Repr

namespace Symbol

def text : Symbol → String
  | .check => "✓ "
  | .cross => "✗ "
  | .spinner => "~ "
  | .info => "i "
  | .warn => "!"
  | .rocket => "> "

end Symbol

/-- Does the terminal show styles? -/
structure Display where
  styled : Bool
  deriving DecidableEq, Repr, Inhabited

namespace Display

/-- A part of a line in a style. -/
def style (d : Display) (style : Style) (text : String) : String :=
  if d.styled then "\x1b[" ++ toString style.code ++ "m" ++ text ++ "\x1b[0m" else text

/-- How a run stands. -/
def status (d : Display) : Status → String
  | .running => d.style .yellow "RUNNING"
  | .completed => d.style .green "COMPLETED"
  | .completedWithErrors => d.style .yellow "COMPLETED WITH ERRORS"
  | .failed => d.style .red "FAILED"

/-- The symbol of a run in a listing. -/
def statusSymbol : Status → Symbol
  | .completed => .check
  | .completedWithErrors => .warn
  | .failed => .cross
  | .running => .spinner

/-- A run in a listing. -/
def runLine (d : Display) (run : RunSummary) : String :=
  let duration := match run.duration? with
    | some ms => toString ms ++ "ms"
    | none => "-"
  (statusSymbol run.status).text ++ " " ++ d.style .dim run.id.short ++ " - " ++
    d.style .bold run.pipeline ++ " - " ++ d.status run.status ++ " - " ++
    toString run.steps ++ " steps, " ++ toString run.errors ++ " errors - " ++
    d.style .dim run.startedAt.listingText ++ " - " ++ duration

/-- The number of a step as people count. -/
def place (index : Nat) : String := "[" ++ toString (index + 1) ++ "] "

/-- An event. -/
def event (d : Display) : Event → String
  | .pipelineStarted id pipeline steps =>
    Symbol.rocket.text ++ " Starting pipeline " ++ d.style .bold pipeline ++ " (" ++ toString steps ++
      " steps, " ++ d.style .dim id.short ++ ")"
  | .stepStarted index step => Symbol.spinner.text ++ " " ++ place index ++ d.style .cyan step
  | .stepCompleted index step replaced =>
    Symbol.check.text ++ " " ++ place index ++ d.style .green step ++
      d.style .dim (if replaced then "" else " (data unchanged)")
  | .stepFailed index step error policy =>
    Symbol.cross.text ++ " " ++ place index ++ d.style .red step ++ ": " ++ d.style .dim error ++
      " (on_error=" ++ policy.name ++ ")"
  | .stepRetrying index step =>
    Symbol.warn.text ++ " " ++ place index ++ d.style .yellow step ++ " (retrying)"
  | .pipelineCompleted id status duration =>
    Symbol.info.text ++ " Pipeline (" ++ d.style .dim id.short ++ ") " ++ d.status status ++ " in " ++
      millisecondsText duration ++ "ms"

/-- The level of a log line, as wide as the widest. -/
def level (d : Display) : LogLevel → String
  | .debug => d.style .dim "DEBUG"
  | .info => d.style .blue "INFO "
  | .warn => d.style .yellow "WARN "
  | .error => d.style .red "ERROR"

/-- A log line. -/
def logLine (d : Display) (entry : LogEntry) : String :=
  "  " ++ d.style .dim entry.timestamp.clockText ++ " " ++ d.level entry.level ++ " " ++ entry.message

/-- A value over several lines, cut after so many of them. -/
def value (d : Display) (maxLines : Nat) (v : Json) : String :=
  let output := v.pretty
  let lines := (Text.linesOf output.toList).map String.ofList
  if lines.length ≤ maxLines then output
  else "\n".intercalate (lines.take maxLines) ++ "\n" ++ d.style .dim "[truncated]" ++ "... (" ++
    toString (lines.length - maxLines) ++ " more lines)"

end Display

end Pipework
