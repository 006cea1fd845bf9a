import Pipework.Program.Inspection
import Pipework.Program.Lookup
import Pipework.Program.Running

/-!
# Performing commands

`Invocation.perform` does what the words of the command line ask for, and says
what comes of it: what is printed, the failure if there is one, the exit status
and the histories as they are then.
-/

namespace Pipework

/-- What comes of a command. -/
structure Performance where
  session : Session
  stop : Option Stop

namespace Performance

/-- What is printed. -/
def output (p : Performance) : String :=
  String.join (p.session.printed.map (· ++ "\n"))

/-- What is reported of a failure. -/
def complaint? (p : Performance) : Option String :=
  match p.stop with
  | some (.failure f) => some f.report
  | _ => none

/-- The exit status: 0 for a command that came to its end, and 1. -/
def exitStatus (p : Performance) : Nat :=
  if p.stop.isSome then 1 else 0

end Performance

namespace Invocation

/-- The command of an invocation, with its settings. -/
def action (v : Invocation) : Action Unit := do
  let config ← Action.loadConfig v.config
  match v.command with
  | .run file setup record => Action.runFile file setup record config v.verbose
  | .exec script setup => Action.execScript script setup config v.verbose
  | .validate file strict json => Action.validateFile file strict json config
  | .convert file form => Action.convertFile file form config
  | .listAtoms details json => Action.listAtoms details json
  | .history query => Action.showHistory query config

/-- Performs a command, given the histories that there are. -/
def perform (v : Invocation) (host : Host) (histories : List (String × Table)) : Performance :=
  match ((v.action host).run.run { histories } : Except Stop Unit × Session) with
  | (.ok (), session) => { session, stop := none }
  | (.error stop, session) => { session, stop := some stop }

/-- Where the history of a command is, unless its settings cannot be read. -/
def historyPath? (v : Invocation) (host : Host) : Option String :=
  match ((Action.loadConfig v.config host).run.run {} : Except Stop Config × Session) with
  | (.ok config, _) => some (config.historyPath.getD host.historyPath)
  | (.error _, _) => none

/-- The files that a command reads. -/
def files (v : Invocation) : List String :=
  v.config.toList ++ match v.command with
    | .run file _ _ | .validate file _ _ | .convert file _ => [file]
    | .exec _ _ | .listAtoms _ _ | .history _ => []

/-- Does the command read the standard input? -/
def readsInput (v : Invocation) : Bool :=
  match v.command with
  | .exec "-" _ => true
  | _ => false

end Invocation

end Pipework
