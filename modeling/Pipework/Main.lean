import Pipework.CommandLine.Usage
import Pipework.History.Text
import Pipework.Program.Directory
import Pipework.Program.Perform
import Std.Time.DateTime.Timestamp

/-!
# The program

Reads what a command needs of its surroundings, performs the command, and
writes what comes of it. All that is decided is decided by
`Invocation.perform`.
-/

namespace Pipework

/-- The text of a file, or why it cannot be read. -/
def readText (path : String) : IO (Except String String) := do
  try return .ok (← IO.FS.readFile path)
  catch
    | .noFileOrDirectory .. => return .error FileFault.missing.message
    | e => return .error (toString e)

/-- The text of the standard input, or why it cannot be read. -/
def readInput : IO (Except String String) := do
  try return .ok (← (← IO.getStdin).readToEnd)
  catch e => return .error (toString e)

/-- The directory for the program's data. -/
def dataDirectory : IO String := do
  match ← IO.getEnv "XDG_DATA_HOME", ← IO.getEnv "HOME" with
  | some path, _ => return path ++ "/atompipe"
  | none, some home => return home ++ "/.local/share/atompipe"
  | none, none => return "./atompipe"

/-- A number of random bytes. -/
def randomNumber (bytes : USize) : IO Nat := do
  return (← IO.getRandomBytes bytes).foldl (fun n b => 256 * n + b.toNat) 0

/-- The surroundings of a command. -/
def hostOf (v : Invocation) : IO Host := do
  let texts ← v.files.mapM fun path => do return (path, ← readText path)
  let input ← if v.readsInput then readInput else pure (.ok "")
  return {
    file := fun path => (texts.lookup path).getD (.error FileFault.missing.message)
    input
    historyPath := (← dataDirectory) ++ "/history.db"
    id := Uuid.ofRandom (← randomNumber 16)
    now := ⟨(← Std.Time.Timestamp.now).toNanosecondsSinceUnixEpoch.val⟩
    display := ⟨← (← IO.getStdout).isTty⟩ }

/-- The histories that the command may need. -/
def readHistories (v : Invocation) (host : Host) : IO (List (String × Table)) := do
  match v.historyPath? host with
  | none => return []
  | some path =>
    match ← readText path with
    | .ok text => return [(path, (Table.ofText? text).getD [])]
    | .error _ => return []

/-- Writes the histories to which something was saved. -/
def writeHistories (session : Session) : IO Unit := do
  for (path, table) in session.histories do
    if !path.isEmpty && session.saves.any (·.1 == path) then
      let directory := Directory.parent path
      if !directory.isEmpty then IO.FS.createDirAll directory
      IO.FS.writeFile path table.toText

/-- Writes what came of a command, and says the exit status. -/
def writeOutcome (v : Invocation) (p : Performance) : IO UInt32 := do
  let err ← IO.getStderr
  for r in p.session.reports do
    if r.level != .debug || v.verbose then err.putStrLn (r.level.name.toUpper ++ " " ++ r.message)
  if ← err.isTty then
    for line in p.session.progress do err.putStrLn line
  (← IO.getStdout).putStr p.output
  if let some text := p.complaint? then err.putStrLn text
  return UInt32.ofNat p.exitStatus

end Pipework

open Pipework

def main (words : List String) : IO UInt32 := do
  match Invocation.ofWords words with
  | .error halt =>
    if halt.isWish then IO.println halt.message else IO.eprintln halt.message
    return UInt32.ofNat halt.exitStatus
  | .ok v =>
    let host ← hostOf v
    let p := v.perform host (← readHistories v host)
    writeHistories p.session
    writeOutcome v p
