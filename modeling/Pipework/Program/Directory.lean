import Pipework.Document.Form
import Pipework.Program.Failure

/-!
# Files in memory

A directory of texts, as a host whose files are known beforehand has it. Paths
lead into it from its root; a path that leads elsewhere leads nowhere.
-/

namespace Pipework

/-- Why a path does not lead to a text. -/
inductive FileFault where
  | missing
  | directory
  /-- Something on the way is a text and no directory. -/
  | notDirectory
  deriving DecidableEq, Repr

/-- The wording of a fault. -/
def FileFault.message : FileFault → String
  | .missing => "No such file or directory (os error 2)"
  | .directory => "Is a directory (os error 21)"
  | .notDirectory => "Not a directory (os error 20)"

/-- Texts with their paths below a root. -/
structure Directory where
  root : String
  files : List (String × String)

namespace Directory

/-- The names on a path, after going up where it says so. -/
def names (path : String) : List (List Char) :=
  (pathParts path).foldl (fun names part => if part = ['.', '.'] then names.dropLast else names ++ [part]) []

/-- The names below the root, of a path that leads there. -/
def below? (d : Directory) (path : String) : Option (List (List Char)) :=
  let base := names d.root
  if path.startsWith "/" && base.isPrefixOf (names path) then some ((names path).drop base.length) else none

/-- The text at a path. -/
def find (d : Directory) (path : String) : Except FileFault String :=
  match d.below? path with
  | none => .error .missing
  | some ns =>
    match d.files.find? fun file => (names file.1).isPrefixOf ns with
    | some (name, text) =>
      if names name = ns ∧ !path.endsWith "/" then .ok text else .error .notDirectory
    | none =>
      if ns.isEmpty || d.files.any fun file => ns.isPrefixOf (names file.1) then .error .directory
      else .error .missing

/-- The text at a path, or the reason why there is none in words. -/
def read (d : Directory) (path : String) : Except String String :=
  (d.find path).mapError FileFault.message

/-- A failure of the store behind a history. -/
def storeFailure (message : String) (code : Nat) (text : String) : Failure :=
  let cause := "(code: " ++ toString code ++ ") " ++ text
  ⟨message, ["error returned from database: " ++ cause, cause]⟩

/-- The path without its last name. -/
def parent (path : String) : String :=
  let reversed := (path.toList.reverse.dropWhile (· == '/')).dropWhile (· != '/')
  String.ofList (reversed.dropWhile (· == '/')).reverse

/-- Why no history can be opened at a path: there is a text or a directory. -/
def locked (d : Directory) (path : String) : Option Failure :=
  let unopened := storeFailure ("Failed to open history database " ++ path) 14 "unable to open database file"
  match d.below? path, d.find path with
  | none, _ => none
  | some _, .ok text =>
    if text.isEmpty then none
    else some (storeFailure "Failed to initialize history schema" 26 "file is not a database")
  | some _, .error .missing => none
  | some _, .error .directory => some unopened
  | some _, .error .notDirectory =>
    some ⟨"Failed to create " ++ parent path, ["File exists (os error 17)"]⟩

end Directory

end Pipework
