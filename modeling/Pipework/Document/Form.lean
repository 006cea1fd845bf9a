import Pipework.Document.Json
import Pipework.Document.Yaml
import Pipework.Script.Parse
import Pipework.Script.Print
import Pipework.Text.Classes

/-!
# Pipeline files

A pipeline is kept as a script or as a tree, and a tree as JSON or YAML. Which
of these a file holds is told by the extension of its name. What a file holds
ends without blanks, whatever the form.
-/

namespace Pipework

/-- How a pipeline is written down. -/
inductive Form where
  | script
  | json
  | yaml
  deriving DecidableEq, Repr, Inhabited

/-- The parts of a path that name something: empty ones and single points do not. -/
def pathParts (path : String) : List (List Char) :=
  (splitAt '/' path.toList).filter fun part => part ≠ [] ∧ part ≠ ['.']
where
  /-- What stands between the occurrences of a character. -/
  splitAt (mark : Char) : List Char → List (List Char)
    | [] => [[]]
    | c :: cs =>
      if c = mark then [] :: splitAt mark cs
      else match splitAt mark cs with
        | part :: parts => (c :: part) :: parts
        | [] => [[c]]

/-- What follows the last point of a file name, if anything precedes it. -/
def extensionOf? (name : List Char) : Option (List Char) :=
  if name = ['.', '.'] then none
  else
    let reversed := name.reverse
    let front := reversed.dropWhile (· ≠ '.')
    if front.length ≤ 1 then none else some (reversed.takeWhile (· ≠ '.')).reverse

namespace Form

/-- The form of the file at a path. -/
def ofPath (path : String) : Form :=
  match ((pathParts path).getLast?.bind extensionOf?).map String.ofList with
  | some "json" => .json
  | some "yaml" | some "yml" => .yaml
  | _ => .script

end Form

namespace Pipeline

/-- Reads a pipeline of a known form, with the lines reported on the way. -/
def read (form : Form) (unknown : Script.UnknownTypes) (text : String) : Script.Reported Pipeline :=
  match form with
  | .script => Script.read unknown text
  | .json => ⟨[], ofJsonText text⟩
  | .yaml => ⟨[], ofYamlText text⟩

/-- Writes a pipeline in a form. -/
def write (form : Form) (p : Pipeline) : String :=
  match form with
  | .script => p.toScript
  | .json => p.toJsonText
  | .yaml => p.toYamlText

/-- What a file of that form holds, without the blanks at the end. -/
def fileText (form : Form) (p : Pipeline) : String :=
  String.ofList (Text.trimEnd (p.write form).toList)

end Pipeline

end Pipework
