import Pipework.Pipeline
import Pipework.Script.Scan
import Pipework.Text.Classes

/-!
# From a pipeline to a script

The normal form of a script: the header, the description as comments, a line
for each variable and a line for each step. Values are written so that they
read back as themselves: a number with a fraction keeps its point and never has
an exponent, a text goes without quotes only as a reference `$name`, a key of
an object only as a word that is no boolean.

An argument whose key is the one it would be given without a name is written
without one; `_arg1` in front of any other unnamed argument is a name.
-/

namespace Pipework.Script

/-- How doubles are written in scripts. -/
def numberLayout : Decimal.Layout := ⟨none, ""⟩

/-- A number as a script writes it. -/
def numberText : Number → String
  | .integer i _ => toString i
  | .double x => x.toDecimal.text numberLayout

/-- A character between double quotes. -/
def quoteChar (c : Char) : List Char :=
  if c = '"' ∨ c = '\\' then ['\\', c] else [c]

/-- A text in double quotes. -/
def quote (s : String) : List Char :=
  '"' :: s.toList.flatMap quoteChar ++ ['"']

/-- Does the text read back as a reference to a variable? -/
def isReference (s : String) : Bool :=
  match s.toList with
  | '$' :: name => isBareWord (String.ofList name)
  | _ => false

/-- A name: as it is, if it is a word and no boolean. -/
def nameChars (s : String) : List Char :=
  if isBareWord s then s.toList else quote s

mutual

/-- A value in script form. -/
def valueChars : Json → List Char
  | .null => "null".toList
  | .bool b => (if b then "true" else "false").toList
  | .number n => (numberText n).toList
  | .string s => if isReference s then s.toList else quote s
  | .array items => '[' :: itemsChars items ++ [']']
  | .object fields => '{' :: entriesChars fields ++ ['}']

/-- Items with a comma and a blank between them. -/
def itemsChars : List Json → List Char
  | [] => []
  | [v] => valueChars v
  | v :: vs => valueChars v ++ ',' :: ' ' :: itemsChars vs

/-- Entries with a comma and a blank between them. -/
def entriesChars : List (String × Json) → List Char
  | [] => []
  | [(k, v)] => nameChars k ++ ':' :: ' ' :: valueChars v
  | (k, v) :: fields => nameChars k ++ ':' :: ' ' :: valueChars v ++ ',' :: ' ' :: entriesChars fields

end

/-- One argument; `unnamed` arguments were written without a name before it. -/
def paramChars (unnamed : Nat) (key : String) (value : Json) : List Char :=
  if key = positionalKey unnamed then valueChars value
  else key.toList ++ '=' :: valueChars value

/-- Arguments with a comma and a blank between them. -/
def paramsChars (unnamed : Nat) : Params → List Char
  | [] => []
  | [(k, v)] => paramChars unnamed k v
  | (k, v) :: params =>
    let following := if k = positionalKey unnamed then unnamed + 1 else unnamed
    paramChars unnamed k v ++ ',' :: ' ' :: paramsChars following params

/-- A call. -/
def atomChars (atom : Atom) : List Char :=
  atom.qualifiedName.toList ++ '(' :: paramsChars 0 atom.params ++ [')']

/-- The line of a variable. -/
def variableChars (name : String) (value : Json) : List Char :=
  ' ' :: ' ' :: '$' :: name.toList ++ ' ' :: '=' :: ' ' :: valueChars value

/-- The lines of the steps: the first has no pipe. -/
def stepLines : List Step → List (List Char)
  | [] => []
  | first :: others =>
    (' ' :: ' ' :: atomChars first.atom) ::
      others.map fun step => ' ' :: ' ' :: '|' :: ' ' :: atomChars step.atom

/-- All lines of a script. -/
def pipelineLines (p : Pipeline) : List (List Char) :=
  ("@pipeline ".toList ++ nameChars p.name ++ [':']) ::
    (Text.linesOf p.description.toList).map (fun line => ' ' :: ' ' :: '#' :: ' ' :: line) ++
    p.vars.map (fun (name, value) => variableChars name value) ++
    stepLines p.steps

/-- Lines put together, with a line feed between two of them. -/
def joinLines : List (List Char) → List Char
  | [] => []
  | [line] => line
  | line :: lines => line ++ '\n' :: joinLines lines

end Pipework.Script

namespace Pipework

/-- A value in script form. -/
def Json.toScript (v : Json) : String :=
  String.ofList (Script.valueChars v)

/-- A call in script form; this is also how a step is named in logs and records. -/
def Atom.toScript (atom : Atom) : String :=
  String.ofList (Script.atomChars atom)

/-- The name of a step in logs and records. -/
def Step.identifier (step : Step) : String :=
  step.atom.toScript

/-- A pipeline in script form. -/
def Pipeline.toScript (p : Pipeline) : String :=
  String.ofList (Script.joinLines (Script.pipelineLines p))

end Pipework
