import Pipework.CommandLine.Words
import Pipework.Document.Form
import Pipework.Pipeline

/-!
# Commands

What the program can be told to do, and how that is said in words. Two options
are known to all commands and may stand in front of the command too; where both
are given, the one behind the command counts.
-/

namespace Pipework

/-- What surrounds a run: variables, data and domain from outside, and whether
the outcome is shown as a JSON document, without lines about its progress. -/
structure Setup where
  overrides : List Assignment := []
  data : Option String := none
  domain : Option String := none
  json : Bool := false
  deriving DecidableEq, Repr

/-- What to look up in the history. -/
structure HistoryQuery where
  pipeline : Option String := none
  limit : Nat := 10
  json : Bool := false
  run : Option String := none
  /-- List the pipelines that have runs, and no runs. -/
  pipelines : Bool := false
  deriving DecidableEq, Repr

/-- What the program is to do. -/
inductive Command where
  /-- Run the pipeline of a file. -/
  | run (file : String) (setup : Setup) (record : Bool)
  /-- Run a script; a hyphen stands for the standard input. -/
  | exec (script : String) (setup : Setup)
  /-- Check that a pipeline can be read and has only registered atoms. -/
  | validate (file : String) (strict json : Bool)
  /-- Write a pipeline in another form. -/
  | convert (file : String) (form : Form)
  | listAtoms (details json : Bool)
  | history (query : HistoryQuery)
  deriving DecidableEq, Repr

/-- A command with the options that all commands have. -/
structure Invocation where
  command : Command
  verbose : Bool := false
  config : Option String := none
  deriving DecidableEq, Repr

namespace CommandLine

/-! ## Values -/

/-- A path is not empty. -/
def checkPath (name path : String) : Option Halt :=
  if path.isEmpty then some (.refusedValue name path) else none

/-- An assignment can be read. -/
def checkAssignment (name text : String) : Option Halt :=
  match Assignment.parse text with
  | .ok _ => none
  | .error _ => some (.malformedValue name text)

/-- The form of a name. -/
def formOf? (name : String) : Option Form :=
  [("dsl", Form.script), ("json", .json), ("yaml", .yaml)].lookup name

/-- A form is one of the three. -/
def checkForm (name form : String) : Option Halt :=
  if (formOf? form).isSome then none else some (.refusedValue name form)

/-- A count of the unsigned 64-bit range; a plus may stand in front. -/
def countOf? (text : String) : Option Nat :=
  let cs := match text.toList with
    | '+' :: cs => cs
    | cs => cs
  let n := digitsValue cs
  if !cs.isEmpty && cs.all isAsciiDigit && decide (n < twoTo 64) then some n else none

/-- A count can be read. -/
def checkCount (name text : String) : Option Halt :=
  if (countOf? text).isSome then none else some (.malformedValue name text)

/-! ## Grammars -/

def verboseOption : Parameter := { name := "verbose", letter := some 'v', use := .flag }
def configOption : Parameter := { name := "config", letter := some 'c', check := checkPath "config" }
def helpOption : Parameter := { name := "help", letter := some 'h', use := .help }
def versionOption : Parameter := { name := "version", letter := some 'V', use := .version }
def jsonOption : Parameter := { name := "json", use := .flag }
def fileOperand : Parameter := { name := "file", check := checkPath "file" }

/-- The options that all commands have. -/
def commonOptions : List Parameter := [verboseOption, configOption, helpOption]

/-- The options of commands that run something. -/
def setupOptions : List Parameter := [
  { name := "var", use := .many, check := checkAssignment "var" },
  { name := "data" },
  { name := "domain" },
  jsonOption]

def runGrammar : Grammar where
  options := commonOptions ++ setupOptions ++ [{ name := "no-history", use := .flag }]
  operands := [fileOperand]

def execGrammar : Grammar where
  options := commonOptions ++ setupOptions
  operands := [{ name := "dsl" }]

def validateGrammar : Grammar where
  options := commonOptions ++ [{ name := "strict", use := .flag }, jsonOption]
  operands := [fileOperand]

def convertGrammar : Grammar where
  options := commonOptions ++ [{ name := "to", check := checkForm "to" }]
  operands := [fileOperand]

def listAtomsGrammar : Grammar where
  options := commonOptions ++ [{ name := "details", use := .flag }, jsonOption]

def historyGrammar : Grammar where
  options := commonOptions ++ [
    { name := "pipeline", letter := some 'p' },
    { name := "limit", letter := some 'l', check := checkCount "limit" },
    jsonOption,
    { name := "execution-id" },
    { name := "pipelines", use := .flag }]

/-- The words in front of a command. -/
def topGrammar : Grammar where
  options := commonOptions ++ [versionOption]
  commands := ["run", "exec", "validate", "convert", "list-atoms", "history", "help"]

/-! ## Commands from words -/

/-- What surrounds a run, as the words say. -/
def setupOf (r : Reading) : Setup where
  overrides := (r.values "var").filterMap fun text => (Assignment.parse text).toOption
  data := r.value? "data"
  domain := r.value? "domain"
  json := r.has "json"

/-- The text of an operand that was asked for. -/
def operandOf (r : Reading) (name : String) : String :=
  (r.value? name).getD ""

/-- Reads the words of a command that has no choice to make between options. -/
def readBy (g : Grammar) (words : List String) (build : Reading → Command) :
    Except Halt (Reading × Command) := do
  let r ← (← readAll g words).complete g
  .ok (r, build r)

/-- Runs and pipelines are not listed at once. -/
def checkHistory (r : Reading) : Except Halt Unit :=
  if r.has "pipelines" && r.has "execution-id" then .error (.conflict "pipelines" "execution-id") else .ok ()

/-- The query of the words. -/
def queryOf (r : Reading) : HistoryQuery where
  pipeline := r.value? "pipeline"
  limit := ((r.value? "limit").bind countOf?).getD 10
  json := r.has "json"
  run := r.value? "execution-id"
  pipelines := r.has "pipelines"

/-- Reads the words behind the name of a command. -/
def readCommand (name : String) (words : List String) : Except Halt (Reading × Command) :=
  match name with
  | "run" => readBy runGrammar words fun r => .run (operandOf r "file") (setupOf r) (!r.has "no-history")
  | "exec" => readBy execGrammar words fun r => .exec (operandOf r "dsl") (setupOf r)
  | "validate" => readBy validateGrammar words fun r =>
      .validate (operandOf r "file") (r.has "strict") (r.has "json")
  | "convert" => readBy convertGrammar words fun r =>
      .convert (operandOf r "file") (((r.value? "to").bind formOf?).getD .script)
  | "list-atoms" => readBy listAtomsGrammar words fun r => .listAtoms (r.has "details") (r.has "json")
  | "history" => do
    let r ← readAll historyGrammar words
    checkHistory r
    .ok (r, .history (queryOf r))
  | _ => .error (.unknownCommand name)

/-- What a wish for help about commands comes to. -/
def helpAbout : List String → Halt
  | [] => .help
  | [name] => if topGrammar.commands.contains name then .help else .unknownCommand name
  | name :: word :: _ => .unknownCommand (if topGrammar.commands.contains name then word else name)

end CommandLine

namespace Invocation

open CommandLine in
/-- Reads the words that the program is called with. -/
def ofWords (words : List String) : Except Halt Invocation := do
  match ← readWords topGrammar { operands := [] } words with
  | (r, none) =>
    let r ← r.settle
    .error (if r.given.isEmpty then .noWords else .missingCommand)
  | (_, some ("help", words)) => .error (helpAbout words)
  | (outer, some (name, words)) =>
    let (r, command) ← readCommand name words
    let outer ← outer.settle
    .ok { command
          verbose := outer.has "verbose" || r.has "verbose"
          config := r.value? "config" <|> outer.value? "config" }

end Invocation

end Pipework
