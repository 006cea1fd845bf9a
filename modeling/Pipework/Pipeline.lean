import Pipework.Atom
import Pipework.Json.Reader

/-!
# Pipelines

A pipeline is a name, declared variables and steps in execution order. A step
is an atom and what surrounds its call: what to do when it fails, and notes for
the host application that no run looks at (condition, timeout, cache key).

`Pipeline.toJson` is the tree form, with every field written out.

Whoever runs a pipeline may give variables a value, written `name=value`. The
value is JSON where it can be read as JSON, and a text otherwise. It wins over
what the pipeline declares.
-/

namespace Pipework

/-- What a run does when a step fails with a recoverable error. -/
inductive Policy where
  /-- End the run with the error. -/
  | stop
  /-- Record the error, keep the data as it is, go on. -/
  | skip
  /-- Try once more; end the run if that fails too. -/
  | retry
  deriving DecidableEq, Repr, Inhabited

namespace Policy

def all : List Policy := [.stop, .skip, .retry]

def name : Policy → String
  | .stop => "stop"
  | .skip => "skip"
  | .retry => "retry"

def ofName? (name : String) : Option Policy :=
  all.find? (·.name == name)

end Policy

/-- An atom with its policy and the host's notes. -/
structure Step where
  atom : Atom
  condition : Option String := none
  onError : Policy := .stop
  /-- Milliseconds, carried and not enforced. -/
  timeout : Option UInt64 := none
  cacheKey : Option String := none
  deriving Inhabited

namespace Step

/-- The tree form of a step. -/
def toJson (step : Step) : Json :=
  .object [("atom", step.atom.toJson), ("condition", Json.ofText? step.condition),
    ("on_error", .string step.onError.name),
    ("timeout", match step.timeout with
      | some ms => Json.ofNat ms.toNat
      | none => .null),
    ("cache_key", Json.ofText? step.cacheKey)]

/-- Equal in every field, parameters compared as a map. -/
def equal (a b : Step) : Bool :=
  a.atom.equal b.atom && a.condition == b.condition && a.onError == b.onError &&
    a.timeout == b.timeout && a.cacheKey == b.cacheKey

end Step

/-- A pipeline: declared variables and steps, both in order. -/
structure Pipeline where
  name : String
  version : String := "1.0"
  description : String := ""
  domain : Option String := none
  vars : Fields := []
  steps : List Step := []
  deriving Inhabited

namespace Pipeline

/-- The name of a pipeline that was given none. -/
def defaultName : String := "anonymous"

/-- The calls in execution order. -/
def atoms (p : Pipeline) : List Atom :=
  p.steps.map (·.atom)

/-- The tree form. -/
def toJson (p : Pipeline) : Json :=
  .object [("name", .string p.name), ("version", .string p.version),
    ("description", .string p.description), ("domain", Json.ofText? p.domain),
    ("variables", .object p.vars), ("steps", .array (p.steps.map Step.toJson))]

/-- Equal in every field; variables and parameters are compared as maps. -/
def equal (a b : Pipeline) : Bool :=
  a.name == b.name && a.version == b.version && a.description == b.description &&
    a.domain == b.domain && (Json.object a.vars).equal (.object b.vars) &&
    a.steps.length == b.steps.length && (a.steps.zip b.steps).all fun (s, t) => s.equal t

/-! ## Building -/

/-- What a pipeline is built from, before anything is set. -/
def blank : Pipeline := { name := "pipeline" }

def withName (p : Pipeline) (name : String) : Pipeline := { p with name }

def withDescription (p : Pipeline) (description : String) : Pipeline := { p with description }

def withDomain (p : Pipeline) (domain : String) : Pipeline := { p with domain := some domain }

/-- Declares a variable, or gives a declared one a new value in its place. -/
def declare (p : Pipeline) (name : String) (value : Json) : Pipeline :=
  { p with vars := p.vars.insert name value }

/-- Adds a step at the end. -/
def push (p : Pipeline) (step : Step) : Pipeline :=
  { p with steps := p.steps ++ [step] }

end Pipeline

/-! ## Variables given from outside -/

/-- A variable and the text of its value. -/
structure Assignment where
  name : String
  value : String
  deriving DecidableEq, Repr

namespace Assignment

/-- Reads `name=value`; the name is not empty and ends at the first `=`. -/
def parse (text : String) : Except String Assignment :=
  let cs := text.toList
  let name := cs.takeWhile (· ≠ '=')
  match cs.dropWhile (· ≠ '=') with
  | _ :: value =>
    if name.isEmpty then .error (problem text) else .ok ⟨String.ofList name, String.ofList value⟩
  | [] => .error (problem text)
where
  problem (text : String) : String := "Invalid key=value pair: " ++ text

/-- The value that a text stands for. -/
def valueOf (text : String) : Json :=
  (Json.parse? text).getD (.string text)

end Assignment

/-- The pipeline with variables given from outside. -/
def Pipeline.override (p : Pipeline) (assignments : List Assignment) : Pipeline :=
  assignments.foldl (fun p a => p.declare a.name (Assignment.valueOf a.value)) p

end Pipework
