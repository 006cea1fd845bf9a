import Pipework.Json.Basic

/-!
# Atoms

An atom is one call in a pipeline: a type from a closed set, an action within
that type, and parameters. Parameters are named; an argument given without a
name is kept under the key `_arg0`, `_arg1`, … in the order of such arguments.
References to variables stay in the parameters as they were written.
-/

namespace Pipework

/-- The closed set of atom types, in the order in which listings group them. -/
inductive AtomType where
  | data
  | transform
  | filter
  | aggregate
  | metrics
  | report
  | alert
  | budget
  | investment
  | forecast
  | export
  | validate
  | merge
  | split
  | cache
  | view
  | ui
  | source
  | sink
  | deploy
  deriving DecidableEq, Repr, Inhabited

namespace AtomType

/-- All types in their order. -/
def all : List AtomType :=
  [.data, .transform, .filter, .aggregate, .metrics, .report, .alert, .budget, .investment,
   .forecast, .export, .validate, .merge, .split, .cache, .view, .ui, .source, .sink, .deploy]

/-- The name that stands before the dot of a call. -/
def name : AtomType → String
  | .data => "data"
  | .transform => "transform"
  | .filter => "filter"
  | .aggregate => "aggregate"
  | .metrics => "metrics"
  | .report => "report"
  | .alert => "alert"
  | .budget => "budget"
  | .investment => "investment"
  | .forecast => "forecast"
  | .export => "export"
  | .validate => "validate"
  | .merge => "merge"
  | .split => "split"
  | .cache => "cache"
  | .view => "view"
  | .ui => "ui"
  | .source => "source"
  | .sink => "sink"
  | .deploy => "deploy"

/-- The type of a name, exactly as spelled. -/
def ofName? (name : String) : Option AtomType :=
  all.find? (·.name == name)

/-- A type is found by its name. -/
theorem ofName?_name (t : AtomType) : ofName? t.name = some t := by
  cases t <;> decide +kernel

end AtomType

/-- Named and positional arguments in call order. -/
abbrev Params := Fields

/-- The key of the `n`-th argument without a name, counted from 0. -/
def positionalKey (n : Nat) : String :=
  "_arg" ++ toString n

/-- A call `type.action(params)`. -/
structure Atom where
  type : AtomType
  action : String
  params : Params := []
  deriving Inhabited

namespace Atom

/-- The call without its arguments. -/
def qualifiedName (atom : Atom) : String :=
  atom.type.name ++ "." ++ atom.action

/-- The atom with one parameter set. -/
def withParam (atom : Atom) (key : String) (value : Json) : Atom :=
  { atom with params := atom.params.insert key value }

/-- The tree form of an atom. -/
def toJson (atom : Atom) : Json :=
  .object [("type", .string atom.type.name), ("action", .string atom.action),
    ("params", .object atom.params)]

/-- Same type, action and parameters, where the order of parameters is free. -/
def equal (a b : Atom) : Bool :=
  a.type == b.type && a.action == b.action && (Json.object a.params).equal (.object b.params)

end Atom

end Pipework
