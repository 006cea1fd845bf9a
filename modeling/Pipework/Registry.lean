import Pipework.Context
import Pipework.Declaration

/-!
# Handlers and their registry

A handler is what an atom does: from the parameters, the domain and the memory
of a context to an outcome, a new memory and notes. It may keep a state of its
own between calls, of whatever type `σ` the owner of the registry chose. A
handler that has to be waited for is marked so; it does nothing else
differently.

A registry finds the handler of a type and an action, with the atom's
declarations and documentation. Its entries are sorted by type, in the order of
the types, and then by action; the last registration of a call counts.
-/

namespace Pipework

/-- What a handler is called with. -/
structure Call (σ : Type) where
  params : Params
  domain : Option String
  memory : Memory
  state : σ

/-- What a handler answers. A value replaces the data of the context, unless it
is null; no value leaves the data as the memory has it. -/
structure Reply (σ : Type) where
  outcome : Except AtomError (Option Json)
  memory : Memory
  notes : List Note
  state : σ

/-- What an atom does, and whether it has to be waited for. -/
structure Handler (σ : Type) where
  isAsync : Bool
  run : Call σ → Reply σ

/-- Documentation and declared parameters of an atom. -/
structure AtomInfo where
  description : String := ""
  params : List Declaration := []
  /-- Calls in script form. -/
  examples : List String := []

namespace AtomInfo

/-- The tree form of the documentation. -/
def toJson (info : AtomInfo) : Json :=
  .object [("description", .string info.description),
    ("params", .array (info.params.map Declaration.toJson)),
    ("examples", .array (info.examples.map Json.string))]

end AtomInfo

/-- A handler with its documentation. -/
structure Registered (σ : Type) where
  handler : Handler σ
  info : AtomInfo

/-- What is registered: for each call, its handler and documentation. -/
abbrev Registry (σ : Type) := List ((AtomType × String) × Registered σ)

namespace Registry

variable {σ : Type}

/-- The place of a type among the types. -/
def rank (t : AtomType) : Nat := t.ctorIdx

/-- The order of the entries: by type, then by action. -/
def before (a b : AtomType × String) : Bool :=
  rank a.1 < rank b.1 || (rank a.1 == rank b.1 && decide (a.2 < b.2))

/-- What is registered for a call. -/
def lookup (r : Registry σ) (type : AtomType) (action : String) : Option (Registered σ) :=
  List.lookup (type, action) r

def contains (r : Registry σ) (type : AtomType) (action : String) : Bool :=
  (r.lookup type action).isSome

/-- The handler of a call. -/
def handler? (r : Registry σ) (type : AtomType) (action : String) : Option (Handler σ) :=
  (r.lookup type action).map (·.handler)

/-- The documentation of a call. -/
def info? (r : Registry σ) (type : AtomType) (action : String) : Option AtomInfo :=
  (r.lookup type action).map (·.info)

/-- Registers a call, replacing what was registered for it. -/
def register (r : Registry σ) (type : AtomType) (action : String) (entry : Registered σ) : Registry σ :=
  setSorted before (type, action) entry r

/-- What is reported when a call is registered. -/
def registrationReport (r : Registry σ) (type : AtomType) (action : String) : Report :=
  let word := if r.contains type action then "Re-registered" else "Registered"
  ⟨.debug, word ++ " atom " ++ type.name ++ "." ++ action⟩

/-- Registers calls in order, with the lines reported on the way. -/
def registerAll (r : Registry σ) :
    List ((AtomType × String) × Registered σ) → List Report × Registry σ
  | [] => ([], r)
  | ((type, action), entry) :: rest =>
    let (reports, result) := (r.register type action entry).registerAll rest
    (r.registrationReport type action :: reports, result)

/-- The entries of one type. -/
def ofType (r : Registry σ) (type : AtomType) : Registry σ :=
  r.filter fun ((t, _), _) => t == type

/-- The types that have entries, in their order. -/
def types (r : Registry σ) : List AtomType :=
  AtomType.all.filter fun t => !(r.ofType t).isEmpty

/-- The actions of each type. -/
def groups (r : Registry σ) : List (AtomType × List String) :=
  r.types.map fun t => (t, (r.ofType t).map (·.1.2))

/-- Every call with its documentation. -/
def describe (r : Registry σ) : List (AtomType × String × AtomInfo) :=
  r.map fun ((type, action), entry) => (type, action, entry.info)

/-- The calls of a pipeline for which nothing is registered, in order. -/
def missing (r : Registry σ) (p : Pipeline) : List Atom :=
  p.atoms.filter fun atom => !r.contains atom.type atom.action

/-- The documentation as a tree of types and actions, of one type or of all. -/
def docs (r : Registry σ) (only : Option AtomType) : Json :=
  let wanted := r.types.filter fun t => only.all (· == t)
  .object (wanted.map fun t =>
    (t.name, .object ((r.ofType t).map fun ((_, action), entry) => (action, entry.info.toJson))))

end Registry

end Pipework
