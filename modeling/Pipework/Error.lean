/-!
# Errors and log lines

Everything that reading or running a pipeline can fail with. An error is its
cause; the wording is in `PipelineError.message`. A handler's own failure is an
`AtomError`, which has nothing but a wording, until the run names the step.

The four severities are shared by the log of a context and by the lines that
the program itself reports while it works.
-/

namespace Pipework

/-- What a handler or a declaration check reports. -/
structure AtomError where
  message : String
  deriving DecidableEq, Repr, Inhabited

/-- The coarse classes of errors that error records carry. -/
inductive ErrorKind where
  | malformed
  | unknownAtom
  | undefinedVariable
  | handler
  | serialization
  deriving DecidableEq, Repr, Inhabited

namespace ErrorKind

def all : List ErrorKind :=
  [.malformed, .unknownAtom, .undefinedVariable, .handler, .serialization]

/-- The name of a class in records. -/
def name : ErrorKind → String
  | .malformed => "syntax"
  | .unknownAtom => "unknown_atom"
  | .undefinedVariable => "undefined_variable"
  | .handler => "handler"
  | .serialization => "serialization"

def ofName? (name : String) : Option ErrorKind :=
  all.find? (·.name == name)

end ErrorKind

/-- Why a pipeline could not be read or run. -/
inductive PipelineError where
  /-- The text is not a pipeline: something else was needed at this place. -/
  | malformed (expected found : String) (line column : Nat)
  /-- A strict reader met a module name that is no atom type. -/
  | unknownAtomType (name : String) (line column : Nat)
  /-- No handler is registered for this call. -/
  | unknownAtom (atomType action : String)
  /-- A reference, as written, to a variable without a value. -/
  | undefinedVariable (reference : String)
  /-- The handler of a step, or the check of its parameters, failed. -/
  | handler (atom message : String)
  /-- A run that cannot wait met a handler that has to be waited for. -/
  | asyncOnly (atom : String)
  /-- A tree document could not be decoded. -/
  | serialization (message : String)
  deriving DecidableEq, Repr, Inhabited

namespace PipelineError

def message : PipelineError → String
  | .malformed expected found line column =>
    "Syntax error at line " ++ toString line ++ ", column " ++ toString column ++
      ": expected " ++ expected ++ ", found " ++ found
  | .unknownAtomType name line column =>
    "Unknown atom type '" ++ name ++ "' at line " ++ toString line ++ ", column " ++ toString column
  | .unknownAtom atomType action => "Unknown atom: " ++ atomType ++ "." ++ action
  | .undefinedVariable reference => "Undefined variable: " ++ reference
  | .handler atom message => atom ++ " failed: " ++ message
  | .asyncOnly atom => "Atom " ++ atom ++ " only has an async handler; use execute_async"
  | .serialization message => "Invalid pipeline document: " ++ message

def kind : PipelineError → ErrorKind
  | .malformed .. | .unknownAtomType .. => .malformed
  | .unknownAtom .. | .asyncOnly _ => .unknownAtom
  | .undefinedVariable _ => .undefinedVariable
  | .handler .. => .handler
  | .serialization _ => .serialization

/-- May a step's policy act on the error? All others always end the run. -/
def isRecoverable : PipelineError → Bool
  | .undefinedVariable _ | .handler .. => true
  | _ => false

/-- The error as a handler that met it would report it. -/
def toAtomError (e : PipelineError) : AtomError := ⟨e.message⟩

end PipelineError

/-! ## Log lines -/

/-- How severe a log line is. -/
inductive LogLevel where
  | debug
  | info
  | warn
  | error
  deriving DecidableEq, Repr, Inhabited

namespace LogLevel

def all : List LogLevel := [.debug, .info, .warn, .error]

def name : LogLevel → String
  | .debug => "debug"
  | .info => "info"
  | .warn => "warn"
  | .error => "error"

def ofName? (name : String) : Option LogLevel :=
  all.find? (·.name == name)

end LogLevel

/-- A line that the program reports about its own work. -/
structure Report where
  level : LogLevel
  message : String
  deriving DecidableEq, Repr, Inhabited

end Pipework
