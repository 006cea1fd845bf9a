/-!
# Failures of commands

A command that fails says what could not be done, and why: a message, and under
it its causes, each the reason for the one before.
-/

namespace Pipework

/-- What could not be done, and the causes of that. -/
structure Failure where
  message : String
  causes : List String := []
  deriving DecidableEq, Repr

namespace Failure

/-- A failure that is the cause of another. -/
def under (message : String) (f : Failure) : Failure :=
  ⟨message, f.message :: f.causes⟩

/-- The text with `blanks` in front of all lines but the first. -/
def hanging (blanks : List Char) : List Char → List Char
  | [] => []
  | '\n' :: cs => '\n' :: (blanks ++ hanging blanks cs)
  | c :: cs => c :: hanging blanks cs

/-- A cause in a report; causes are numbered if there are several. -/
def causeText (number : Option Nat) (cause : String) : String :=
  match number with
  | some n =>
    let label := toString n
    String.ofList (List.replicate (5 - label.length) ' ') ++ label ++ ": " ++
      String.ofList (hanging (List.replicate 7 ' ') cause.toList)
  | none => "    " ++ String.ofList (hanging (List.replicate 4 ' ') cause.toList)

/-- What is reported of a failure. -/
def report (f : Failure) : String :=
  let numbered := decide (1 < f.causes.length)
  let causes := f.causes.zipIdx.map fun (cause, n) =>
    "\n" ++ causeText (if numbered then some n else none) cause
  "Error: " ++ f.message ++ (if f.causes.isEmpty then "" else "\n\nCaused by:" ++ String.join causes)

/-- The failure in a line. -/
def line (f : Failure) : String :=
  ": ".intercalate (f.message :: f.causes)

end Failure

end Pipework
