import Pipework.Builtin.Atoms
import Pipework.Program.Session

/-!
# Commands that look at pipelines and atoms

`validate` says whether a pipeline can be read and has only built-in atoms,
`convert` writes it in another form, and `list-atoms` shows the built-in atoms.
None of them runs anything.
-/

namespace Pipework.Action

/-- The atoms that commands know. -/
def builtins : Registry Unit := Builtin.registry

/-- Prints texts in a style, one on each line, two blanks from the left. -/
def sayAll (style : Style) (texts : List String) : Action Unit := do
  for text in texts do say ("  " ++ (← styled style text))

/-- Checks the pipeline of a file; one that is not good is refused. -/
def validateFile (file : String) (strict json : Bool) (config : Config) : Action Unit := do
  note .info "Validating pipeline..."
  let unknown := if strict then .reject else config.unknownTypes
  let p ← tryCatch (loadPipeline unknown file) fun stop => do
    note .cross "Validation failed:"
    if let .failure f := stop then sayAll .red [f.line]
    throw .refused
  say ("  Name: " ++ (← styled .bold p.name))
  say ("  Steps: " ++ (← styled .cyan (toString p.steps.length)))
  say ("  Variables: " ++ (← styled .cyan (toString p.vars.length)))
  if json then say ("\n" ++ p.toJsonText)
  let missing := builtins.missing p
  if missing.isEmpty then note .check "Pipeline is valid!"
  else
    note .cross "Unregistered atoms:"
    sayAll .red (missing.map Atom.qualifiedName)
    throw .refused

/-- Prints the pipeline of a file in a form. -/
def convertFile (file : String) (form : Form) (config : Config) : Action Unit := do
  say ((← loadPipeline config.unknownTypes file).fileText form)

/-- Prints what is known of an atom. -/
def describeAtom (type : AtomType) (action : String) (info : AtomInfo) : Action Unit := do
  let signature := ", ".intercalate (info.params.map Declaration.signature)
  say (← styled .bold (type.name ++ "." ++ action ++ "(" ++ signature ++ ")"))
  if !info.description.isEmpty then say ("  " ++ info.description)
  for d in info.params do
    if !d.description.isEmpty then say ("    " ++ (← styled .cyan d.name) ++ " " ++ d.description)
  sayAll .dim info.examples

/-- Lists the atoms: as a document, with all that is known of them, or by type. -/
def listAtoms (details json : Bool) : Action Unit := do
  if json then say (builtins.docs none).pretty
  else if details then
    for (type, action, info) in builtins.describe do describeAtom type action info
  else
    for (type, actions) in builtins.groups do
      say ((← styled .bold (type.name ++ ":")) ++ " " ++ ", ".intercalate actions)

end Pipework.Action
