import Pipework.Pipeline

/-!
# Drafts

A pipeline is read from a tree field by field, in any order. A draft holds the
fields that have been read so far, and `finish` fills in the others or names
one that cannot be left out.
-/

namespace Pipework

/-- An atom that is being read. -/
structure AtomDraft where
  type : Option AtomType := none
  action : Option String := none
  params : Option Params := none

/-- A step that is being read. -/
structure StepDraft where
  atom : Option Atom := none
  condition : Option (Option String) := none
  onError : Option Policy := none
  timeout : Option (Option UInt64) := none
  cacheKey : Option (Option String) := none

/-- A pipeline that is being read. -/
structure PipelineDraft where
  name : Option String := none
  version : Option String := none
  description : Option String := none
  domain : Option (Option String) := none
  vars : Option Fields := none
  steps : Option (List Step) := none

/-- The atom of a draft, or the name of the field that is missing. -/
def AtomDraft.finish (d : AtomDraft) : Except String Atom :=
  match d.type, d.action with
  | some type, some action => .ok ⟨type, action, d.params.getD []⟩
  | none, _ => .error "type"
  | _, none => .error "action"

/-- The step of a draft, or the name of the field that is missing. -/
def StepDraft.finish (d : StepDraft) : Except String Step :=
  match d.atom with
  | some atom => .ok {
      atom
      condition := d.condition.join
      onError := d.onError.getD .stop
      timeout := d.timeout.join
      cacheKey := d.cacheKey.join }
  | none => .error "atom"

/-- The pipeline of a draft; every field has a default. -/
def PipelineDraft.finish (d : PipelineDraft) : Pipeline :=
  { name := d.name.getD Pipeline.defaultName
    version := d.version.getD "1.0"
    description := d.description.getD ""
    domain := d.domain.join
    vars := d.vars.getD []
    steps := d.steps.getD [] }

end Pipework
