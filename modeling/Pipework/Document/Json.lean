import Pipework.Document.Draft
import Pipework.Error
import Pipework.Json.Printer
import Pipework.Json.Record

/-!
# Pipelines as JSON documents

The tree form of a pipeline as a text, and back. Writing spells every field
out. Reading needs only what has no default: the atom of a step, and the type
and the action of an atom.
-/

namespace Pipework

open Json (Member Reader)

/-- What a draft came to, or the fault of a missing field. -/
def finished {α : Type} (result : Except String α) : Reader α := fun cs =>
  match result with
  | .ok a => .ok (a, cs)
  | .error field => (Json.Fault.missingField field).before cs

def AtomDraft.members : List (Member AtomDraft) := [
  .of "type" true (·.type) (fun d v => { d with type := some v })
    (Json.readVariant (AtomType.all.map AtomType.name) AtomType.ofName?),
  .of "action" true (·.action) (fun d v => { d with action := some v }) (fun _ => Json.readText),
  .of "params" false (·.params) (fun d v => { d with params := some v }) Json.readMap]

/-- An atom. -/
def readAtom (depth : Nat) : Reader Atom := fun cs => do
  let (draft, cs) ← Json.readRecord "struct Atom" AtomDraft.members {} depth cs
  finished draft.finish cs

def StepDraft.members : List (Member StepDraft) := [
  .of "atom" true (·.atom) (fun d v => { d with atom := some v }) readAtom,
  .of "condition" false (·.condition) (fun d v => { d with condition := some v })
    (fun _ => Json.readOptional Json.readText),
  .of "on_error" false (·.onError) (fun d v => { d with onError := some v })
    (Json.readVariant (Policy.all.map Policy.name) Policy.ofName?),
  .of "timeout" false (·.timeout) (fun d v => { d with timeout := some v })
    (fun _ => Json.readOptional Json.readUnsigned),
  .of "cache_key" false (·.cacheKey) (fun d v => { d with cacheKey := some v })
    (fun _ => Json.readOptional Json.readText)]

/-- A step. -/
def readStep (depth : Nat) : Reader Step := fun cs => do
  let (draft, cs) ← Json.readRecord "struct PipelineStep" StepDraft.members {} depth cs
  finished draft.finish cs

def PipelineDraft.members : List (Member PipelineDraft) := [
  .of "name" false (·.name) (fun d v => { d with name := some v }) (fun _ => Json.readText),
  .of "version" false (·.version) (fun d v => { d with version := some v }) (fun _ => Json.readText),
  .of "description" false (·.description) (fun d v => { d with description := some v })
    (fun _ => Json.readText),
  .of "domain" false (·.domain) (fun d v => { d with domain := some v })
    (fun _ => Json.readOptional Json.readText),
  .of "variables" false (·.vars) (fun d v => { d with vars := some v }) Json.readMap,
  .of "steps" false (·.steps) (fun d v => { d with steps := some v }) (Json.readSequence readStep)]

/-- A pipeline. -/
def readPipeline (depth : Nat) : Reader Pipeline := fun cs => do
  let (draft, cs) ← Json.readRecord "struct PipelineDefinition" PipelineDraft.members {} depth cs
  .ok (draft.finish, cs)

namespace Pipeline

/-- The JSON document of a pipeline. -/
def toJsonText (p : Pipeline) : String :=
  p.toJson.pretty

/-- The pipeline of a JSON document. -/
def ofJsonText (text : String) : Except PipelineError Pipeline :=
  match Json.readWhole (readPipeline Json.maxDepth) text.toList with
  | .ok p => .ok p
  | .error stop => .error (.serialization (stop.message text.toList))

end Pipeline

end Pipework
