import Pipework.Document.Draft
import Pipework.Error
import Pipework.Yaml.Printer
import Pipework.Yaml.Record

/-!
# Pipelines as YAML documents

The tree form of a pipeline as YAML, and back. Fields have the names and the
defaults that they have in JSON documents; here a text may be any scalar, and
an empty document is a pipeline of defaults.
-/

namespace Pipework

open Yaml (Decode Member Reader)

/-- What a draft came to, or the fault of a missing field. -/
def completed {α : Type} (result : Except String α) : Decode α :=
  match result with
  | .ok a => return a
  | .error field => throw (.missingField field)

/-- The fields of an atom. -/
def AtomDraft.entries : List (Member AtomDraft) := [
  .of "type" (·.type) (fun d v => { d with type := some v }) (Yaml.readVariant AtomType.ofName?),
  .of "action" (·.action) (fun d v => { d with action := some v }) Yaml.readText,
  .of "params" (·.params) (fun d v => { d with params := some v }) Yaml.readMap]

/-- An atom. -/
def decodeAtom : Reader Atom := fun depth node => do
  completed (← Yaml.readRecord AtomDraft.entries {} depth node).finish

/-- The fields of a step. -/
def StepDraft.entries : List (Member StepDraft) := [
  .of "atom" (·.atom) (fun d v => { d with atom := some v }) decodeAtom,
  .of "condition" (·.condition) (fun d v => { d with condition := some v })
    (Yaml.readOptional Yaml.readText),
  .of "on_error" (·.onError) (fun d v => { d with onError := some v }) (Yaml.readVariant Policy.ofName?),
  .of "timeout" (·.timeout) (fun d v => { d with timeout := some v }) (Yaml.readOptional Yaml.readUnsigned),
  .of "cache_key" (·.cacheKey) (fun d v => { d with cacheKey := some v }) (Yaml.readOptional Yaml.readText)]

/-- A step. -/
def decodeStep : Reader Step := fun depth node => do
  completed (← Yaml.readRecord StepDraft.entries {} depth node).finish

/-- The fields of a pipeline. -/
def PipelineDraft.entries : List (Member PipelineDraft) := [
  .of "name" (·.name) (fun d v => { d with name := some v }) Yaml.readText,
  .of "version" (·.version) (fun d v => { d with version := some v }) Yaml.readText,
  .of "description" (·.description) (fun d v => { d with description := some v }) Yaml.readText,
  .of "domain" (·.domain) (fun d v => { d with domain := some v }) (Yaml.readOptional Yaml.readText),
  .of "variables" (·.vars) (fun d v => { d with vars := some v }) Yaml.readMap,
  .of "steps" (·.steps) (fun d v => { d with steps := some v }) (Yaml.readItems decodeStep)]

/-- A pipeline. -/
def decodePipeline : Reader Pipeline := fun depth node => do
  return (← Yaml.readRecord PipelineDraft.entries {} depth node).finish

namespace Pipeline

/-- The YAML document of a pipeline. -/
def toYamlText (p : Pipeline) : String :=
  Yaml.print p.toJson

/-- The pipeline of a YAML document. -/
def ofYamlText (text : String) : Except PipelineError Pipeline :=
  match Yaml.decode decodePipeline text with
  | .ok p => .ok p
  | .error fault => .error (.serialization fault.message)

end Pipeline

end Pipework
