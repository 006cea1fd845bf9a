import Pipework.Document.Yaml
import Pipework.Proofs.Document.Json
import Pipework.Proofs.Yaml.Values

/-!
# Pipelines come back from YAML

The YAML document of a pipeline is read as that pipeline, field by field, as it is with JSON. Nothing
is lost in any style, as long as the document is not cut.
-/

namespace Pipework

open Yaml (nodeOf)

/-! ## Pipelines -/

/-- The tree of an atom is read as that atom. -/
theorem decodeAtom_nodeOf (atom : Atom) {depth : Nat} (distinct : Fields.KeysDistinct atom.params)
    (shallow : atom.toJson.depth ≤ depth) : decodeAtom depth (nodeOf atom.toJson) = pure atom := by
  rw [Atom.depth_toJson] at shallow
  -- One level for the record, and one for the object of its parameters.
  obtain ⟨depth, rfl⟩ : ∃ inner, depth = inner + 2 := ⟨depth - 2, by omega⟩
  have record : Yaml.readRecord AtomDraft.entries {} (depth + 2) (nodeOf atom.toJson) =
      pure ⟨some atom.type, some atom.action, some atom.params⟩ := by
    refine Yaml.readRecord_nodeOf ?_
    refine .member rfl rfl (Yaml.readVariant_nodeOf (AtomType.ofName?_name _) _) ?_
    refine .member rfl rfl (Yaml.readText_scalar _ _ _) ?_
    refine .member rfl rfl (Yaml.readMap_nodeOf distinct (by omega)) ?_
    exact .done _
  rw [decodeAtom, record, pure_bind]
  rfl

/-- The tree of a step is read as that step. -/
theorem decodeStep_nodeOf (step : Step) {depth : Nat}
    (distinct : Fields.KeysDistinct step.atom.params) (shallow : step.toJson.depth ≤ depth) :
    decodeStep depth (nodeOf step.toJson) = pure step := by
  rw [Step.depth_toJson] at shallow
  obtain ⟨depth, rfl⟩ : ∃ inner, depth = inner + 1 := ⟨depth - 1, by omega⟩
  have known : Policy.ofName? step.onError.name = some step.onError := by
    cases step.onError <;> rfl
  have record : Yaml.readRecord StepDraft.entries {} (depth + 1) (nodeOf step.toJson) =
      pure ⟨some step.atom, some step.condition, some step.onError, some step.timeout,
        some step.cacheKey⟩ := by
    refine Yaml.readRecord_nodeOf ?_
    refine .member rfl rfl (decodeAtom_nodeOf step.atom distinct (by omega)) ?_
    refine .member rfl rfl (Yaml.readOptional_ofText _ _) ?_
    refine .member rfl rfl (Yaml.readVariant_nodeOf known _) ?_
    refine .member rfl rfl (Yaml.readOptional_timeout _ _) ?_
    refine .member rfl rfl (Yaml.readOptional_ofText _ _) ?_
    exact .done _
  rw [decodeStep, record, pure_bind]
  rfl

/-- The tree of a pipeline is read as that pipeline. -/
theorem decodePipeline_nodeOf (p : Pipeline) {depth : Nat} (distinct : p.KeysDistinct)
    (shallow : p.toJson.depth ≤ depth) : decodePipeline depth (nodeOf p.toJson) = pure p := by
  rw [Pipeline.depth_toJson] at shallow
  obtain ⟨depth, rfl⟩ : ∃ inner, depth = inner + 2 := ⟨depth - 2, by omega⟩
  have steps : ∀ step ∈ p.steps, decodeStep depth (nodeOf step.toJson) = pure step := by
    intro step mem
    have := Json.depth_le_of_mem (List.mem_map_of_mem (f := Step.toJson) mem)
    exact decodeStep_nodeOf step (distinct.2 step mem) (by omega)
  have record : Yaml.readRecord PipelineDraft.entries {} (depth + 2) (nodeOf p.toJson) =
      pure ⟨some p.name, some p.version, some p.description, some p.domain, some p.vars,
        some p.steps⟩ := by
    refine Yaml.readRecord_nodeOf ?_
    refine .member rfl rfl (Yaml.readText_scalar _ _ _) ?_
    refine .member rfl rfl (Yaml.readText_scalar _ _ _) ?_
    refine .member rfl rfl (Yaml.readText_scalar _ _ _) ?_
    refine .member rfl rfl (Yaml.readOptional_ofText _ _) ?_
    refine .member rfl rfl (Yaml.readMap_nodeOf distinct.1 (by omega)) ?_
    refine .member rfl rfl (Yaml.readItems_nodeOf steps) ?_
    exact .done _
  rw [decodePipeline, record, pure_bind]
  rfl

namespace Pipeline

/-- A pipeline is read from the whole of its document. -/
theorem decode_toYamlText {p : Pipeline} (distinct : p.KeysDistinct)
    (shallow : p.toJson.depth ≤ Yaml.maxDepth) : Yaml.decode decodePipeline p.toYamlText = .ok p := by
  obtain ⟨field, fields, shape⟩ : ∃ field fields, p.toJson = .object (field :: fields) := ⟨_, _, rfl⟩
  obtain ⟨document, text, root⟩ := Yaml.ofText_print field fields
  have read := decodePipeline_nodeOf p distinct shallow
  rw [shape, ← root] at read
  rw [toYamlText, shape]
  refine Outcome.bind_eq_ok.mpr ⟨document, text, ?_⟩
  rw [read]
  rfl

/-- **Pipelines come back from YAML.** The document of a pipeline whose keys are distinct, and that
nests no deeper than is read, is read as that pipeline. -/
theorem ofYamlText_toYamlText (p : Pipeline) (distinct : p.KeysDistinct)
    (shallow : p.toJson.depth ≤ Yaml.maxDepth) : ofYamlText p.toYamlText = .ok p := by
  rw [ofYamlText, decode_toYamlText distinct shallow]

end Pipeline

end Pipework
