import Pipework.Document.Form
import Pipework.Proofs.Document.Yaml
import Pipework.Proofs.Yaml.Ends

/-!
# Documents without the blanks at their end

What a file holds of a document has no blanks at its end. A YAML document ends with the cache key of
the last step, or with a word or a bracket; where that key stands without quotes and ends in blanks
itself, they are lost. In all other cases nothing but the end of the last line is, and the pipeline
comes back.
-/

namespace Pipework.Pipeline

open Yaml (documentChars afterKey)
open Text (EndsLine)

/-- Does the document end in blanks that belong to the cache key of the last step? -/
def endsBlank (p : Pipeline) : Bool :=
  p.steps.getLast?.any fun step => step.cacheKey.any Yaml.endsBlank

/-- The document ends with the steps, and what stands in front of them is the same for all steps. -/
theorem document_steps (p : Pipeline) :
    ∃ front, ∀ steps : List Step, documentChars { p with steps }.toJson =
      front ++ afterKey 0 (.array (steps.map Step.toJson)) := by
  obtain ⟨front, last⟩ := Yaml.fieldLines_concat 0
    (show Yaml.isSimpleKey "steps" = true by decide)
    [("name", .string p.name), ("version", .string p.version),
      ("description", .string p.description), ("domain", Json.ofText? p.domain),
      ("variables", .object p.vars)]
  exact ⟨front, fun steps => last (.array (steps.map Step.toJson))⟩

/-- A step ends with its cache key. -/
theorem step_cacheKey (step : Step) :
    ∃ front, ∀ key : Option String,
      Yaml.afterMark 0 (Step.toJson { step with cacheKey := key }) =
        front ++ afterKey 2 (Json.ofText? key) := by
  obtain ⟨others, shape⟩ : ∃ others, ∀ key : Option String,
      Step.toJson { step with cacheKey := key } =
        .object (others ++ [("cache_key", Json.ofText? key)]) :=
    ⟨(step.toJson.object?.getD []).dropLast, fun _ => rfl⟩
  obtain ⟨front, last⟩ := Yaml.fieldLines_concat 2
    (show Yaml.isSimpleKey "cache_key" = true by decide) others
  refine ⟨' ' :: front, fun key => ?_⟩
  rw [shape, Yaml.afterMark_object, last]
  rfl

/-- The document ends with the cache key of the last step, and what stands in front of it is the same
for all keys. -/
theorem document_push (p : Pipeline) (step : Step) :
    ∃ front, ∀ key : Option String,
      documentChars (p.push { step with cacheKey := key }).toJson =
        front ++ afterKey 2 (Json.ofText? key) := by
  obtain ⟨fields, steps_last⟩ := document_steps p
  obtain ⟨items, step_last⟩ := Yaml.itemLines_concat 0 (p.steps.map Step.toJson)
  obtain ⟨notes, key_last⟩ := step_cacheKey step
  refine ⟨fields ++ '\n' :: (items ++ notes), fun key => ?_⟩
  have whole := steps_last (p.push { step with cacheKey := key }).steps
  rw [push, List.map_append, List.map_singleton, Yaml.afterKey_array, step_last, key_last] at whole
  refine whole.trans ?_
  simp only [Yaml.blanks, List.replicate_zero, List.nil_append, List.append_assoc, List.cons_append]

theorem endsBlank_push (p : Pipeline) (step : Step) :
    (p.push step).endsBlank = step.cacheKey.any Yaml.endsBlank := by
  rw [endsBlank, push, List.getLast?_concat]
  rfl

/-- How a document ends. -/
theorem endsLine_document (p : Pipeline) :
    EndsLine (documentChars p.toJson) ↔ p.endsBlank = false := by
  rcases List.eq_nil_or_concat' p.steps with none | ⟨steps, step, last⟩
  · obtain ⟨fields, steps_last⟩ := document_steps p
    have whole : documentChars p.toJson = fields ++ " []\n".toList := by
      have same : p = { p with steps := [] } := by rw [← none]
      rw [same]
      exact steps_last []
    have ends := (Yaml.endsLine_append_feed fields (List.cons_ne_nil ' ' "[]".toList)).mpr (by decide)
    rw [List.append_assoc] at ends
    rw [whole, endsBlank, none]
    exact iff_of_true ends rfl
  · obtain ⟨front, whole⟩ := document_push { p with steps } step
    have same : p = push { p with steps } { step with cacheKey := step.cacheKey } := by
      rw [push, ← last]
    rw [same, whole, endsBlank_push]
    exact Yaml.endsLine_ofText front 2 step.cacheKey

/-- **What a file holds of a document.** It is the document but for the last line end, unless the
document ends in blanks of its own. -/
theorem fileText_yaml_iff (p : Pipeline) :
    p.fileText .yaml ++ "\n" = p.toYamlText ↔ p.endsBlank = false := by
  have document : p.toYamlText.toList = documentChars p.toJson := String.toList_ofList
  have printed : (p.fileText .yaml ++ "\n").toList =
      Text.trimEnd (documentChars p.toJson) ++ ['\n'] := by
    rw [String.toList_append, fileText, String.toList_ofList, write, document]
    rfl
  rw [← endsLine_document, ← Text.trimEnd_append_lineEnd, ← String.toList_inj, printed, document]

/-- A pipeline comes back from what a file holds of its YAML document. -/
theorem ofYamlText_fileText {p : Pipeline} (distinct : p.KeysDistinct)
    (shallow : p.toJson.depth ≤ Yaml.maxDepth) (kept : p.endsBlank = false) :
    ofYamlText (p.fileText .yaml ++ "\n") = .ok p := by
  rw [(fileText_yaml_iff p).mpr kept, ofYamlText_toYamlText p distinct shallow]

/-- **Blanks at the end are lost.** Two cache keys that stand without quotes, and of which one is the
other with blanks behind it, make the same file. -/
theorem fileText_push_blanks (p : Pipeline) (step : Step) {s t : String}
    (plain : Yaml.styleOf s = .plain) (padded : Yaml.styleOf (s ++ t) = .plain)
    (blank : t.toList.all Text.isBlank = true) :
    (p.push { step with cacheKey := some (s ++ t) }).fileText .yaml =
      (p.push { step with cacheKey := some s }).fileText .yaml := by
  obtain ⟨front, whole⟩ := document_push p step
  have cut (key : String) (plain : Yaml.styleOf key = .plain) :
      Text.trimEnd (documentChars (p.push { step with cacheKey := some key }).toJson) =
        Text.trimEnd (front ++ ' ' :: key.toList) := by
    have line : front ++ afterKey 2 (.string key) = front ++ ' ' :: key.toList ++ ['\n'] := by
      rw [Yaml.afterKey_plain 2 plain, List.append_assoc]
      rfl
    rw [whole, Json.ofText?, line, Text.trimEnd_concat rfl]
  have more : front ++ ' ' :: (s ++ t).toList = front ++ ' ' :: s.toList ++ t.toList := by
    rw [String.toList_append, List.append_assoc]
    rfl
  simp only [fileText, write, toYamlText, Yaml.print, String.toList_ofList, cut _ plain,
    cut _ padded, more, Text.trimEnd_append blank]

end Pipework.Pipeline
