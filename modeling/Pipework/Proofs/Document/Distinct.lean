import Pipework.Document.Form
import Pipework.Proofs.Json.Distinct
import Pipework.Proofs.Script.RoundTrip
import Pipework.Proofs.Yaml.Distinct

/-!
# Keys of pipelines that were read

A pipeline that was read from a file has no variable, no parameter of a step and no key of an object
twice, in whatever form it was written. Scripts with repeated keys are refused; in documents the last
value stands. So what is shown of pipelines with distinct keys holds of every pipeline there is.
-/

namespace Pipework

/-! ## Drafts -/

/-- No key of the parameters occurs twice. -/
abbrev Atom.KeysDistinct (atom : Atom) : Prop := Fields.KeysDistinct atom.params

/-- What has been read of an atom has distinct keys. -/
def AtomDraft.KeysDistinct (d : AtomDraft) : Prop :=
  ∀ params ∈ d.params, Fields.KeysDistinct params

/-- What has been read of a step has distinct keys. -/
def StepDraft.KeysDistinct (d : StepDraft) : Prop :=
  ∀ atom ∈ d.atom, atom.KeysDistinct

/-- What has been read of a pipeline has distinct keys. -/
structure PipelineDraft.KeysDistinct (d : PipelineDraft) : Prop where
  vars : ∀ vars ∈ d.vars, Fields.KeysDistinct vars
  steps : ∀ steps ∈ d.steps, ∀ step ∈ steps, step.atom.KeysDistinct

/-- Nothing has been read yet, and so no key twice. -/
theorem AtomDraft.keysDistinct_blank : AtomDraft.KeysDistinct {} := by
  rintro _ ⟨⟩

/-- A step of which nothing has been read has no atom yet. -/
theorem StepDraft.keysDistinct_blank : StepDraft.KeysDistinct {} := by
  rintro _ ⟨⟩

/-- A pipeline of which nothing has been read has neither variables nor steps yet. -/
theorem PipelineDraft.keysDistinct_blank : PipelineDraft.KeysDistinct {} := by
  constructor <;> rintro _ ⟨⟩

/-- An atom has the parameters of its draft, or none. -/
theorem Atom.keysDistinct_of_finish {d : AtomDraft} {atom : Atom} (distinct : d.KeysDistinct)
    (finished : d.finish = .ok atom) : atom.KeysDistinct := by
  obtain ⟨type, action, params⟩ := d
  unfold AtomDraft.finish at finished
  split at finished <;> cases finished
  cases params with
  | none => exact Fields.keysDistinct_nil
  | some params => exact distinct params rfl

/-- A step has the atom of its draft. -/
theorem Step.keysDistinct_of_finish {d : StepDraft} {step : Step} (distinct : d.KeysDistinct)
    (finished : d.finish = .ok step) : step.atom.KeysDistinct := by
  unfold StepDraft.finish at finished
  split at finished <;> cases finished
  next known => exact distinct _ known

/-- A pipeline has the variables and the steps of its draft, or none. -/
theorem Pipeline.keysDistinct_finish {d : PipelineDraft} (distinct : d.KeysDistinct) :
    d.finish.KeysDistinct := by
  obtain ⟨name, version, description, domain, vars, steps⟩ := d
  constructor
  · cases vars with
    | none => exact Fields.keysDistinct_nil
    | some vars => exact distinct.vars vars rfl
  · cases steps with
    | none => exact List.forall_mem_nil _
    | some steps => exact distinct.steps steps rfl

/-! ## JSON documents -/

namespace Json

/-- What a finished draft has, a record that is read has. -/
theorem yields_finished {σ α : Type} {read : Reader σ} {finish : σ → Except String α}
    {draft : σ → Prop} {good : α → Prop} (drafts : Yields read draft)
    (kept : ∀ {d a}, draft d → finish d = .ok a → good a) :
    Yields (fun cs => do let (d, cs) ← read cs; finished (finish d) cs) good := by
  intro cs a rest found
  obtain ⟨⟨d, _⟩, here, found⟩ := Outcome.bind_eq_ok.mp found
  dsimp only [finished] at found
  split at found
  next known =>
    obtain ⟨rfl, -⟩ := Prod.mk.inj (Except.ok.inj found)
    exact kept (drafts here) known
  next => exact absurd found before_ne_ok

/-- Of the fields of an atom only the parameters have keys, and they are read as a map. -/
theorem yields_atom (depth : Nat) : Yields (readAtom depth) Atom.KeysDistinct := by
  refine yields_finished (yields_record AtomDraft.keysDistinct_blank ?_ depth)
    Atom.keysDistinct_of_finish
  simp only [AtomDraft.members, List.forall_mem_cons]
  refine ⟨Member.keeps_set _ _ fun _ _ kept => kept, Member.keeps_set _ _ fun _ _ kept => kept, ?_,
    List.forall_mem_nil _⟩
  refine Member.keeps_of _ _ yields_map fun _ params _ distinct => ?_
  rintro _ ⟨⟩
  exact distinct

/-- Of the fields of a step only the atom has keys. -/
theorem yields_step (depth : Nat) : Yields (readStep depth) fun step => step.atom.KeysDistinct := by
  refine yields_finished (yields_record StepDraft.keysDistinct_blank ?_ depth)
    Step.keysDistinct_of_finish
  simp only [StepDraft.members, List.forall_mem_cons]
  refine ⟨Member.keeps_of _ _ yields_atom fun _ atom _ distinct => ?_,
    Member.keeps_set _ _ fun _ _ kept => kept, Member.keeps_set _ _ fun _ _ kept => kept,
    Member.keeps_set _ _ fun _ _ kept => kept, Member.keeps_set _ _ fun _ _ kept => kept,
    List.forall_mem_nil _⟩
  rintro _ ⟨⟩
  exact distinct

/-- Of the fields of a pipeline the variables and the steps have keys; the others leave what was
read of these. -/
theorem yields_pipeline (depth : Nat) : Yields (readPipeline depth) Pipeline.KeysDistinct := by
  have drafts : Yields (readRecord "struct PipelineDefinition" PipelineDraft.members {} depth)
      PipelineDraft.KeysDistinct := by
    refine yields_record PipelineDraft.keysDistinct_blank ?_ depth
    have other {d d' : PipelineDraft} (kept : d.KeysDistinct) (vars : d'.vars = d.vars)
        (steps : d'.steps = d.steps) : d'.KeysDistinct := ⟨vars ▸ kept.vars, steps ▸ kept.steps⟩
    simp only [PipelineDraft.members, List.forall_mem_cons]
    refine ⟨Member.keeps_set _ _ fun _ _ kept => other kept rfl rfl,
      Member.keeps_set _ _ fun _ _ kept => other kept rfl rfl,
      Member.keeps_set _ _ fun _ _ kept => other kept rfl rfl,
      Member.keeps_set _ _ fun _ _ kept => other kept rfl rfl,
      Member.keeps_of _ _ yields_map fun _ _ kept distinct => ⟨?_, kept.steps⟩,
      Member.keeps_of _ _ (yields_sequence yields_step) fun _ _ kept distinct => ⟨kept.vars, ?_⟩,
      List.forall_mem_nil _⟩
    all_goals
      rintro _ ⟨⟩
      exact distinct
  intro cs p rest found
  obtain ⟨⟨d, _⟩, here, found⟩ := Outcome.bind_eq_ok.mp found
  obtain ⟨rfl, -⟩ := Prod.mk.inj (Except.ok.inj found)
  exact Pipeline.keysDistinct_finish (drafts here)

end Json

/-! ## YAML documents -/

namespace Yaml

/-- What a finished draft has, a record that is read has. -/
theorem yields_completed {σ α : Type} {read : Decode σ} {finish : σ → Except String α}
    {draft : σ → Prop} {good : α → Prop} (drafts : Yields read draft)
    (kept : ∀ {d a}, draft d → finish d = .ok a → good a) :
    Yields (do completed (finish (← read))) good := by
  refine yields_bind drafts fun d here => ?_
  unfold completed
  split
  next known => exact yields_pure (kept here known)
  next => exact yields_throw

/-- Of the fields of an atom only the parameters have keys, and they are read as a map. -/
theorem yields_atom (depth : Nat) (node : Node Nat) :
    Yields (decodeAtom depth node) Atom.KeysDistinct := by
  refine yields_completed (yields_record AtomDraft.keysDistinct_blank ?_ depth node)
    Atom.keysDistinct_of_finish
  simp only [AtomDraft.entries, List.forall_mem_cons]
  refine ⟨Member.keeps_set _ fun _ _ kept => kept, Member.keeps_set _ fun _ _ kept => kept, ?_,
    List.forall_mem_nil _⟩
  refine Member.keeps_of _ yields_map fun _ params _ distinct => ?_
  rintro _ ⟨⟩
  exact distinct

/-- Of the fields of a step only the atom has keys. -/
theorem yields_step (depth : Nat) (node : Node Nat) :
    Yields (decodeStep depth node) fun step => step.atom.KeysDistinct := by
  refine yields_completed (yields_record StepDraft.keysDistinct_blank ?_ depth node)
    Step.keysDistinct_of_finish
  simp only [StepDraft.entries, List.forall_mem_cons]
  refine ⟨Member.keeps_of _ yields_atom fun _ atom _ distinct => ?_,
    Member.keeps_set _ fun _ _ kept => kept, Member.keeps_set _ fun _ _ kept => kept,
    Member.keeps_set _ fun _ _ kept => kept, Member.keeps_set _ fun _ _ kept => kept,
    List.forall_mem_nil _⟩
  rintro _ ⟨⟩
  exact distinct

/-- Of the fields of a pipeline the variables and the steps have keys; the others leave what was
read of these. -/
theorem yields_pipeline (depth : Nat) (node : Node Nat) :
    Yields (decodePipeline depth node) Pipeline.KeysDistinct := by
  have drafts : Yields (readRecord PipelineDraft.entries {} depth node)
      PipelineDraft.KeysDistinct := by
    refine yields_record PipelineDraft.keysDistinct_blank ?_ depth node
    have other {d d' : PipelineDraft} (kept : d.KeysDistinct) (vars : d'.vars = d.vars)
        (steps : d'.steps = d.steps) : d'.KeysDistinct := ⟨vars ▸ kept.vars, steps ▸ kept.steps⟩
    simp only [PipelineDraft.entries, List.forall_mem_cons]
    refine ⟨Member.keeps_set _ fun _ _ kept => other kept rfl rfl,
      Member.keeps_set _ fun _ _ kept => other kept rfl rfl,
      Member.keeps_set _ fun _ _ kept => other kept rfl rfl,
      Member.keeps_set _ fun _ _ kept => other kept rfl rfl,
      Member.keeps_of _ yields_map fun _ _ kept distinct => ⟨?_, kept.steps⟩,
      Member.keeps_of _ (yields_items yields_step) fun _ _ kept distinct => ⟨kept.vars, ?_⟩,
      List.forall_mem_nil _⟩
    all_goals
      rintro _ ⟨⟩
      exact distinct
  exact yields_bind drafts fun d here => yields_pure (Pipeline.keysDistinct_finish here)

end Yaml

/-! ## Files -/

namespace Pipeline

/-- What is loaded from JSON has distinct keys. -/
theorem keysDistinct_of_ofJsonText {text : String} {p : Pipeline} (read : ofJsonText text = .ok p) :
    p.KeysDistinct := by
  unfold ofJsonText at read
  split at read <;> cases read
  next found =>
    obtain ⟨⟨_, _⟩, here, found⟩ := Outcome.bind_eq_ok.mp found
    dsimp only at found
    split at found <;> cases found
    exact Json.yields_pipeline _ here

/-- What is loaded from YAML has distinct keys. -/
theorem keysDistinct_of_ofYamlText {text : String} {p : Pipeline} (read : ofYamlText text = .ok p) :
    p.KeysDistinct := by
  unfold ofYamlText at read
  split at read <;> cases read
  next found =>
    obtain ⟨document, -, found⟩ := Outcome.bind_eq_ok.mp found
    obtain ⟨⟨_, _⟩, here, found⟩ := Outcome.bind_eq_ok.mp found
    cases found
    exact Yaml.yields_pipeline _ _ here

/-- **Keys are distinct.** A pipeline that was read from a file has no key twice, whatever its form. -/
theorem keysDistinct_of_read {form : Form} {unknown : Script.UnknownTypes} {text : String}
    {p : Pipeline} (read : (Pipeline.read form unknown text).result = .ok p) : p.KeysDistinct := by
  cases form with
  | script => exact (Script.expressible_of_parse read).1
  | json => exact keysDistinct_of_ofJsonText read
  | yaml => exact keysDistinct_of_ofYamlText read

end Pipeline

end Pipework
