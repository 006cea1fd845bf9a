import Pipework.Document.Json
import Pipework.Proofs.Json.Printed

/-!
# Pipelines come back from JSON

The JSON document of a pipeline is read field by field: every field is written out, so that each member
of a record is set once, by what was printed for it. So it is read as that pipeline with its doubles
reread (`Pipeline.reread`), and as the pipeline itself where each of them is read back as itself.
-/

namespace Pipework

namespace Json

open Text (StopsAt)

/-! ## Parts of records -/

/-- A name is read as what it names. -/
theorem reads_variant {α : Type} {names : List String} {ofName? : String → Option α} {name : String}
    {a : α} (known : ofName? name = some a) (depth : Nat) :
    Reads (readVariant names ofName? depth) (quoted name) a where
  begins := ⟨'"', _, rfl, rfl, by decide⟩
  reads blanks all rest _ := by
    rw [quoted_append, readVariant, skipBlanks_blanks (c := '"') all rfl]
    refine Outcome.bind_eq_ok.mpr ⟨_, readQuoted_escaped name rest, ?_⟩
    refine Outcome.bind_eq_ok.mpr ⟨a, ?_, rfl⟩
    simp only [known]

/-- An object of values is read as its fields, with their doubles reread. -/
theorem reads_map {depth level : Nat} {fields : Fields} (distinct : fields.KeysDistinct)
    (shallow : depthFields fields ≤ depth) :
    Reads (readMap (depth + 1)) (prettyChars level (.object fields)) (rereadFields fields) := by
  rw [prettyChars_object]
  refine ⟨⟨'{', _, rfl, rfl, by decide⟩, fun blanks all rest _ => ?_⟩
  have each := reads_fields fields (level + 1) depth distinct.2 shallow
  have fields_read := readMembers_objectBody rest (takes_fields each [])
  rw [insertAll_rereadFields distinct.1] at fields_read
  rw [List.cons_append, readMap, skipBlanks_blanks (c := '{') all rfl]
  exact fields_read

/-- A list of things of one kind is read as they are. -/
theorem reads_sequence {α β : Type} {read : (depth : Nat) → Reader β} {json : α → Json}
    {back : α → β} {depth level : Nat} {as : List α}
    (each : ∀ a ∈ as, Reads (read depth) (prettyChars (level + 1) (json a)) (back a)) :
    Reads (readSequence read (depth + 1)) (prettyChars level (.array (as.map json)))
      (as.map back) := by
  rw [prettyChars_array]
  refine ⟨⟨'[', _, rfl, rfl, by decide⟩, fun blanks all rest _ => ?_⟩
  rw [List.cons_append, readSequence, skipBlanks_blanks (c := '[') all rfl]
  exact readItems_listBody json rest each

/-- The text of an optional text is read. -/
theorem reads_ofText (text : Option String) (level : Nat) :
    Reads (readOptional readText) (prettyChars level (ofText? text)) text := by
  cases text with
  | none => exact reads_none
  | some s => exact (reads_text s).optional fun same => nomatch same

/-- The number of an optional word is read. -/
theorem reads_timeout (timeout : Option UInt64) (level : Nat) :
    Reads (readOptional readUnsigned) (prettyChars level (match timeout with
      | some ms => Json.ofNat ms.toNat
      | none => .null)) timeout := by
  cases timeout with
  | none => exact reads_none
  | some ms =>
    refine (reads_word ms).optional ?_
    -- A number does not begin as `null` does.
    obtain ⟨c, cs, text, kind⟩ := exists_begins (Number.ofNat ms.toNat)
    rw [text, List.head?_cons]
    rintro ⟨⟩
    rcases kind with ⟨minus, -⟩ | ⟨digit, -⟩
    · cases minus
    · cases digit

/-! ## Records -/

section

variable {σ α : Type} {members : List (Member σ)} {depth level : Nat}

/-- A member that a draft has not got yet takes what is printed for it. -/
theorem Takes.member {draft last : σ} {key : String} {required : Bool} {get : σ → Option α}
    {set : σ → α → σ} {read : (depth : Nat) → Reader α} {v : Json} {a : α}
    {fields : List (String × Json)}
    (found : members.find? (·.name == key) = some (.of key required get set read))
    (absent : get draft = none) (reads : Reads (read depth) (prettyChars level v) a)
    (more : Takes (readMember members depth) level (set draft a) fields last) :
    Takes (readMember members depth) level draft ((key, v) :: fields) last := by
  refine .field (fun rest stop => ?_) more
  have missing : (Member.of key required get set read).present draft = false := by
    show (get draft).isSome = false
    rw [absent]
    rfl
  obtain ⟨cs, colon, read⟩ := Outcome.bind_eq_ok.mp (reads.behind_colon stop)
  rw [readMember, found]
  simp only [missing, Bool.false_eq_true, ↓reduceIte]
  refine Outcome.bind_eq_ok.mpr ⟨_, colon, ?_⟩
  exact Outcome.bind_eq_ok.mpr ⟨_, read, rfl⟩

/-- A record is read as the draft that its fields make, if that lacks nothing. -/
theorem reads_record {title : String} {blank last : σ} {fields : List (String × Json)}
    (takes : Takes (readMember members depth) (level + 1) blank fields last)
    (complete : members.find? (fun m => m.required && !m.present last) = none) :
    Reads (readRecord title members blank (depth + 1)) (prettyChars level (.object fields)) last := by
  rw [prettyChars_object]
  refine ⟨⟨'{', _, rfl, rfl, by decide⟩, fun blanks all rest _ => ?_⟩
  rw [List.cons_append, readRecord, skipBlanks_blanks (c := '{') all rfl]
  refine Outcome.bind_eq_ok.mpr ⟨_, readMembers_objectBody rest takes, ?_⟩
  simp only [complete]

end

end Json

open Json (Reads)

/-- What is read as a draft is read as what the draft comes to. -/
theorem reads_finished {σ α : Type} {read : Json.Reader σ} {text : List Char} {draft : σ}
    (reads : Reads read text draft) {finish : σ → Except String α} {a : α}
    (finishes : finish draft = .ok a) :
    Reads (fun cs => do
      let (draft, cs) ← read cs
      finished (finish draft) cs) text a where
  begins := reads.begins
  reads blanks all rest stop := by
    refine Outcome.bind_eq_ok.mpr ⟨_, reads.reads blanks all rest stop, ?_⟩
    simp only [finished, finishes]

/-! ## Nesting -/

namespace Json

/-- A list nests no deeper than its items allow. -/
theorem depth_le_of_mem {items : List Json} {v : Json} (mem : v ∈ items) :
    v.depth ≤ depthItems items := by
  induction items with
  | nil => cases mem
  | cons w ws ih =>
    rw [depthItems]
    rcases List.mem_cons.mp mem with rfl | mem
    · exact Nat.le_max_left _ _
    · exact Nat.le_trans (ih mem) (Nat.le_max_right _ _)

theorem depth_ofText? (text : Option String) : (ofText? text).depth = 0 := by
  cases text <;> rfl

end Json

theorem Atom.depth_toJson (atom : Atom) :
    atom.toJson.depth = Json.depthFields atom.params + 2 := by
  simp only [Atom.toJson, Json.depth, Json.depthFields, Nat.zero_max, Nat.max_zero]

theorem Step.depth_toJson (step : Step) : step.toJson.depth = step.atom.toJson.depth + 1 := by
  obtain ⟨atom, condition, onError, timeout, cacheKey⟩ := step
  cases timeout <;>
    simp only [Step.toJson, Json.depth, Json.depthFields, Json.depth_ofText?, Json.ofNat,
      Nat.max_zero]

theorem Pipeline.depth_toJson (p : Pipeline) : p.toJson.depth =
    max (Json.depthFields p.vars + 1) (Json.depthItems (p.steps.map Step.toJson) + 1) + 1 := by
  simp only [Pipeline.toJson, Json.depth, Json.depthFields, Json.depth_ofText?, Nat.zero_max,
    Nat.max_zero]

/-! ## Pipelines -/

/-- A printed atom is read as that atom, with its doubles reread. -/
theorem reads_atom (atom : Atom) {depth : Nat} (level : Nat)
    (distinct : Fields.KeysDistinct atom.params) (shallow : atom.toJson.depth ≤ depth) :
    Reads (readAtom depth) (Json.prettyChars level atom.toJson) atom.reread := by
  rw [Atom.depth_toJson] at shallow
  -- One level for the record, and one for the object of its parameters.
  obtain ⟨depth, rfl⟩ : ∃ inner, depth = inner + 2 := ⟨depth - 2, by omega⟩
  have record : Reads (Json.readRecord "struct Atom" AtomDraft.members {} (depth + 2))
      (Json.prettyChars level atom.toJson)
      ⟨some atom.type, some atom.action, some (Json.rereadFields atom.params)⟩ := by
    refine Json.reads_record ?_ rfl
    refine .member rfl rfl (Json.reads_variant (AtomType.ofName?_name _) _) ?_
    refine .member rfl rfl (Json.reads_text _) ?_
    refine .member rfl rfl (Json.reads_map distinct (by omega)) ?_
    exact .done _
  exact reads_finished record rfl

/-- A printed step is read as that step, with its doubles reread. -/
theorem reads_step (step : Step) {depth : Nat} (level : Nat)
    (distinct : Fields.KeysDistinct step.atom.params) (shallow : step.toJson.depth ≤ depth) :
    Reads (readStep depth) (Json.prettyChars level step.toJson) step.reread := by
  rw [Step.depth_toJson] at shallow
  obtain ⟨depth, rfl⟩ : ∃ inner, depth = inner + 1 := ⟨depth - 1, by omega⟩
  have known : Policy.ofName? step.onError.name = some step.onError := by
    cases step.onError <;> rfl
  have record : Reads (Json.readRecord "struct PipelineStep" StepDraft.members {} (depth + 1))
      (Json.prettyChars level step.toJson)
      ⟨some step.atom.reread, some step.condition, some step.onError, some step.timeout,
        some step.cacheKey⟩ := by
    refine Json.reads_record ?_ rfl
    refine .member rfl rfl (reads_atom step.atom _ distinct (by omega)) ?_
    refine .member rfl rfl (Json.reads_ofText _ _) ?_
    refine .member rfl rfl (Json.reads_variant known _) ?_
    refine .member rfl rfl (Json.reads_timeout _ _) ?_
    refine .member rfl rfl (Json.reads_ofText _ _) ?_
    exact .done _
  exact reads_finished record rfl

/-- A printed pipeline is read as that pipeline, with its doubles reread. -/
theorem reads_pipeline (p : Pipeline) {depth : Nat} (level : Nat) (distinct : p.KeysDistinct)
    (shallow : p.toJson.depth ≤ depth) :
    Reads (readPipeline depth) (Json.prettyChars level p.toJson) p.reread := by
  rw [Pipeline.depth_toJson] at shallow
  obtain ⟨depth, rfl⟩ : ∃ inner, depth = inner + 2 := ⟨depth - 2, by omega⟩
  have steps : ∀ step ∈ p.steps,
      Reads (readStep depth) (Json.prettyChars (level + 2) step.toJson) step.reread := by
    intro step mem
    have := Json.depth_le_of_mem (List.mem_map_of_mem (f := Step.toJson) mem)
    exact reads_step step _ (distinct.2 step mem) (by omega)
  have record : Reads (Json.readRecord "struct PipelineDefinition" PipelineDraft.members {}
      (depth + 2)) (Json.prettyChars level p.toJson)
      ⟨some p.name, some p.version, some p.description, some p.domain,
        some (Json.rereadFields p.vars), some (p.steps.map Step.reread)⟩ := by
    refine Json.reads_record ?_ rfl
    refine .member rfl rfl (Json.reads_text _) ?_
    refine .member rfl rfl (Json.reads_text _) ?_
    refine .member rfl rfl (Json.reads_text _) ?_
    refine .member rfl rfl (Json.reads_ofText _ _) ?_
    refine .member rfl rfl (Json.reads_map distinct.1 (by omega)) ?_
    refine .member rfl rfl (Json.reads_sequence steps) ?_
    exact .done _
  refine ⟨record.begins, fun blanks all rest stop => ?_⟩
  exact Outcome.bind_eq_ok.mpr ⟨_, record.reads blanks all rest stop, rfl⟩

/-- **What is read for a pipeline.** The document of a pipeline whose keys are distinct, and that nests
no deeper than is read, is read as that pipeline with its doubles reread. -/
theorem Pipeline.readWhole_toJsonText {p : Pipeline} (distinct : p.KeysDistinct)
    (shallow : p.toJson.depth ≤ Json.maxDepth) :
    Json.readWhole (readPipeline Json.maxDepth) p.toJsonText.toList = .ok p.reread := by
  rw [toJsonText, Json.pretty, String.toList_ofList]
  exact (reads_pipeline p 0 distinct shallow).whole

/-- **Pipelines come back from JSON.** The document of a pipeline whose keys are distinct, and that
nests no deeper than is read, is read as that pipeline, if each double in it, written and read on its
own, is read back as itself. -/
theorem Pipeline.ofJsonText_toJsonText (p : Pipeline) (distinct : p.KeysDistinct)
    (shallow : p.toJson.depth ≤ Json.maxDepth) (kept : p.DoublesKept) :
    ofJsonText p.toJsonText = .ok p := by
  rw [ofJsonText, readWhole_toJsonText distinct shallow, reread_of_kept kept]

/-- Characters that are escaped, numbers of each kind at their limits, a value that nests, and a step
with all that a step can have. -/
def laden : Pipeline where
  name := "tab\t\"quote\"\nbell\x07 é"
  domain := some ""
  vars := [("zero", .number (.double (.zero true))), ("all", .array [.null, .object [], .array []])]
  steps := [{
    atom := ⟨.data, "load", [
      ("least", .number (.integer (-9223372036854775808) (by decide))),
      ("most", .object [("z", Json.ofNat 18446744073709551615),
        ("a", .number (.double ⟨false, 5, 0, by decide⟩))])]⟩
    condition := some "$all"
    onError := .retry
    timeout := some 18446744073709551615
    cacheKey := some "null" }, { atom := ⟨.report, "show", []⟩ }]

/-- The document of `laden` is read as `laden`. -/
theorem laden_comes_back :
    laden.KeysDistinct ∧ laden.toJson.depth ≤ Json.maxDepth ∧ laden.DoublesKept ∧
      Pipeline.ofJsonText laden.toJsonText = .ok laden := by
  have distinct : laden.KeysDistinct := by decide
  have shallow : laden.toJson.depth ≤ Json.maxDepth := by decide
  have kept : laden.DoublesKept := by decide +kernel
  exact ⟨distinct, shallow, kept, laden.ofJsonText_toJsonText distinct shallow kept⟩

end Pipework
