import Pipework.Proofs.Document.Json
import Pipework.Proofs.Json.Depth
import Pipework.Proofs.Script.RoundTrip

/-!
# Pipelines that are lost in their documents

Scripts nest as deep as they like, and writing a document puts no bound on it either. Reading does:
a document that nests deeper than `Json.maxDepth` is refused, and for that reason. And while a script
is read with one rounding for each double, a document is not, so that a double may come back as one of
its neighbours. So what a script says comes back from its document exactly when it nests within that
bound and every double in it is read back as itself.
-/

namespace Pipework

namespace Json

open Text (StopsAt)

/-! ## Parts of records -/

/-- What is not read is not read as the first part of something more. -/
theorem Exceeds.bind {α β : Type} {read : Reader α} {text : List Char} (exceeds : Exceeds read text)
    (more : α × List Char → Except Stop (β × List Char)) :
    Exceeds (fun cs => read cs >>= more) text where
  begins := exceeds.begins
  exceeds blanks all rest stop := by
    obtain ⟨left, failed⟩ := exceeds.exceeds blanks all rest stop
    exact ⟨left, Outcome.bind_eq_error.mpr (.inl failed)⟩

/-- An object of values that nests too deep. -/
theorem exceeds_map {level depth : Nat} {fields : Fields} (distinct : fields.KeysDistinct)
    (deep : depth < depthFields fields + 1) :
    Exceeds (readMap depth) (prettyChars level (.object fields)) := by
  rw [prettyChars_object]
  refine ⟨⟨'{', _, rfl, rfl, by decide⟩, fun blanks all rest _ => ?_⟩
  rw [List.cons_append, readMap, skipBlanks_blanks (c := '{') all rfl]
  cases depth with
  | zero => exact ⟨_, rfl⟩
  | succ depth =>
    exact readMembers_fields_exceeds distinct (exceeds_fields fields (level + 1) depth distinct.2)
      (Nat.lt_of_succ_lt_succ deep) rest

section

variable {α β : Type} {read : (depth : Nat) → Reader β} {json : α → Json} {level depth : Nat}

/-- A list where none may be opened. -/
theorem exceeds_sequence_zero (as : List α) :
    Exceeds (readSequence read 0) (prettyChars level (.array (as.map json))) := by
  rw [prettyChars_array]
  refine ⟨⟨'[', _, rfl, rfl, by decide⟩, fun blanks all rest _ => ?_⟩
  rw [List.cons_append, readSequence, skipBlanks_blanks (c := '[') all rfl]
  exact ⟨_, rfl⟩

/-- A list of things of one kind, with a first one that is too deep. -/
theorem exceeds_sequence (back : α → β) {front after : List α} {a : α}
    (each : ∀ b ∈ front, Reads (read depth) (prettyChars (level + 1) (json b)) (back b))
    (exceeds : Exceeds (read depth) (prettyChars (level + 1) (json a))) :
    Exceeds (readSequence read (depth + 1))
      (prettyChars level (.array ((front ++ a :: after).map json))) := by
  rw [prettyChars_array]
  refine ⟨⟨'[', _, rfl, rfl, by decide⟩, fun blanks all rest _ => ?_⟩
  rw [List.cons_append, readSequence, skipBlanks_blanks (c := '[') all rfl]
  exact readItems_listBody_exceeds back rest each exceeds

end

section

variable {σ α : Type} {members : List (Member σ)} {depth level : Nat}

/-- A record where no object may be opened. -/
theorem exceeds_record_zero {title : String} {blank : σ} (fields : List (String × Json)) :
    Exceeds (readRecord title members blank 0) (prettyChars level (.object fields)) := by
  rw [prettyChars_object]
  refine ⟨⟨'{', _, rfl, rfl, by decide⟩, fun blanks all rest _ => ?_⟩
  rw [List.cons_append, readRecord, skipBlanks_blanks (c := '{') all rfl]
  exact ⟨_, rfl⟩

/-- A member that a draft has not got yet is too deep when what is printed for it is. -/
theorem fieldExceeds_member {draft : σ} {key : String} {required : Bool} {get : σ → Option α}
    {set : σ → α → σ} {read : (depth : Nat) → Reader α} {v : Json}
    (found : members.find? (·.name == key) = some (.of key required get set read))
    (absent : get draft = none) (exceeds : Exceeds (read depth) (prettyChars level v)) :
    FieldExceeds (readMember members depth) level draft key v := by
  intro rest stop
  have missing : (Member.of key required get set read).present draft = false := by
    show (get draft).isSome = false
    rw [absent]
    rfl
  obtain ⟨left, failed⟩ := exceeds.behind_colon stop
  refine ⟨left, ?_⟩
  rw [readMember, found]
  simp only [missing, Bool.false_eq_true, ↓reduceIte]
  rcases Outcome.bind_eq_error.mp failed with colon | ⟨cs, colon, failed⟩
  · exact Outcome.bind_eq_error.mpr (.inl colon)
  · exact Outcome.bind_eq_error.mpr (.inr ⟨cs, colon, Outcome.bind_eq_error.mpr (.inl failed)⟩)

/-- A record is not read when one of its fields is too deep. -/
theorem exceeds_record {title key : String} {blank last : σ} {v : Json}
    {front after : List (String × Json)}
    (takes : Takes (readMember members depth) (level + 1) blank front last)
    (exceeds : FieldExceeds (readMember members depth) (level + 1) last key v) :
    Exceeds (readRecord title members blank (depth + 1))
      (prettyChars level (.object (front ++ (key, v) :: after))) := by
  rw [prettyChars_object]
  refine ⟨⟨'{', _, rfl, rfl, by decide⟩, fun blanks all rest _ => ?_⟩
  obtain ⟨left, failed⟩ := readMembers_objectBody_exceeds rest takes exceeds
  rw [List.cons_append, readRecord, skipBlanks_blanks (c := '{') all rfl]
  exact ⟨left, Outcome.bind_eq_error.mpr (.inl failed)⟩

end

end Json

open Json (Exceeds)

/-! ## Pipelines -/

/-- A printed atom that nests too deep. -/
theorem exceeds_atom (atom : Atom) {depth : Nat} (level : Nat)
    (distinct : Fields.KeysDistinct atom.params) (deep : depth < atom.toJson.depth) :
    Exceeds (readAtom depth) (Json.prettyChars level atom.toJson) := by
  rw [Atom.depth_toJson] at deep
  cases depth with
  | zero => exact (Json.exceeds_record_zero _).bind _
  | succ depth =>
    have params : Exceeds (Json.readMap depth) (Json.prettyChars (level + 1) (.object atom.params)) :=
      Json.exceeds_map distinct (Nat.lt_of_succ_lt_succ deep)
    have taken : Json.Takes (Json.readMember AtomDraft.members depth) (level + 1) {}
        [("type", .string atom.type.name), ("action", .string atom.action)]
        ⟨some atom.type, some atom.action, none⟩ := by
      refine .member rfl rfl (Json.reads_variant (AtomType.ofName?_name _) _) ?_
      refine .member rfl rfl (Json.reads_text _) ?_
      exact .done _
    exact (Json.exceeds_record taken (Json.fieldExceeds_member rfl rfl params)).bind _

/-- A printed step that nests too deep. -/
theorem exceeds_step (step : Step) {depth : Nat} (level : Nat)
    (distinct : Fields.KeysDistinct step.atom.params) (deep : depth < step.toJson.depth) :
    Exceeds (readStep depth) (Json.prettyChars level step.toJson) := by
  rw [Step.depth_toJson] at deep
  cases depth with
  | zero => exact (Json.exceeds_record_zero _).bind _
  | succ depth =>
    have atom := exceeds_atom step.atom (level + 1) distinct (Nat.lt_of_succ_lt_succ deep)
    exact (Json.exceeds_record (.done _) (Json.fieldExceeds_member rfl rfl atom)).bind _

/-- Printed steps of which one nests too deep. -/
theorem exceeds_steps {steps : List Step} {depth : Nat} (level : Nat)
    (distinct : ∀ step ∈ steps, Fields.KeysDistinct step.atom.params)
    (deep : depth < Json.depthItems (steps.map Step.toJson) + 1) :
    Exceeds (Json.readSequence readStep depth)
      (Json.prettyChars level (.array (steps.map Step.toJson))) := by
  cases depth with
  | zero => exact Json.exceeds_sequence_zero steps
  | succ depth =>
    obtain ⟨v, printed, deeper⟩ := Json.exists_deeper_item (Nat.lt_of_succ_lt_succ deep)
    obtain ⟨step, mem, rfl⟩ := List.mem_map.mp printed
    -- The steps in front of the first that is too deep are read.
    obtain ⟨front, first, after, rfl, shallow, deeper⟩ :=
      Json.exists_first (p := fun step : Step => depth < step.toJson.depth) ⟨step, mem, deeper⟩
    refine Json.exceeds_sequence Step.reread (fun b known => ?_) ?_
    · exact reads_step b _ (distinct b (List.mem_append_left _ known))
        (Nat.le_of_not_lt (shallow b known))
    · exact exceeds_step first _ (distinct first (List.mem_append_right _ List.mem_cons_self))
        deeper

/-- What stands in front of the variables of a pipeline is read. -/
theorem takes_heading (p : Pipeline) (level depth : Nat) :
    Json.Takes (Json.readMember PipelineDraft.members depth) level {}
      [("name", .string p.name), ("version", .string p.version),
        ("description", .string p.description), ("domain", Json.ofText? p.domain)]
      ⟨some p.name, some p.version, some p.description, some p.domain, none, none⟩ := by
  refine .member rfl rfl (Json.reads_text _) ?_
  refine .member rfl rfl (Json.reads_text _) ?_
  refine .member rfl rfl (Json.reads_text _) ?_
  refine .member rfl rfl (Json.reads_ofText _ _) ?_
  exact .done _

/-- A printed pipeline that nests too deep is not read. -/
theorem exceeds_pipeline (p : Pipeline) {depth : Nat} (level : Nat) (distinct : p.KeysDistinct)
    (deep : depth < p.toJson.depth) :
    Exceeds (readPipeline depth) (Json.prettyChars level p.toJson) := by
  rw [Pipeline.depth_toJson] at deep
  cases depth with
  | zero => exact (Json.exceeds_record_zero _).bind _
  | succ depth =>
    have heading := takes_heading p (level + 1) depth
    by_cases shallow : Json.depthFields p.vars + 1 ≤ depth
    · -- The variables are read, so it is a step that is too deep.
      obtain ⟨depth, rfl⟩ := Nat.exists_eq_add_one_of_ne_zero (Nat.ne_zero_of_lt shallow)
      have vars : Json.Reads (Json.readMap (depth + 1))
          (Json.prettyChars (level + 1) (.object p.vars)) (Json.rereadFields p.vars) :=
        Json.reads_map distinct.1 (Nat.le_of_succ_le_succ shallow)
      have deeper : depth + 1 < Json.depthItems (p.steps.map Step.toJson) + 1 := by omega
      have steps := exceeds_steps (level + 1) distinct.2 deeper
      have taken : Json.Takes (Json.readMember PipelineDraft.members (depth + 1)) (level + 1)
          ⟨some p.name, some p.version, some p.description, some p.domain, none, none⟩
          [("variables", .object p.vars)]
          ⟨some p.name, some p.version, some p.description, some p.domain,
            some (Json.rereadFields p.vars), none⟩ :=
        .member rfl rfl vars (.done _)
      have taken := heading.append taken
      exact (Json.exceeds_record taken (Json.fieldExceeds_member rfl rfl steps)).bind _
    · have vars : Exceeds (Json.readMap depth) (Json.prettyChars (level + 1) (.object p.vars)) :=
        Json.exceeds_map distinct.1 (Nat.lt_of_not_le shallow)
      exact (Json.exceeds_record heading (Json.fieldExceeds_member rfl rfl vars)).bind _

/-- The document of a pipeline that nests too deep is refused as too deep. -/
theorem Pipeline.ofJsonText_toJsonText_of_deep {p : Pipeline} (distinct : p.KeysDistinct)
    (deep : Json.maxDepth < p.toJson.depth) :
    ∃ left, ofJsonText p.toJsonText =
      .error (.serialization (Json.Stop.message ⟨.tooDeep, left⟩ p.toJsonText.toList)) := by
  obtain ⟨left, failed⟩ :=
    (exceeds_pipeline p 0 distinct deep).exceeds [] (fun _ mem => nomatch mem) [] Text.stopsAt_nil
  rw [List.nil_append, List.append_nil] at failed
  refine ⟨left, ?_⟩
  have stops : Json.readWhole (readPipeline Json.maxDepth) p.toJsonText.toList =
      .error ⟨.tooDeep, left⟩ := by
    rw [toJsonText, Json.pretty, String.toList_ofList]
    exact Outcome.bind_eq_error.mpr (.inl failed)
  rw [ofJsonText, stops]

namespace Script

/-- **What a script says comes back from its document as long as it does not nest too deep and every
double in it is read back as itself.** Of all that is read from scripts, exactly this comes back as
something equal. Anything else that nests within `Json.maxDepth` is read as it was but for the doubles
that are not read back as themselves, and anything that nests deeper is refused, because it is too
deep. -/
theorem comes_back_from_document_iff {unknown : UnknownTypes} {text : String} {p : Pipeline}
    (parsed : parse unknown text = .ok p) :
    ((∃ q, Pipeline.ofJsonText p.toJsonText = .ok q ∧ q.equal p = true) ↔
      p.toJson.depth ≤ Json.maxDepth ∧ p.DoublesKept) ∧
    (p.toJson.depth ≤ Json.maxDepth → Pipeline.ofJsonText p.toJsonText = .ok p.reread) ∧
    (Json.maxDepth < p.toJson.depth → ∃ left, Pipeline.ofJsonText p.toJsonText =
      .error (.serialization (Json.Stop.message ⟨.tooDeep, left⟩ p.toJsonText.toList))) := by
  obtain ⟨distinct, -, -⟩ := expressible_of_parse parsed
  have refused := Pipeline.ofJsonText_toJsonText_of_deep distinct
  have reread (shallow : p.toJson.depth ≤ Json.maxDepth) :
      Pipeline.ofJsonText p.toJsonText = .ok p.reread := by
    rw [Pipeline.ofJsonText, Pipeline.readWhole_toJsonText distinct shallow]
  refine ⟨⟨?_, ?_⟩, reread, refused⟩
  · rintro ⟨q, read, same⟩
    rcases Nat.lt_or_ge Json.maxDepth p.toJson.depth with deep | shallow
    · obtain ⟨left, error⟩ := refused deep
      rw [read] at error
      cases error
    · rw [reread shallow] at read
      cases read
      exact ⟨shallow, (Pipeline.reread_equal_iff distinct).mp same⟩
  · rintro ⟨shallow, kept⟩
    exact ⟨_, reread shallow, (Pipeline.reread_equal_iff distinct).mpr kept⟩

/-- A list in a list, and so on. -/
def nest : Nat → Json
  | 0 => .array []
  | n + 1 => .array [nest n]

theorem all_nest {p : Json → Prop} (lists : ∀ items, p (.array items)) (n : Nat) :
    (nest n).All p := by
  induction n with
  | zero => exact ⟨lists _, trivial⟩
  | succ n ih => exact ⟨lists _, ih, trivial⟩

theorem depth_nest (n : Nat) : (nest n).depth = n + 1 := by
  induction n with
  | zero => rfl
  | succ n ih => rw [nest, Json.depth, Json.depthItems, Json.depthItems, ih, Nat.max_zero]

/-- A pipeline with nested lists in a variable. -/
def nested (n : Nat) : Pipeline where
  name := "p"
  vars := [("v", nest n)]

theorem depth_nested (n : Nat) : (nested n).toJson.depth = n + 3 := by
  rw [Pipeline.depth_toJson, nested, Json.depthFields, depth_nest, List.map_nil, Json.depthItems,
    Json.depthFields]
  omega

theorem keysDistinct_nested (n : Nat) : (nested n).KeysDistinct := by
  have lists : (nest n).KeysDistinct := all_nest (fun _ => trivial) n
  have distinct : Fields.Distinct [("v", nest n)] := List.nodup_cons.mpr ⟨nofun, .nil⟩
  exact ⟨⟨distinct, lists, trivial⟩, List.forall_mem_nil _⟩

/-- Scripts nest as deep as they like. -/
theorem parse_nested (n : Nat) : parse .reject (nested n).toScript = .ok (nested n) := by
  have bare : isBareWord "v" = true := by decide
  have lists : (nest n).NumbersFit := all_nest (fun _ => trivial) n
  have expressible : (nested n).Expressible :=
    ⟨⟨List.forall_mem_singleton.mpr bare, lists, trivial⟩, List.forall_mem_nil _⟩
  exact parse_toScript .reject (keysDistinct_nested n) expressible

theorem doublesKept_nested (n : Nat) : (nested n).DoublesKept := by
  have lists : (nest n).DoublesKept := all_nest (fun _ => trivial) n
  exact ⟨⟨lists, trivial⟩, List.forall_mem_nil _⟩

/-- A hundred and twenty-five lists come back. -/
theorem nested_comes_back : parse .reject (nested 124).toScript = .ok (nested 124) ∧
    ∃ q, Pipeline.ofJsonText (nested 124).toJsonText = .ok q ∧ q.equal (nested 124) = true := by
  have parsed := parse_nested 124
  refine ⟨parsed, (comes_back_from_document_iff parsed).1.mpr ⟨?_, doublesKept_nested 124⟩⟩
  rw [depth_nested]
  decide

/-- A pipeline with the double nearest to an eleventh in a variable. -/
def eleventh : Pipeline where
  name := "p"
  vars := [("v", .number (.double ⟨false, 6550690367084358, 1018, by decide⟩))]

/-- One list more is read from its script, and refused from its document. The double nearest to an
eleventh is read from its script, `0.09090909090909091`, and comes back from its document as another. -/
theorem lost_in_documents :
    (parse .reject (nested 125).toScript = .ok (nested 125) ∧
      ∃ error, Pipeline.ofJsonText (nested 125).toJsonText = .error error) ∧
    (parse .reject eleventh.toScript = .ok eleventh ∧
      ∃ q, Pipeline.ofJsonText eleventh.toJsonText = .ok q ∧ q.equal eleventh = false) := by
  have deep : Json.maxDepth < (nested 125).toJson.depth := by
    rw [depth_nested]
    decide
  obtain ⟨left, error⟩ := Pipeline.ofJsonText_toJsonText_of_deep (keysDistinct_nested 125) deep
  have distinct : eleventh.KeysDistinct := by decide
  have shallow : eleventh.toJson.depth ≤ Json.maxDepth := by decide
  have changed : ¬ eleventh.DoublesKept := by decide +kernel
  refine ⟨⟨parse_nested 125, _, error⟩, parse_toScript .reject distinct (by decide),
    eleventh.reread, ?_, ?_⟩
  · rw [Pipeline.ofJsonText, Pipeline.readWhole_toJsonText distinct shallow]
  · exact Bool.eq_false_iff.mpr (mt (Pipeline.reread_equal_iff distinct).mp changed)

end Script

end Pipework
