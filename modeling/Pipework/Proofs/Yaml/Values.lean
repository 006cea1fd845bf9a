import Pipework.Proofs.Json.Fields
import Pipework.Proofs.Script.Expressible
import Pipework.Proofs.Yaml.Trees
import Pipework.Yaml.Record

/-!
# Values and records in printed documents

The tree of a value is read as that value, without a look at the document that it is in, since it has
no aliases. What a list or a record is read as follows from what its parts are, whatever they are.
-/

namespace Pipework.Yaml

/-! ## Scalars -/

/-- A word that means something is not taken for nothing. -/
theorem isAbsent_plain {text : String} (means : meaning text ≠ .null) :
    isAbsent (.scalar {} .plain text) = .ok false := by
  have something : (text.isEmpty || isNullText text) = false := by
    refine Bool.eq_false_iff.mpr fun nothing => means ?_
    rw [meaning, if_pos nothing]
  show Except.ok (text.isEmpty || isNullText text) = _
  rw [something]

theorem readText_scalar (style : ScalarStyle) (text : String) (depth : Nat) :
    readText depth (.scalar {} style text) = pure text := rfl

theorem scalarValue_text (s : String) : scalarValue {} (styleOf s) s = .ok (.string s) := by
  have style := styled s
  generalize styleOf s = chosen at style ⊢
  cases style with
  | plain means =>
    show valueOf s (meaning s) = _
    rw [means]
    rfl
  | single | double | literal => rfl

theorem scalarValue_number (n : Number) :
    scalarValue {} .plain (numberText n) = .ok (.number n) := by
  show valueOf _ (meaning (numberText n)) = _
  rw [meaning_numberText]
  rfl

/-! ## Lists and mappings -/

section

variable {α σ : Type} {depth : Nat}

/-- Items are read one by one. -/
theorem mapM_itemNodes {read : Node Nat → Decode α} (json : α → Json) {as : List α}
    (each : ∀ a ∈ as, read (nodeOf (json a)) = pure a) :
    (itemNodes (as.map json)).mapM read = pure as := by
  induction as with
  | nil => rfl
  | cons a as ih =>
    obtain ⟨here, more⟩ := List.forall_mem_cons.mp each
    rw [List.map_cons, itemNodes, List.mapM_cons, here, ih more, pure_bind, pure_bind]

/-- What is gathered from fields in order. -/
inductive Gathers (read : σ → String → Node Nat → Decode σ) : σ → List (String × Json) → σ → Prop
  | done (gathered : σ) : Gathers read gathered [] gathered
  | field {gathered next last : σ} {key : String} {v : Json} {fields : List (String × Json)}
      (here : read gathered key (nodeOf v) = pure next) (more : Gathers read next fields last) :
      Gathers read gathered ((key, v) :: fields) last

theorem Gathers.foldlM {read : σ → String → Node Nat → Decode σ} {gathered last : σ}
    {fields : List (String × Json)} (gathers : Gathers read gathered fields last) (depth : Nat) :
    (entryNodes fields).foldlM (fun draft (k, v) => do read draft (← readText depth k) v) gathered =
      pure last := by
  induction gathers with
  | done => rfl
  | field here more ih =>
    rw [entryNodes, List.foldlM_cons]
    simp only [readText_scalar, pure_bind, here, ih]

/-- Fields of values are gathered by inserting them. -/
theorem gathers_fields {read : Node Nat → Decode Json} {fields : List (String × Json)}
    (each : ∀ field ∈ fields, read (nodeOf field.2) = pure field.2) (gathered : Fields) :
    Gathers (fun (fields : Fields) key node => do return fields.insert key (← read node)) gathered
      fields (gathered.insertAll fields) := by
  induction fields generalizing gathered with
  | nil => exact .done gathered
  | cons field fields ih =>
    obtain ⟨here, more⟩ := List.forall_mem_cons.mp each
    refine .field ?_ (ih more _)
    simp only [here, pure_bind]

end

/-! ## Values -/

/-- What a scalar is read as does not depend on the depth. -/
theorem readValue_scalar {label : Label Nat} {style : ScalarStyle} {text : String} {v : Json}
    (value : scalarValue label style text = .ok v) (depth : Nat) :
    readValue depth (.scalar label style text) = pure v := by
  have read : (liftM (scalarValue label style text) : Decode Json) = pure v := by
    rw [value]
    rfl
  cases depth <;> exact read

theorem checkTag_bare : checkTag {} = pure () := rfl

theorem readValue_sequence {depth : Nat} {items : List Json}
    (each : ∀ v ∈ items, readValue depth (nodeOf v) = pure v) :
    readValue (depth + 1) (nodeOf (.array items)) = pure (.array items) := by
  have read : (itemNodes items).mapM (readValue depth) = pure items := by
    have := mapM_itemNodes (fun v => v) each
    rwa [List.map_id'] at this
  show (checkTag {} >>= fun _ => (itemNodes items).mapM (readValue depth) >>= fun items =>
    pure (Json.array items)) = _
  rw [checkTag_bare, pure_bind, read, pure_bind]

theorem readValue_mapping {depth : Nat} {fields : Fields} (distinct : fields.Distinct)
    (each : ∀ field ∈ fields, readValue depth (nodeOf field.2) = pure field.2) :
    readValue (depth + 1) (nodeOf (.object fields)) = pure (.object fields) := by
  have gathered : Fields.insertAll [] fields = fields := Fields.ofList_of_distinct distinct
  have read := (gathers_fields each []).foldlM depth
  rw [gathered] at read
  have objects := congrArg (fun read : Decode Fields => read >>= fun fields =>
    pure (Json.object fields)) read
  show (checkTag {} >>= fun _ => _) = _
  rw [checkTag_bare, pure_bind]
  exact objects.trans (pure_bind _ _)

mutual

/-- The tree of a value is read as that value, if its keys are distinct and it nests no deeper than may
be read. -/
theorem readValue_nodeOf : (v : Json) → (depth : Nat) → v.KeysDistinct → v.depth ≤ depth →
    readValue depth (nodeOf v) = pure v
  | .null, depth, _, _ => readValue_scalar rfl depth
  | .bool true, depth, _, _ => readValue_scalar rfl depth
  | .bool false, depth, _, _ => readValue_scalar rfl depth
  | .number n, depth, _, _ => readValue_scalar (scalarValue_number n) depth
  | .string s, depth, _, _ => readValue_scalar (scalarValue_text s) depth
  | .array _, 0, _, shallow => absurd shallow (Nat.not_succ_le_zero _)
  | .array items, depth + 1, distinct, shallow =>
    readValue_sequence (readValue_itemNodes items depth distinct.2 (Nat.le_of_succ_le_succ shallow))
  | .object _, 0, _, shallow => absurd shallow (Nat.not_succ_le_zero _)
  | .object fields, depth + 1, distinct, shallow =>
    readValue_mapping distinct.1
      (readValue_entryNodes fields depth distinct.2 (Nat.le_of_succ_le_succ shallow))

/-- The same of the items of a list. -/
theorem readValue_itemNodes : (items : List Json) → (depth : Nat) →
    Json.AllItems Json.KeysApart items → Json.depthItems items ≤ depth →
    ∀ v ∈ items, readValue depth (nodeOf v) = pure v
  | [], _, _, _ => List.forall_mem_nil _
  | v :: vs, depth, distinct, shallow => by
    have ⟨first, others⟩ := Nat.max_le.mp shallow
    exact List.forall_mem_cons.mpr ⟨readValue_nodeOf v depth distinct.1 first,
      readValue_itemNodes vs depth distinct.2 others⟩

/-- The same of the values of an object. -/
theorem readValue_entryNodes : (fields : List (String × Json)) → (depth : Nat) →
    Json.AllFields Json.KeysApart fields → Json.depthFields fields ≤ depth →
    ∀ field ∈ fields, readValue depth (nodeOf field.2) = pure field.2
  | [], _, _, _ => List.forall_mem_nil _
  | (_, v) :: fields, depth, distinct, shallow => by
    have ⟨first, others⟩ := Nat.max_le.mp shallow
    exact List.forall_mem_cons.mpr ⟨readValue_nodeOf v depth distinct.1 first,
      readValue_entryNodes fields depth distinct.2 others⟩

end

/-! ## Parts of records -/

section

variable {α σ : Type} {depth : Nat}

/-- An object of values is read as its fields. -/
theorem readMap_nodeOf {fields : Fields} (distinct : fields.KeysDistinct)
    (shallow : Json.depthFields fields ≤ depth) :
    readMap (depth + 1) (nodeOf (.object fields)) = pure fields := by
  have gathered : Fields.insertAll [] fields = fields := Fields.ofList_of_distinct distinct.1
  have each := readValue_entryNodes fields depth distinct.2 shallow
  have read := (gathers_fields each []).foldlM depth
  rw [gathered] at read
  exact read

/-- A list of things of one kind is read as they are. -/
theorem readItems_nodeOf {read : Reader α} {json : α → Json} {as : List α}
    (each : ∀ a ∈ as, read depth (nodeOf (json a)) = pure a) :
    readItems read (depth + 1) (nodeOf (.array (as.map json))) = pure as :=
  mapM_itemNodes json each

/-- A name is read as what it names. -/
theorem readVariant_nodeOf {ofName? : String → Option α} {name : String} {a : α}
    (known : ofName? name = some a) (depth : Nat) :
    readVariant ofName? depth (nodeOf (.string name)) = pure a := by
  have bare : Label.isLocal {} = false := rfl
  simp only [readVariant, nodeOf, follow, pure_bind, bare, Bool.false_eq_true, ↓reduceIte, known]

/-- What is there is read as something. -/
theorem readOptional_scalar {read : Reader α} {style : ScalarStyle} {text : String} {a : α}
    (present : isAbsent (.scalar {} style text) = .ok false)
    (here : read depth (.scalar {} style text) = pure a) :
    readOptional read depth (.scalar {} style text) = pure (some a) := by
  show ((liftM (isAbsent (.scalar {} style text)) : Decode Bool) >>= fun absent =>
    if absent then pure none else read depth (.scalar {} style text) >>= fun a => pure (some a)) = _
  rw [present, here]
  rfl

/-- The text of an optional text is read. -/
theorem readOptional_ofText (text : Option String) (depth : Nat) :
    readOptional readText depth (nodeOf (Json.ofText? text)) = pure text := by
  cases text with
  | none => rfl
  | some s =>
    have style := styled s
    have present : isAbsent (.scalar {} (styleOf s) s) = .ok false := by
      generalize styleOf s = chosen at style ⊢
      cases style with
      | plain means => exact isAbsent_plain (by rw [means]; exact nofun)
      | single | double | literal => rfl
    exact readOptional_scalar present (readText_scalar _ s depth)

theorem readUnsigned_plain (depth : Nat) {text : String} {n : Nat} (value : unsigned? text.toList = some n)
    (small : n < twoTo 64) : readUnsigned depth (.scalar {} .plain text) = pure n.toUInt64 := by
  have asked : plainText? "int" (.scalar {} .plain text) = some text := rfl
  simp only [readUnsigned, follow, pure_bind, asked, Option.bind_some, value, if_pos small]

/-- The number of an optional word is read. -/
theorem readOptional_timeout (timeout : Option UInt64) (depth : Nat) :
    readOptional readUnsigned depth (nodeOf (match timeout with
      | some ms => Json.ofNat ms.toNat
      | none => .null)) = pure timeout := by
  cases timeout with
  | none => rfl
  | some ms =>
    have present : isAbsent (.scalar {} .plain (numberText (.ofNat ms.toNat))) = .ok false := by
      refine isAbsent_plain ?_
      rw [meaning_numberText]
      exact nofun
    have read := readUnsigned_plain depth (unsigned?_numberText ms) ms.toNat_lt
    rw [Nat.toUInt64, UInt64.ofNat_toNat] at read
    exact readOptional_scalar present read

/-! ## Records -/

/-- Reads a field of a record into the draft. -/
def readMember (members : List (Member σ)) (depth : Nat) (draft : σ) (key : String)
    (node : Node Nat) : Decode σ :=
  match members.find? (·.name == key) with
  | none => return draft
  | some m => if m.present draft then throw (.repeatedField key) else m.read depth draft node

/-- A member that a draft has not got yet takes what is read for it. -/
theorem Gathers.member {members : List (Member σ)} {draft last : σ} {key : String}
    {get : σ → Option α} {set : σ → α → σ} {read : Reader α} {v : Json} {a : α}
    {fields : List (String × Json)}
    (found : members.find? (·.name == key) = some (.of key get set read))
    (absent : get draft = none) (here : read depth (nodeOf v) = pure a)
    (more : Gathers (readMember members depth) (set draft a) fields last) :
    Gathers (readMember members depth) draft ((key, v) :: fields) last := by
  refine .field ?_ more
  have missing : (Member.of key get set read).present draft = false := by
    show (get draft).isSome = false
    rw [absent]
    rfl
  rw [readMember, found]
  simp only [missing, Bool.false_eq_true, ↓reduceIte]
  show (read depth (nodeOf v) >>= fun a => pure (set draft a)) = _
  rw [here, pure_bind]

/-- A record is read as the draft that its fields make. -/
theorem readRecord_nodeOf {members : List (Member σ)} {blank last : σ}
    {fields : List (String × Json)} (gathers : Gathers (readMember members depth) blank fields last) :
    readRecord members blank (depth + 1) (nodeOf (.object fields)) = pure last :=
  gathers.foldlM depth

end

end Pipework.Yaml
