import Pipework.Proofs.Outcome
import Pipework.Proofs.Yaml.Printed
import Pipework.Yaml.Node

/-!
# The trees of printed documents

The tokens of a printed value are those of one tree, which has a scalar for each text and word, and no
labels. A list that has no block of its own ends where something comes that is no item; behind it
there is the next key, or the end of the object that the list is in.
-/

namespace Pipework.Yaml

/-! ## Trees -/

mutual

/-- The tree of a value. -/
def nodeOf {ν : Type} : Json → Node ν
  | .null => .scalar {} .plain "null"
  | .bool b => .scalar {} .plain (if b then "true" else "false")
  | .number n => .scalar {} .plain (numberText n)
  | .string s => .scalar {} (styleOf s) s
  | .array items => .sequence {} (itemNodes items)
  | .object fields => .mapping {} (entryNodes fields)

/-- The trees of items. -/
def itemNodes {ν : Type} : List Json → List (Node ν)
  | [] => []
  | v :: vs => nodeOf v :: itemNodes vs

/-- The trees of keys and values. -/
def entryNodes {ν : Type} : List (String × Json) → List (Node ν × Node ν)
  | [] => []
  | (k, v) :: fields => (.scalar {} (styleOf k) k, nodeOf v) :: entryNodes fields

end

/-! ## Missing nodes -/

/-- Tokens that may follow a node where nothing is written. -/
def endMarks : List Token := [.key, .value, .blockEnd]

/-- A value begins with none of them, and with no mark of an item unless its items are loose. -/
theorem valueTokens_starts (loose : Bool) (v : Json) : ∃ t ts, valueTokens loose v = t :: ts ∧
    endMarks.contains t = false ∧ (loose = false → t ≠ .item) := by
  match v with
  | .null | .bool _ | .number _ | .string _ | .array [] | .object [] | .object (_ :: _) =>
    exact ⟨_, _, rfl, rfl, fun _ => nofun⟩
  | .array (w :: ws) =>
    cases loose with
    | true => exact ⟨_, _, rfl, rfl, nofun⟩
    | false => exact ⟨_, _, rfl, rfl, fun _ => nofun⟩

section

variable {read : List Token → Except Fault (Node String × List Token)} {rest : List Token}

/-- A value behind a key is not missing. -/
theorem nodeUnless_value (loose : Bool) (v : Json) :
    nodeUnless endMarks read (valueTokens loose v ++ rest) = read (valueTokens loose v ++ rest) := by
  obtain ⟨t, ts, tokens, noMark, -⟩ := valueTokens_starts loose v
  rw [tokens, List.cons_append, nodeUnless, noMark]
  rfl

/-- Nor is an item. -/
theorem nodeUnless_item {ends : List Token} (marks : ∀ t ∈ ends, t ∈ .item :: endMarks) (v : Json) :
    nodeUnless ends read (valueTokens false v ++ rest) = read (valueTokens false v ++ rest) := by
  obtain ⟨t, ts, tokens, noMark, noItem⟩ := valueTokens_starts false v
  have other : ends.contains t = false := by
    refine List.contains_eq_mem t ends ▸ decide_eq_false fun mem => ?_
    rcases List.mem_cons.mp (marks t mem) with item | mark
    · exact noItem rfl item
    · rw [List.contains_iff_mem.mpr mark] at noMark
      cases noMark
  rw [tokens, List.cons_append, nodeUnless, other]
  rfl

end

/-! ## Parsing -/

/-- The tokens of a value are parsed, up to what follows them. A list that has no block of its own
does not end in front of another item, and takes one more step. -/
structure Parses (v : Json) : Prop where
  here {known : Shorthands} {fuel : Nat} (loose : Bool) (rest : List Token)
    (enough : (valueTokens false v).length < fuel) :
    parseNode known true loose fuel (valueTokens false v ++ rest) = .ok (nodeOf v, rest)
  behind {known : Shorthands} {fuel : Nat} {rest : List Token}
    (enough : (valueTokens true v).length + 1 < fuel) (ends : rest.head? ≠ some .item) :
    parseNode known true true fuel (valueTokens true v ++ rest) = .ok (nodeOf v, rest)

section

variable {known : Shorthands} {fuel : Nat} {rest : List Token}

theorem parses_leaf {v : Json} (leaf : isLeaf v = true) : Parses v := by
  have here : ∀ {known : Shorthands} {fuel : Nat} (loose : Bool) (rest : List Token),
      (valueTokens false v).length < fuel →
        parseNode known true loose fuel (valueTokens false v ++ rest) = .ok (nodeOf v, rest) := by
    intro known fuel loose rest enough
    match v, fuel with
    | .null, fuel + 1 | .bool _, fuel + 1 | .number _, fuel + 1 | .string _, fuel + 1 => rfl
    | .array [], fuel + 2 | .object [], fuel + 2 => rfl
  refine ⟨here, fun enough ends => ?_⟩
  match v with
  | .null | .bool _ | .number _ | .string _ | .array [] | .object [] =>
    exact here true _ (Nat.lt_of_succ_lt enough)

/-- Items are parsed up to the end of their block. -/
theorem parseItems_tokens {items : List Json} (each : ∀ v ∈ items, Parses v)
    (enough : (itemTokens items).length < fuel) :
    parseItems known fuel (itemTokens items ++ .blockEnd :: rest) = .ok (itemNodes items, rest) := by
  induction items generalizing fuel with
  | nil =>
    obtain ⟨fuel, rfl⟩ := Nat.exists_eq_add_one.mpr (Nat.zero_lt_of_lt enough)
    rfl
  | cons v vs ih =>
    obtain ⟨first, more⟩ := List.forall_mem_cons.mp each
    obtain ⟨fuel, rfl⟩ := Nat.exists_eq_add_one.mpr (Nat.zero_lt_of_lt enough)
    simp only [itemTokens, List.length_cons, List.length_append] at enough
    have here : nodeUnless [.item, .blockEnd] (parseNode known true false fuel)
        (valueTokens false v ++ (itemTokens vs ++ .blockEnd :: rest)) = _ :=
      (nodeUnless_item (by decide) v).trans (first.here false _ (by omega))
    rw [itemTokens, List.cons_append, List.append_assoc, parseItems]
    refine Outcome.bind_eq_ok.mpr ⟨_, here, ?_⟩
    exact Outcome.bind_eq_ok.mpr ⟨_, ih more (by omega), rfl⟩

/-- Loose items are parsed up to what is no item. -/
theorem parseLooseItems_tokens {items : List Json} (each : ∀ v ∈ items, Parses v)
    (enough : (itemTokens items).length < fuel) (ends : rest.head? ≠ some .item) :
    parseLooseItems known fuel (itemTokens items ++ rest) = .ok (itemNodes items, rest) := by
  induction items generalizing fuel with
  | nil =>
    obtain ⟨fuel, rfl⟩ := Nat.exists_eq_add_one.mpr (Nat.zero_lt_of_lt enough)
    rw [itemTokens, List.nil_append, parseLooseItems]
    · rfl
    · rintro ts rfl
      exact ends rfl
  | cons v vs ih =>
    obtain ⟨first, more⟩ := List.forall_mem_cons.mp each
    obtain ⟨fuel, rfl⟩ := Nat.exists_eq_add_one.mpr (Nat.zero_lt_of_lt enough)
    simp only [itemTokens, List.length_cons, List.length_append] at enough
    have here : nodeUnless [.item, .key, .value, .blockEnd] (parseNode known true false fuel)
        (valueTokens false v ++ (itemTokens vs ++ rest)) = _ :=
      (nodeUnless_item (by decide) v).trans (first.here false _ (by omega))
    rw [itemTokens, List.cons_append, List.append_assoc, parseLooseItems]
    refine Outcome.bind_eq_ok.mpr ⟨_, here, ?_⟩
    exact Outcome.bind_eq_ok.mpr ⟨_, ih more (by omega), rfl⟩

/-- The value of a field is parsed behind its key. -/
theorem parses_field {v : Json} (parses : Parses v) (key : String)
    (enough : (valueTokens (isSimpleKey key) v).length + 1 < fuel) (ends : rest.head? ≠ some .item) :
    valueAfter endMarks (parseNode known true true fuel)
      (.value :: (valueTokens (isSimpleKey key) v ++ rest)) = .ok (nodeOf v, rest) := by
  rw [valueAfter, nodeUnless_value]
  cases simple : isSimpleKey key with
  | true =>
    rw [simple] at enough
    exact parses.behind enough ends
  | false =>
    rw [simple] at enough
    exact parses.here true rest (Nat.lt_of_succ_lt enough)

/-- Fields are parsed up to the end of their block. -/
theorem parseEntries_tokens {fields : List (String × Json)} (each : ∀ f ∈ fields, Parses f.2)
    (enough : (fieldTokens fields).length < fuel) :
    parseEntries known fuel (fieldTokens fields ++ .blockEnd :: rest) =
      .ok (entryNodes fields, rest) := by
  induction fields generalizing fuel with
  | nil =>
    obtain ⟨fuel, rfl⟩ := Nat.exists_eq_add_one.mpr (Nat.zero_lt_of_lt enough)
    rfl
  | cons field fields ih =>
    obtain ⟨key, v⟩ := field
    obtain ⟨first, more⟩ := List.forall_mem_cons.mp each
    obtain ⟨fuel, rfl⟩ := Nat.exists_eq_add_one.mpr (Nat.zero_lt_of_lt enough)
    simp only [fieldTokens, List.length_cons, List.length_append] at enough
    obtain ⟨fuel, rfl⟩ := Nat.exists_eq_add_one.mpr (show 0 < fuel by omega)
    -- Behind a value there is the next key, or the end of the block.
    have ends : (fieldTokens fields ++ .blockEnd :: rest).head? ≠ some .item := by
      cases fields <;> rintro ⟨⟩
    have value : valueAfter endMarks (parseNode known true true (fuel + 1)) _ = _ :=
      parses_field (show Parses v from first) key (by omega) ends
    rw [fieldTokens]
    simp only [List.cons_append, List.append_assoc]
    rw [parseEntries]
    refine Outcome.bind_eq_ok.mpr ⟨(.scalar {} (styleOf key) key, _), rfl, ?_⟩
    refine Outcome.bind_eq_ok.mpr ⟨_, value, ?_⟩
    exact Outcome.bind_eq_ok.mpr ⟨_, ih more (by omega), rfl⟩

theorem parses_array {v : Json} {vs : List Json} (each : ∀ w ∈ v :: vs, Parses w) :
    Parses (.array (v :: vs)) where
  here {known fuel} loose rest enough := by
    obtain ⟨fuel, rfl⟩ := Nat.exists_eq_add_one.mpr (Nat.zero_lt_of_lt enough)
    simp only [valueTokens, Bool.false_eq_true, ↓reduceIte, List.length_cons, List.length_append,
      List.length_nil] at enough
    have items : parseItems known fuel (itemTokens (v :: vs) ++ .blockEnd :: rest) = _ :=
      parseItems_tokens each (by omega)
    simp only [valueTokens, Bool.false_eq_true, ↓reduceIte, List.cons_append, List.append_assoc,
      List.nil_append]
    exact Outcome.bind_eq_ok.mpr ⟨_, rfl, Outcome.bind_eq_ok.mpr ⟨_, items, rfl⟩⟩
  behind {known fuel rest} enough ends := by
    obtain ⟨fuel, rfl⟩ := Nat.exists_eq_add_one.mpr (Nat.zero_lt_of_lt enough)
    have items : parseLooseItems known fuel (itemTokens (v :: vs) ++ rest) = _ :=
      parseLooseItems_tokens each (Nat.lt_of_succ_lt_succ enough) ends
    exact Outcome.bind_eq_ok.mpr ⟨_, rfl, Outcome.bind_eq_ok.mpr ⟨_, items, rfl⟩⟩

theorem parses_object {field : String × Json} {fields : List (String × Json)}
    (each : ∀ f ∈ field :: fields, Parses f.2) : Parses (.object (field :: fields)) := by
  have here : ∀ {known : Shorthands} {fuel : Nat} (loose : Bool) (rest : List Token),
      (valueTokens false (.object (field :: fields))).length < fuel →
        parseNode known true loose fuel (valueTokens false (.object (field :: fields)) ++ rest) =
          .ok (nodeOf (.object (field :: fields)), rest) := by
    intro known fuel loose rest enough
    obtain ⟨fuel, rfl⟩ := Nat.exists_eq_add_one.mpr (Nat.zero_lt_of_lt enough)
    simp only [valueTokens, List.length_cons, List.length_append, List.length_nil] at enough
    have entries : parseEntries known fuel (fieldTokens (field :: fields) ++ .blockEnd :: rest) = _ :=
      parseEntries_tokens each (by omega)
    simp only [valueTokens, List.cons_append, List.append_assoc, List.nil_append]
    exact Outcome.bind_eq_ok.mpr ⟨_, rfl, Outcome.bind_eq_ok.mpr ⟨_, entries, rfl⟩⟩
  exact ⟨here, fun enough _ => here true _ (Nat.lt_of_succ_lt enough)⟩

mutual

/-- The tokens of every value are parsed. -/
theorem parses_value : (v : Json) → Parses v
  | .null | .bool _ | .number _ | .string _ | .array [] | .object [] => parses_leaf rfl
  | .array (v :: vs) => parses_array (parses_items (v :: vs))
  | .object (f :: fs) => parses_object (parses_fields (f :: fs))

/-- So are those of every item of a list. -/
theorem parses_items : (items : List Json) → ∀ v ∈ items, Parses v
  | [] => List.forall_mem_nil _
  | v :: vs => List.forall_mem_cons.mpr ⟨parses_value v, parses_items vs⟩

/-- So are those of every value of an object. -/
theorem parses_fields : (fields : List (String × Json)) → ∀ field ∈ fields, Parses field.2
  | [] => List.forall_mem_nil _
  | (_, v) :: fields => List.forall_mem_cons.mpr ⟨parses_value v, parses_fields fields⟩

end

end

/-! ## Documents -/

/-- The tokens of an object are those of a document with that object. -/
theorem parseDocument_object (field : String × Json) (fields : List (String × Json)) :
    parseDocument (valueTokens false (.object (field :: fields))) =
      .ok (nodeOf (.object (field :: fields))) := by
  have node : parseNode Shorthands.standard true false
      (2 * (valueTokens false (.object (field :: fields))).length + 4)
      (valueTokens false (.object (field :: fields)) ++ []) = _ :=
    (parses_value (.object (field :: fields))).here false [] (by omega)
  rw [List.append_nil] at node
  obtain ⟨ts, tokens⟩ : ∃ ts, valueTokens false (.object (field :: fields)) =
      .blockMappingStart :: ts := ⟨_, rfl⟩
  rw [tokens] at node ⊢
  rw [parseDocument]
  simp only [List.isEmpty_cons, Bool.false_eq_true, ↓reduceIte]
  refine Outcome.bind_eq_ok.mpr ⟨({}, .blockMappingStart :: ts), rfl, ?_⟩
  exact Outcome.bind_eq_ok.mpr ⟨_, node, rfl⟩

mutual

/-- Names of anchors are numbered, and there are none. -/
theorem number_nodeOf : (v : Json) → (names : Names) →
    (nodeOf v : Node String).number names = .ok (nodeOf v, names)
  | .null, _ | .bool _, _ | .number _, _ | .string _, _ => rfl
  | .array items, names =>
    Outcome.bind_eq_ok.mpr ⟨_, number_itemNodes items names, rfl⟩
  | .object fields, names =>
    Outcome.bind_eq_ok.mpr ⟨_, number_entryNodes fields names, rfl⟩

/-- The same of items. -/
theorem number_itemNodes : (items : List Json) → (names : Names) →
    numberItems (itemNodes items) names = .ok (itemNodes items, names)
  | [], _ => rfl
  | v :: vs, names =>
    Outcome.bind_eq_ok.mpr ⟨_, number_nodeOf v names,
      Outcome.bind_eq_ok.mpr ⟨_, number_itemNodes vs names, rfl⟩⟩

/-- The same of fields. -/
theorem number_entryNodes : (fields : List (String × Json)) → (names : Names) →
    numberEntries (entryNodes fields) names = .ok (entryNodes fields, names)
  | [], _ => rfl
  | (_, v) :: fields, names =>
    Outcome.bind_eq_ok.mpr ⟨_, rfl, Outcome.bind_eq_ok.mpr ⟨_, number_nodeOf v names,
      Outcome.bind_eq_ok.mpr ⟨_, number_entryNodes fields names, rfl⟩⟩⟩

end

/-- **The document of an object is the tree of the object.** -/
theorem ofText_print (field : String × Json) (fields : List (String × Json)) :
    ∃ document, Document.ofText (print (.object (field :: fields))) = .ok document ∧
      document.root = nodeOf (.object (field :: fields)) := by
  obtain ⟨root, same⟩ : ∃ root : Node Nat, root = nodeOf (.object (field :: fields)) := ⟨_, rfl⟩
  refine ⟨⟨root, root.numbered, 100 * root.size⟩, ?_, same⟩
  refine Outcome.bind_eq_ok.mpr ⟨_, tokens_print field fields, ?_⟩
  refine Outcome.bind_eq_ok.mpr ⟨_, parseDocument_object field fields, ?_⟩
  rw [same]
  exact Outcome.bind_eq_ok.mpr ⟨_, number_nodeOf _ [], rfl⟩

end Pipework.Yaml
