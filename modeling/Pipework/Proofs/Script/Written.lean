import Pipework.Proofs.Script.Expressible
import Pipework.Proofs.Script.Tree
import Pipework.Script.Print

/-!
# The trees of what is written

Every value, call and pipeline has the tree that its script form is the text of: a name is a word
where it can be one, an argument has no name where counting gives it the one it has, and no comma
stands behind a last part. The tree means what it is the tree of, if keys are distinct. For a
pipeline that is what a script says of it, which leaves out the description and the notes on steps.
-/

namespace Pipework.Script

open Script.Tree

/-! ## Trees -/

namespace Tree

/-- The tree of a name: a word, or a text where it cannot be one. -/
def Key.ofName (name : String) : Key :=
  if isBareWord name then .word name else .text name

mutual

/-- The tree of a value. -/
def Value.ofJson : Json → Value
  | .null => .word "null"
  | .bool b => .bool b
  | .number n => .number n
  | .string s => if isReference s then .reference (String.ofList s.toList.tail) else .text s
  | .array items => .list (ofItems items) false
  | .object fields => .object (ofFields fields) false

/-- The trees of the items of a list. -/
def ofItems : List Json → List Value
  | [] => []
  | v :: vs => Value.ofJson v :: ofItems vs

/-- The trees of the entries of an object. -/
def ofFields : List (String × Json) → List (Key × Value)
  | [] => []
  | (k, v) :: fields => (Key.ofName k, Value.ofJson v) :: ofFields fields

end

/-- The tree of an argument; `unnamed` arguments without a name stand before it. -/
def Argument.ofParam (unnamed : Nat) (key : String) (value : Json) : Argument :=
  ⟨if key = positionalKey unnamed then none else some key, Value.ofJson value⟩

/-- The trees of arguments. -/
def ofParams (unnamed : Nat) : Params → List Argument
  | [] => []
  | (k, v) :: params =>
    Argument.ofParam unnamed k v ::
      ofParams (if k = positionalKey unnamed then unnamed + 1 else unnamed) params

/-- The tree of a call. -/
def Call.ofAtom (atom : Atom) : Tree.Call :=
  ⟨atom.type.name, atom.action, some ⟨ofParams 0 atom.params, false⟩⟩

/-- The tree of a pipeline. -/
def Source.ofPipeline (p : Pipeline) : Source :=
  ⟨some (Key.ofName p.name), p.vars.map fun (name, value) => (name, Value.ofJson value),
    p.steps.map fun step => Call.ofAtom step.atom⟩

/-! ## What they mean -/

@[simp] theorem Key.name_ofName (name : String) : (Key.ofName name).name = name := by
  unfold ofName
  split <;> rfl

/-- A reference is the text of a dollar sign and a name. -/
theorem reference_of_isReference {s : String} (reference : isReference s = true) :
    "$" ++ String.ofList s.toList.tail = s := by
  unfold isReference at reference
  split at reference
  next name split =>
    simp only [← String.toList_inj, String.toList_append, split, List.tail_cons,
      String.toList_ofList]
    rfl
  · cases reference

mutual

/-- The tree of a value means the value. -/
theorem Value.meaning_ofJson (v : Json) (distinct : v.KeysDistinct) :
    (Value.ofJson v).meaning = v := by
  match v with
  | .null => rfl
  | .bool b => rfl
  | .number n => rfl
  | .string s =>
    rw [Value.ofJson]
    split
    next reference => exact congrArg Json.string (reference_of_isReference reference)
    next => rfl
  | .array items =>
    rw [Value.ofJson, Value.meaning, itemMeanings_ofItems items distinct.2]
  | .object fields =>
    rw [Value.ofJson, Value.meaning, entryMeanings_ofFields fields distinct.2,
      Fields.ofList_of_distinct distinct.1]

/-- The trees of items mean the items. -/
theorem itemMeanings_ofItems (items : List Json) (distinct : Json.AllItems Json.KeysApart items) :
    itemMeanings (ofItems items) = items := by
  match items with
  | [] => rfl
  | v :: vs =>
    rw [ofItems, itemMeanings, Value.meaning_ofJson v distinct.1,
      itemMeanings_ofItems vs distinct.2]

/-- The trees of entries mean the entries. -/
theorem entryMeanings_ofFields (fields : List (String × Json))
    (distinct : Json.AllFields Json.KeysApart fields) :
    entryMeanings (ofFields fields) = fields := by
  match fields with
  | [] => rfl
  | (k, v) :: fields =>
    rw [ofFields, entryMeanings, Key.name_ofName, Value.meaning_ofJson v distinct.1,
      entryMeanings_ofFields fields distinct.2]

end

/-- The trees of arguments mean the arguments: one that is written without a name counts as what it
was called. -/
theorem params_ofParams (unnamed : Nat) (params : Params)
    (distinct : Json.AllFields Json.KeysApart params) :
    Argument.params unnamed (ofParams unnamed params) = params := by
  induction params generalizing unnamed with
  | nil => rfl
  | cons param params ih =>
    obtain ⟨k, v⟩ := param
    have value := Value.meaning_ofJson v distinct.1
    by_cases counted : k = positionalKey unnamed
    · simp only [ofParams, Argument.ofParam, counted, ↓reduceIte, Argument.params, value,
        ih (unnamed + 1) distinct.2]
    · simp only [ofParams, Argument.ofParam, counted, ↓reduceIte, Argument.params, value,
        ih unnamed distinct.2]

/-- The tree of a call has the arguments of the call. -/
theorem Call.params_ofAtom (atom : Atom) (distinct : Json.AllFields Json.KeysApart atom.params) :
    (Call.ofAtom atom).params = atom.params :=
  params_ofParams 0 atom.params distinct

/-- The tree of a call means the call, whatever unknown types stand for. -/
theorem Call.meaning_ofAtom (fallback : AtomType) (atom : Atom)
    (distinct : Json.AllFields Json.KeysApart atom.params) :
    (Call.ofAtom atom).meaning fallback = { atom } := by
  have type : (AtomType.ofName? (Call.ofAtom atom).module).getD fallback = atom.type := by
    rw [Call.ofAtom, AtomType.ofName?_name, Option.getD_some]
  rw [Call.meaning, Call.params_ofAtom atom distinct, type]
  rfl

/-- The tree of a pipeline means what a script says of the pipeline. -/
theorem Source.meaning_ofPipeline (fallback : AtomType) (p : Pipeline) (distinct : p.KeysDistinct) :
    (Source.ofPipeline p).meaning fallback = p.scripted := by
  obtain ⟨⟨varsApart, varsInside⟩, stepsDistinct⟩ := distinct
  have vars : ∀ fields : Fields, Json.AllFields Json.KeysApart fields →
      declarations (fields.map fun (name, value) => (name, Value.ofJson value)) = fields := by
    intro fields inside
    induction fields with
    | nil => rfl
    | cons field fields ih =>
      have value := Value.meaning_ofJson field.2 inside.1
      unfold declarations at ih ⊢
      rw [List.map_cons, List.map_cons, ih inside.2, value]
  have steps : (p.steps.map fun step => Call.ofAtom step.atom).map (Call.meaning fallback) =
      p.steps.map fun step => { atom := step.atom } := by
    rw [List.map_map]
    refine List.map_congr_left fun step mem => ?_
    exact Call.meaning_ofAtom fallback step.atom (stepsDistinct step mem).2
  rw [Source.meaning, Source.ofPipeline, steps, vars p.vars varsInside,
    Fields.ofList_of_distinct varsApart]
  simp only [Option.map_some, Key.name_ofName, Option.getD_some]
  rfl

end Tree

end Pipework.Script
