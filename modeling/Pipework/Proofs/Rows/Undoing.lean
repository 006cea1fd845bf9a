import Mathlib.Data.List.Perm.Basic
import Pipework.Proofs.Rows.Renaming

/-!
# Renaming is undone by the inverse

A mapping, given as an object, renames the fields of a row all at a time. If it is one-to-one, and no
field that keeps its name has a name that the mapping gives, then no two fields get one name. So each
field stays where it is with the value that it has, and the inverse mapping takes the names back.
Swaps and longer cycles of names need no care: what the mapping renames may have any name.
-/

namespace Pipework.Rows

/-! ## Mappings -/

/-- No name is renamed twice, and no name is given twice. -/
def OneToOne (mapping : List (String × String)) : Prop :=
  (mapping.map Prod.fst).Nodup ∧ (mapping.map Prod.snd).Nodup

instance (mapping : List (String × String)) : Decidable (OneToOne mapping) :=
  inferInstanceAs (Decidable (_ ∧ _))

/-- The mapping as a parameter. -/
def asObject (mapping : List (String × String)) : Json :=
  .object (mapping.map fun (old, new) => (old, .string new))

/-- The mapping gives the name the other one, or leaves it as it is. -/
inductive Partner (mapping : List (String × String)) : String → String → Prop
  | given {old new : String} (mem : (old, new) ∈ mapping) : Partner mapping old new
  | own {name : String} (kept : name ∉ mapping.map Prod.fst) : Partner mapping name name

/-- A name that the mapping gives is one that it renames. -/
def FreeName (mapping : List (String × String)) (name : String) : Prop :=
  name ∈ mapping.map Prod.snd → name ∈ mapping.map Prod.fst

/-- No field that keeps its name has a name that the mapping gives. -/
def Free (mapping : List (String × String)) : Json → Prop
  | .object fields => ∀ field ∈ fields, FreeName mapping field.1
  | _ => True

instance (mapping : List (String × String)) (name : String) : Decidable (FreeName mapping name) :=
  inferInstanceAs (Decidable (_ → _))

instance (mapping : List (String × String)) : DecidablePred (Free mapping)
  | .object fields => inferInstanceAs (Decidable (∀ field ∈ fields, _))
  | .null | .bool _ | .number _ | .string _ | .array _ => .isTrue trivial

/-- A field has its partner for a name, and the value that it had. -/
def TurnedField (mapping : List (String × String)) (old new : String × Json) : Prop :=
  Partner mapping old.1 new.1 ∧ old.2 = new.2

/-- Each field of an object is turned where it stands. What is no object stays as it is. -/
inductive Turned (mapping : List (String × String)) : Json → Json → Prop
  | object {row fields : Fields} (each : List.Forall₂ (TurnedField mapping) row fields) :
    Turned mapping (.object row) (.object fields)
  | other {v : Json} (other : v.object? = none) : Turned mapping v v

theorem newNames_of_mapping {params : Params} {mapping : List (String × String)}
    (given : params.get? "mapping" = some (asObject mapping)) : newNames params = mapping := by
  rw [newNames, given, asObject]
  simp only [List.filterMap_map, Function.comp_def, Json.string?, Option.map_some]
  exact List.filterMap_some

section Mapping

variable {mapping inverse : List (String × String)} {a b c : String}

/-- What renaming a row makes of a name. -/
def turn (mapping : List (String × String)) (name : String) : String :=
  (mapping.lookup name).getD name

/-- A name is turned into its partner. -/
theorem partner_turn (oneToOne : OneToOne mapping) (name : String) :
    Partner mapping name (turn mapping name) := by
  unfold turn
  cases found : mapping.lookup name with
  | some new => exact .given ((lookup_eq_some_of_nodup oneToOne.1).mp found)
  | none =>
    apply Partner.own
    intro renamed
    obtain ⟨pair, mem, same⟩ := List.mem_map.mp renamed
    have other := List.lookup_eq_none_iff.mp found pair mem
    rw [same, bne_self_eq_false] at other
    cases other

theorem Partner.unique (oneToOne : OneToOne mapping) (left : Partner mapping a b)
    (right : Partner mapping a c) : b = c := by
  cases left with
  | given mem =>
    cases right with
    | given mem' =>
      have found := (lookup_eq_some_of_nodup oneToOne.1).mpr mem
      have found' := (lookup_eq_some_of_nodup oneToOne.1).mpr mem'
      exact Option.some.inj (found.symm.trans found')
    | own kept => exact absurd (List.mem_map_of_mem mem) kept
  | own kept =>
    cases right with
    | given mem => exact absurd (List.mem_map_of_mem mem) kept
    | own => rfl

section Inverse

variable (swapped : inverse.Perm (mapping.map Prod.swap))

include swapped

theorem mem_inverse_fst : a ∈ inverse.map Prod.fst ↔ a ∈ mapping.map Prod.snd := by
  rw [(swapped.map Prod.fst).mem_iff, List.map_map]
  exact Iff.rfl

theorem mem_inverse_snd : a ∈ inverse.map Prod.snd ↔ a ∈ mapping.map Prod.fst := by
  rw [(swapped.map Prod.snd).mem_iff, List.map_map]
  exact Iff.rfl

theorem oneToOne_inverse (oneToOne : OneToOne mapping) : OneToOne inverse := by
  refine ⟨(swapped.map Prod.fst).nodup_iff.mpr ?_, (swapped.map Prod.snd).nodup_iff.mpr ?_⟩
  · rw [List.map_map]
    exact oneToOne.2
  · rw [List.map_map]
    exact oneToOne.1

/-- The inverse takes a name back. -/
theorem Partner.back (partner : Partner mapping a b) (free : FreeName mapping a) :
    Partner inverse b a := by
  cases partner with
  | given mem => exact .given (swapped.mem_iff.mpr (List.mem_map_of_mem mem))
  | own kept => exact .own fun given => kept (free ((mem_inverse_fst swapped).mp given))

/-- Whatever a name is turned into is free for the inverse. -/
theorem Partner.freeName (partner : Partner mapping a b) : FreeName inverse b := by
  intro renamed
  cases partner with
  | given mem => exact (mem_inverse_fst swapped).mpr (List.mem_map_of_mem mem)
  | own kept => exact absurd ((mem_inverse_snd swapped).mp renamed) kept

end Inverse

/-- Free names get different partners. -/
theorem Partner.injective (oneToOne : OneToOne mapping) (left : Partner mapping a c)
    (right : Partner mapping b c) (free : FreeName mapping a) (free' : FreeName mapping b) :
    a = b := by
  have swapped := List.Perm.refl (mapping.map Prod.swap)
  exact (left.back swapped free).unique (oneToOne_inverse swapped oneToOne) (right.back swapped free')

/-! ## Rows -/

theorem keysApart_renameRow (mapping : List (String × String)) {row : Json}
    (apart : row.KeysApart) : (renameRow mapping row).KeysApart := by
  cases row with
  | object row => exact Fields.distinct_ofList _
  | _ => exact apart

/-- A row whose names are free is turned as a whole. -/
theorem turned_renameRow (oneToOne : OneToOne mapping) {row : Json} (apart : row.KeysApart)
    (free : Free mapping row) : Turned mapping row (renameRow mapping row) := by
  cases row with
  | object row =>
    have distinct : Fields.Distinct (row.map fun field => (turn mapping field.1, field.2)) := by
      have names : (row.map fun field => (turn mapping field.1, field.2)).map Prod.fst =
          (row.map Prod.fst).map (turn mapping) := by
        rw [List.map_map, List.map_map]
        rfl
      rw [Fields.Distinct, names]
      refine List.Nodup.map_on (fun a mem b mem' same => ?_) apart
      obtain ⟨field, there, rfl⟩ := List.mem_map.mp mem
      obtain ⟨field', there', rfl⟩ := List.mem_map.mp mem'
      have left : Partner mapping field.1 (turn mapping field.1) := partner_turn oneToOne field.1
      have right : Partner mapping field'.1 (turn mapping field.1) :=
        same ▸ partner_turn oneToOne field'.1
      exact left.injective oneToOne right (free field there) (free field' there')
    have renamed : renameRow mapping (.object row) =
        .object (row.map fun field => (turn mapping field.1, field.2)) :=
      congrArg Json.object (Fields.ofList_of_distinct distinct)
    rw [renamed]
    apply Turned.object
    refine List.forall₂_map_right_iff.mpr (List.forall₂_same.mpr fun field _ => ?_)
    exact ⟨partner_turn oneToOne field.1, rfl⟩
  | _ => exact .other rfl

/-- A row is turned in one way. -/
theorem Turned.unique (oneToOne : OneToOne mapping) {row row' row'' : Json}
    (left : Turned mapping row row') (right : Turned mapping row row'') : row' = row'' := by
  have field : Relator.RightUnique (TurnedField mapping) := by
    intro old new new' left right
    exact Prod.ext (left.1.unique oneToOne right.1) (left.2.symm.trans right.2)
  cases left with
  | other other =>
    cases right with
    | other => rfl
    | object => cases other
  | object each =>
    cases right with
    | other other => cases other
    | object each' => exact congrArg Json.object (List.right_unique_forall₂' field each each')

section Inverse

variable (swapped : inverse.Perm (mapping.map Prod.swap)) {row row' : Json}

include swapped

/-- The inverse turns a row back. -/
theorem Turned.back (turned : Turned mapping row row') (free : Free mapping row) :
    Turned inverse row' row := by
  cases turned with
  | other other => exact .other other
  | object each =>
    apply Turned.object
    apply List.Forall₂.flip
    refine ((List.forall₂_and_left _ _).mpr ⟨free, each⟩).imp fun old new both => ?_
    exact ⟨both.2.1.back swapped both.1, both.2.2.symm⟩

/-- The names of a row that was turned are free for the inverse. -/
theorem Turned.free (turned : Turned mapping row row') : Free inverse row' := by
  cases turned with
  | other other =>
    cases row with
    | object => cases other
    | _ => trivial
  | object each =>
    have back : List.Forall₂ (fun new old => FreeName inverse new.1 ∧ TurnedField mapping old new) _ _ :=
      List.Forall₂.flip (each.imp fun _ _ turned => ⟨turned.1.freeName swapped, turned⟩)
    exact ((List.forall₂_and_left _ _).mp back).1

end Inverse

/-- **Renaming by a one-to-one mapping is undone by its inverse.** In a list of rows, let no field that
keeps its name have a name that the mapping gives. Renaming succeeds; each field stays where it is, with
its value, and has its new name, whatever other fields have had that name. Renaming the result by the
inverse mapping gives the rows as they were. -/
theorem renaming_is_undone {params undoing : Params} (oneToOne : OneToOne mapping)
    (swapped : inverse.Perm (mapping.map Prod.swap))
    (given : params.get? "mapping" = some (asObject mapping))
    (taken : undoing.get? "mapping" = some (asObject inverse)) {rows : List Json}
    (apart : ∀ row ∈ rows, row.KeysApart) (free : ∀ row ∈ rows, Free mapping row) :
    ∃ renamed, rename params (.array rows) = .ok (.array renamed) ∧
      List.Forall₂ (Turned mapping) rows renamed ∧
      rename undoing (.array renamed) = .ok (.array rows) := by
  have turned : ∀ row ∈ rows, Turned mapping row (renameRow mapping row) := fun row mem =>
    turned_renameRow oneToOne (apart row mem) (free row mem)
  have undone : ∀ row ∈ rows, renameRow inverse (renameRow mapping row) = row := by
    intro row mem
    have again := turned_renameRow (oneToOne_inverse swapped oneToOne)
      (keysApart_renameRow mapping (apart row mem)) ((turned row mem).free swapped)
    exact again.unique (oneToOne_inverse swapped oneToOne) ((turned row mem).back swapped (free row mem))
  refine ⟨rows.map (renameRow mapping), ?_, ?_, ?_⟩
  · rw [rename, newNames_of_mapping given]
    rfl
  · exact List.forall₂_map_right_iff.mpr (List.forall₂_same.mpr turned)
  · rw [rename, newNames_of_mapping taken]
    have same : (rows.map (renameRow mapping)).map (renameRow inverse) = rows := by
      rw [List.map_map]
      exact (List.map_congr_left undone).trans (List.map_id rows)
    exact congrArg (fun rows => Except.ok (Json.array rows)) same

end Mapping

/-- A cycle of three names, and a name that becomes another. -/
def cycle : List (String × String) := [("a", "b"), ("b", "c"), ("c", "a"), ("d", "e")]

/-- Its inverse, in an order of its own. -/
def cycleBack : List (String × String) := [("e", "d"), ("a", "c"), ("b", "a"), ("c", "b")]

/-- Rows with names of the cycle, and without. -/
def marks : List Json := [
  .object [("c", .ofNat 3), ("z", .ofNat 9), ("a", .ofNat 1), ("d", .null), ("b", .ofNat 2)],
  .string "e",
  .object [("b", .bool true)]]

/-- The marks come back from the cycle. -/
theorem marks_come_back :
    OneToOne cycle ∧ cycleBack.Perm (cycle.map Prod.swap) ∧
    (∀ row ∈ marks, row.KeysApart) ∧ (∀ row ∈ marks, Free cycle row) ∧
    ∃ renamed, rename [("mapping", asObject cycle)] (.array marks) = .ok (.array renamed) ∧
      renamed = [
        .object [("a", .ofNat 3), ("z", .ofNat 9), ("b", .ofNat 1), ("e", .null), ("c", .ofNat 2)],
        .string "e",
        .object [("c", .bool true)]] ∧
      rename [("mapping", asObject cycleBack)] (.array renamed) = .ok (.array marks) := by
  have oneToOne : OneToOne cycle := by decide
  have swapped : cycleBack.Perm (cycle.map Prod.swap) := by decide
  have apart : ∀ row ∈ marks, row.KeysApart := by
    unfold marks
    decide
  have free : ∀ row ∈ marks, Free cycle row := by
    unfold marks
    decide
  have given (mapping : List (String × String)) :
      Fields.get? [("mapping", asObject mapping)] "mapping" = some (asObject mapping) := rfl
  obtain ⟨renamed, ran, -, back⟩ :=
    renaming_is_undone oneToOne swapped (given cycle) (given cycleBack) apart free
  cases ran
  exact ⟨oneToOne, swapped, apart, free, _, rfl, rfl, back⟩

end Pipework.Rows
