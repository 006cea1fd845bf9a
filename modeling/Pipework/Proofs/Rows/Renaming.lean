import Mathlib.Data.List.Perm.Subperm
import Pipework.Builtin.Rows
import Pipework.Proofs.Json.Fields
import Pipework.Proofs.Script.Expressible

/-!
# Renamed fields

Renaming gives each field of a row its new name and puts the fields together again. A row has no name
twice, so fields that get one name become one: it stands where the first of them stood and has the
value of the last. Chains and swaps of names are no danger in this, since every field is renamed once
and all at a time; what decides is only whether the new names are different.

Arguments that begin with an underscore say no names, unless they do so inside of a mapping.
-/

namespace Pipework

namespace Fields

/-- Pairs are as many fields as they are pairs exactly if their keys are distinct. -/
theorem length_ofList_iff (pairs : List (String × Json)) :
    (ofList pairs).length = pairs.length ↔ Distinct pairs := by
  constructor
  · intro same
    have known : (ofList pairs).map Prod.fst ⊆ pairs.map Prod.fst := by
      rw [keys_ofList]
      exact fun _ => List.mem_eraseDups.mp
    have order : ((ofList pairs).map Prod.fst).Perm (pairs.map Prod.fst) := by
      refine (List.subperm_of_subset (distinct_ofList pairs) known).perm_of_length_le ?_
      rw [List.length_map, List.length_map]
      exact Nat.le_of_eq same.symm
    exact order.nodup_iff.mp (distinct_ofList pairs)
  · intro distinct
    rw [ofList_of_distinct distinct]

end Fields

namespace Rows

/-! ## The new name of a field -/

/-- The name that a call says for a field: a text, in its mapping if it has one, and else among its
arguments, of which those that begin with an underscore do not count. -/
def said? (params : Params) (name : String) : Option String :=
  match params.get? "mapping" with
  | some (.object mapping) => (Fields.get? mapping name).bind Json.string?
  | _ => if name.toList.head? = some '_' then none else (params.get? name).bind Json.string?

/-- The name that a field gets; its own if none is said. -/
def newName (params : Params) (name : String) : String :=
  (said? params name).getD name

/-- Of fields with distinct keys the texts are found under these. -/
theorem lookup_texts {fields : Fields} (distinct : fields.Distinct) (name : String) :
    (fields.filterMap fun (k, v) => v.string?.map fun new => (k, new)).lookup name =
      (fields.get? name).bind Json.string? := by
  induction fields with
  | nil => rfl
  | cons field fields ih =>
    obtain ⟨k, v⟩ := field
    obtain ⟨new, distinct⟩ := List.nodup_cons.mp distinct
    have ih := ih distinct
    rw [Fields.get?] at ih ⊢
    rw [List.lookup_cons, List.filterMap_cons]
    by_cases same : name = k
    · subst same
      have behind : fields.lookup name = none :=
        List.lookup_eq_none_iff.mpr fun field mem =>
          bne_iff_ne.mpr fun same => new (List.mem_map.mpr ⟨field, mem, same.symm⟩)
      rw [behind] at ih
      cases text : v.string? with
      | none => simp only [text, Option.map_none, ih, beq_self_eq_true, Option.bind_some, Option.bind_none]
      | some s => simp only [text, Option.map_some, List.lookup_cons, beq_self_eq_true, Option.bind_some]
    · have apart := beq_eq_false_iff_ne.mpr same
      cases text : v.string? with
      | none => simp only [text, Option.map_none, ih, apart]
      | some s => simp only [text, Option.map_some, List.lookup_cons, ih, apart]

/-- The parameters in plain form are those whose names do not begin with an underscore. -/
theorem get?_plainParams (params : Params) (name : String) :
    (plainParams params).get? name =
      if name.toList.head? = some '_' then none else params.get? name := by
  have kept := lookup_filter (fun k : String => k.toList.head? != some '_') name params
  by_cases hidden : name.toList.head? = some '_'
  · rw [if_pos hidden]
    rwa [if_neg (by rw [hidden]; decide)] at kept
  · rw [if_neg hidden]
    rwa [if_pos (bne_iff_ne.mpr hidden)] at kept

/-- The program's old and new names are what the call says. -/
theorem lookup_newNames {params : Params} (distinct : params.KeysDistinct) (name : String) :
    (newNames params).lookup name = said? params name := by
  have plain : (plainParams params).Distinct := distinct.1.sublist (List.filter_sublist.map _)
  have named : ((plainParams params).filterMap fun (k, v) =>
      v.string?.map fun new => (k, new)).lookup name =
      if name.toList.head? = some '_' then none else (params.get? name).bind Json.string? := by
    rw [lookup_texts plain, get?_plainParams]
    split <;> rfl
  unfold newNames said?
  cases mapping : params.get? "mapping" with
  | none => exact named
  | some v =>
    cases v with
    | object mapped =>
      have mem := (lookup_eq_some_of_nodup distinct.1).mp mapping
      have inside := Json.allFields_iff.mp distinct.2 _ mem
      exact lookup_texts inside.1 name
    | _ => exact named

/-! ## Renamed rows -/

/-- The fields of a row under new names: each name stands once, at the place of the first field that
gets it, and has the value of the last. If the names are all different these are the same fields, and
only then are they as many. -/
structure Renames (rename : String → String) (row fields : Fields) : Prop where
  names : fields.map Prod.fst = (row.map fun field => rename field.1).eraseDups
  values : ∀ name, fields.get? name =
    (row.reverse.find? fun field => rename field.1 == name).map Prod.snd
  whole : (row.map fun field => rename field.1).Nodup →
    fields = row.map fun field => (rename field.1, field.2)
  as_many : fields.length = row.length ↔ (row.map fun field => rename field.1).Nodup

/-- What becomes of a row: an object has its fields under new names, and what is no object stays as
it is. -/
inductive Renamed (rename : String → String) : Json → Json → Prop
  | object {row fields : Fields} (renames : Renames rename row fields) :
    Renamed rename (.object row) (.object fields)
  | other {v : Json} (other : v.object? = none) : Renamed rename v v

theorem lookup_map_eq_find? (rename : String → String) (row : List (String × Json)) (name : String) :
    (row.map fun field => (rename field.1, field.2)).lookup name =
      (row.find? fun field => rename field.1 == name).map Prod.snd := by
  induction row with
  | nil => rfl
  | cons field row ih =>
    rw [List.map_cons, List.lookup_cons, List.find?_cons, ih, BEq.comm]
    cases rename field.1 == name <;> rfl

/-- Of fields that get one name, the last one is kept. -/
theorem renames_ofList (rename : String → String) (row : Fields) :
    Renames rename row (Fields.ofList (row.map fun field => (rename field.1, field.2))) := by
  have keys : (row.map fun field => (rename field.1, field.2)).map Prod.fst =
      row.map fun field => rename field.1 := List.map_map
  refine ⟨?_, fun name => ?_, fun apart => ?_, ?_⟩
  · rw [Fields.keys_ofList, keys]
  · rw [Fields.get?_ofList, ← List.map_reverse, lookup_map_eq_find?]
  · apply Fields.ofList_of_distinct
    rwa [Fields.Distinct, keys]
  · have many := Fields.length_ofList_iff (row.map fun field => (rename field.1, field.2))
    rwa [List.length_map, Fields.Distinct, keys] at many

/-- So a row is renamed by its mapping, and what is no row stays. -/
theorem renamed_renameRow {params : Params} (distinct : params.KeysDistinct) (row : Json) :
    Renamed (newName params) row (renameRow (newNames params) row) := by
  cases row with
  | object row =>
    have names (k : String) : ((newNames params).lookup k).getD k = newName params k := by
      rw [lookup_newNames distinct, newName]
    simp only [renameRow, names]
    exact .object (renames_ofList _ row)
  | _ => exact .other rfl

/-- **Renaming keeps the fields whose new names are different.** Renaming a list of rows succeeds, and
gives as many rows. An object has each new name of its fields once, at the place of the first field
that gets it and with the value of the last. So if these names are all different, it has as many
fields, in the same order, each with its value under its new name; and otherwise it has not as many. A
row that is no object stays as it is. -/
theorem rename_keeps_fields_of_different_names {params : Params} (distinct : params.KeysDistinct)
    (rows : List Json) :
    ∃ out, rename params (.array rows) = .ok (.array out) ∧
      List.Forall₂ (Renamed (newName params)) rows out :=
  ⟨_, rfl, List.forall₂_map_right_iff.mpr
    (List.forall₂_same.mpr fun row _ => renamed_renameRow distinct row)⟩

/-- A point and a text. -/
def points : List Json :=
  [.object [("x", .ofNat 1), ("y", .ofNat 2)],
   .string "origin"]

/-- The two names of a point are exchanged, and no field is lost. -/
theorem points_are_turned :
    Fields.KeysDistinct [("x", .string "y"), ("y", .string "x")] ∧
    ∃ fields, rename [("x", .string "y"), ("y", .string "x")] (.array points) =
        .ok (.array [.object fields, .string "origin"]) ∧
      fields = [("y", .ofNat 1), ("x", .ofNat 2)] := by
  have distinct : Fields.KeysDistinct [("x", .string "y"), ("y", .string "x")] := by decide
  obtain ⟨out, ran, each⟩ := rename_keeps_fields_of_different_names distinct points
  cases each with
  | cons point rest =>
    cases point with
    | other other => cases other
    | object renames =>
      cases rest with
      | cons text rest =>
        cases rest
        cases text
        exact ⟨distinct, _, ran, renames.whole (by decide)⟩

/-- Two fields that get one name become one field, and an argument that begins with an underscore says
no name. -/
theorem points_are_flattened :
    rename [("x", .string "y")] (.array points) =
      .ok (.array [.object [("y", .ofNat 2)], .string "origin"]) ∧
    rename [("_a", .string "c")] (.array [.object [("_a", .null)]]) =
      .ok (.array [.object [("_a", .null)]]) :=
  ⟨rfl, rfl⟩

end Rows

end Pipework
