import Pipework.Proofs.Bindings
import Pipework.Proofs.Rows.Fusion

/-!
# Fields that are selected, and conditions on them

Selecting takes fields out of rows and filtering takes rows out of a list. What is no object passes a
selection as it is and no filter, and a row without the field of a condition does not meet it. So the
two commute as long as the conditions are on fields that the selection keeps: a row has the same value
in such a field, or none, before and after.

Which field a condition is on is read from its key alone, whatever stands behind the first two
underscores of it (`OnField`); an operator that does not exist is met by no row, selected or not.
-/

namespace Pipework.Rows

/-! ## Keys of conditions -/

/-- The key is the name of the field, without two underscores in a row, or the name stands in front of
the first two underscores of it. -/
inductive OnField : String → String → Prop
  | whole {key : String} (whole : ¬ ['_', '_'] <:+: key.toList) : OnField key key
  | split {field : String} (first : ¬ ['_', '_'] <:+: field.toList ++ ['_']) (rest : String) :
    OnField (field ++ "__" ++ rest) field

/-- The field of a condition is the one that its key is on. -/
theorem onField_iff {key field : String} (expected : Json) :
    OnField key field ↔ (Condition.ofParam key expected).field = field := by
  constructor
  · intro on
    cases on with
    | whole whole => rw [Condition.ofParam_whole whole]
    | split first rest =>
      have begun := splitKey_begun rest.toList ((splitKey_eq_none_iff _).mpr first)
      have key : (field ++ "__" ++ rest).toList = field.toList ++ ['_'] ++ '_' :: rest.toList := by
        simp only [String.toList_append, List.append_assoc]
        rfl
      simp only [Condition.ofParam, key, begun, String.ofList_toList]
  · rintro rfl
    cases found : splitKey key.toList with
    | none =>
      have whole := (splitKey_eq_none_iff _).mp found
      rw [Condition.ofParam_whole whole]
      exact .whole whole
    | some parts =>
      obtain ⟨field, rest⟩ := parts
      obtain ⟨text, none⟩ := eq_of_splitKey found
      have key : key = String.ofList field ++ "__" ++ String.ofList rest := by
        rw [← String.toList_inj, text]
        simp only [String.toList_append, String.toList_ofList, List.append_assoc]
        rfl
      have first : ¬ ['_', '_'] <:+: (String.ofList field).toList ++ ['_'] := by
        rw [String.toList_ofList]
        exact (splitKey_eq_none_iff _).mp none
      have on := OnField.split first (String.ofList rest)
      rw [← key] at on
      simpa only [Condition.ofParam, found] using on

/-! ## Selected fields -/

/-- The parameters of a selection list these names: as a list of texts, as one text, or not at all. -/
inductive Lists (params : Params) : List String → Prop
  | nothing (missing : params.get? "fields" = none) : Lists params []
  | one {name : String} (text : params.get? "fields" = some (.string name)) : Lists params [name]
  | many {names : List String} (texts : params.get? "fields" = some (.array (names.map .string))) :
    Lists params names

/-- The row is an object, and of its fields the listed ones are left. -/
def Narrowed (names : List String) (row narrow : Json) : Prop :=
  ∃ fields : Fields, row = .object fields ∧
    narrow = .object (fields.filter fun field => field.1 ∈ names)

section Select

variable {choice params : Params} {names : List String}

theorem textList_of_texts (names : List String) : textList (.array (names.map .string)) = .ok names := by
  rw [textList]
  induction names with
  | nil => rfl
  | cons name names ih =>
    rw [List.map_cons, List.mapM_cons, ih]
    rfl

/-- A selection succeeds on every list of rows, and changes each row on its own. -/
theorem select_of_lists (lists : Lists choice names) (rows : List Json) :
    select choice (.array rows) = .ok (.array (rows.map (selectRow names))) := by
  cases lists with
  | nothing missing => simp only [select, missing]; rfl
  | one text => simp only [select, text]; rfl
  | many texts => simp only [select, texts, textList_of_texts]; rfl

theorem narrowed_selectRow (fields : Fields) :
    Narrowed names (.object fields) (selectRow names (.object fields)) := by
  refine ⟨fields, rfl, ?_⟩
  simp only [selectRow, List.contains_eq_mem]

/-- A condition on a listed field is met after a selection if it is met before. -/
theorem holds_selected {condition : Condition} (listed : condition.field ∈ names) (row : Fields) :
    condition.holds (row.filter fun field => names.contains field.1) = condition.holds row := by
  have kept := lookup_filter (fun name => names.contains name) condition.field row
  rw [if_pos (List.contains_iff_mem.mpr listed)] at kept
  simp only [Condition.holds, Fields.get?, kept]

/-- The arguments of a filter that are not hidden are all on listed fields. -/
def OnListed (params : Params) (names : List String) : Prop :=
  ∀ param ∈ params, ¬ Hidden param.1 → ∃ field ∈ names, OnField param.1 field

theorem OnListed.field_mem (listed : OnListed params names) {condition : Condition}
    (mem : condition ∈ conditions params) : condition.field ∈ names := by
  obtain ⟨param, plain, rfl⟩ := List.mem_map.mp mem
  obtain ⟨mem, visible⟩ := List.mem_filter.mp plain
  obtain ⟨field, listed, on⟩ := listed param mem (bne_iff_ne.mp visible)
  rwa [(onField_iff param.2).mp on]

/-- With all conditions on listed fields, a selected row meets them if the whole row does. -/
theorem meets_selectRow (listed : OnListed params names) (row : Json) :
    meets (conditions params) (selectRow names row) = meets (conditions params) row := by
  cases row with
  | object row =>
    rw [Bool.eq_iff_iff]
    simp only [selectRow, meets, List.all_eq_true]
    refine forall₂_congr fun condition mem => ?_
    rw [holds_selected (listed.field_mem mem) row]
  | _ => rfl

/-- **Selecting and filtering commute** on every list of rows, if every condition of the filter is on a
listed field. In either order both succeed, and give the same list: of the rows that survive the
filter, in their order, the listed fields, in theirs. -/
theorem selecting_and_filtering_commute (lists : Lists choice names)
    (listed : OnListed params names) (rows : List Json) :
    ∃ out, (select choice (.array rows) >>= filter params) = .ok (.array out) ∧
      (filter params (.array rows) >>= select choice) = .ok (.array out) ∧
      List.Forall₂ (Narrowed names) (rows.filter fun row => Survives params row) out := by
  refine ⟨(keep (conditions params) rows).map (selectRow names), ?_, ?_, ?_⟩
  · rw [select_of_lists lists]
    have filtered : keep (conditions params) (rows.map (selectRow names)) =
        (keep (conditions params) rows).map (selectRow names) := by
      rw [keep, keep, List.filter_map]
      exact congrArg _ (List.filter_congr fun row _ => meets_selectRow listed row)
    exact congrArg (fun rows => Except.ok (Json.array rows)) filtered
  · exact select_of_lists lists (keep (conditions params) rows)
  · rw [keep_conditions, List.forall₂_map_right_iff, List.forall₂_same]
    intro row mem
    obtain ⟨fields, rfl, -⟩ := of_decide_eq_true (List.mem_filter.mp mem).2
    exact narrowed_selectRow fields

end Select

/-- Parcels, one that is not due, and a note. -/
def parcels : List Json := [
  .object [("to", .string "Oslo"), ("due", .string "2024-05"), ("_id", .ofNat 1)],
  .object [("due", .string "2024-03"), ("to", .string "Oslo")],
  .string "Oslo",
  .object [("to", .string "Oslo")],
  .object [("_id", .ofNat 5), ("due", .string "2024-06"), ("to", .string "Rome")]]

/-- Where parcels go to, and when they are due. -/
def directions : Params := [("fields", .array [.string "due", .string "to"])]

/-- Parcels to one place that are due after April; the number is hidden. -/
def lateToOslo : Params :=
  [("due__gt", .string "2024-04"), ("to", .string "Oslo"), ("_id", .ofNat 5)]

/-- In either order, one parcel is left without its number. -/
theorem parcels_are_selected :
    Lists directions ["due", "to"] ∧ OnListed lateToOslo ["due", "to"] ∧
    ∃ out, (select directions (.array parcels) >>= filter lateToOslo) = .ok (.array out) ∧
      (filter lateToOslo (.array parcels) >>= select directions) = .ok (.array out) ∧
      out = [.object [("to", .string "Oslo"), ("due", .string "2024-05")]] := by
  have lists : Lists directions ["due", "to"] := .many rfl
  have listed : OnListed lateToOslo ["due", "to"] := by
    intro param mem visible
    rcases List.mem_cons.mp mem with rfl | mem
    · exact ⟨"due", List.mem_cons_self, @OnField.split "due" (by decide) "gt"⟩
    rcases List.mem_cons.mp mem with rfl | mem
    · exact ⟨"to", List.mem_cons_of_mem _ List.mem_cons_self, .whole (by decide)⟩
    obtain rfl := List.mem_singleton.mp mem
    exact absurd rfl visible
  obtain ⟨out, first, second, -⟩ := selecting_and_filtering_commute lists listed parcels
  have run : (select directions (.array parcels) >>= filter lateToOslo) =
      .ok (.array [.object [("to", .string "Oslo"), ("due", .string "2024-05")]]) := rfl
  exact ⟨lists, listed, out, first, second, Json.array.inj (Except.ok.inj (first.symm.trans run))⟩

end Pipework.Rows
