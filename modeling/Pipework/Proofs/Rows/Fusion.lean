import Pipework.Proofs.Json.Fields
import Pipework.Proofs.Rows.Filtering
import Pipework.Proofs.Script.Expressible

/-!
# Filters one after the other

A filter keeps the rows that survive all its arguments, each on its own. So two filters, in either
order, are one filter with the arguments of both.

The rows are the data itself, or they stand in a field of it. Which field this is depends only on what
is a list and what is not, and a filter leaves a list where it has found one. So the next filter finds
the rows in the same field, and if one filter finds no rows, none does.
-/

namespace Pipework.Rows

/-! ## Rows that survive -/

/-- What the name of an argument asks for, if it is not hidden: that the field of this name is the
same, or a relation between a field and the value. -/
inductive Asks : String → Operator → String → Prop
  | plain {key : String} (plain : Plain key) : Asks key .eq key
  | keyed (op : Operator) {field : String} (addressable : Addressable field) :
    Asks (op.key field) op field

/-- The row is an object that meets what each argument asks for, if it is not hidden. -/
def Survives (params : Params) (row : Json) : Prop :=
  ∃ fields, row = .object fields ∧ ∀ param ∈ params, ¬ Hidden param.1 →
    ∃ op field, Asks param.1 op field ∧ Meets op field param.2 row

/-- The program's condition asks for what the name of the argument does. -/
theorem holds_ofParam_iff {key : String} (visible : ¬ Hidden key) (expected : Json) (row : Fields) :
    (Condition.ofParam key expected).holds row = true ↔
      ∃ op field, Asks key op field ∧ Meets op field expected (.object row) := by
  constructor
  · intro holds
    by_cases plain : Plain key
    · rw [Condition.ofParam_whole plain.2, holds_iff_meets] at holds
      exact ⟨.eq, key, .plain plain, holds⟩
    by_cases keyed : ∃ op field, Addressable field ∧ key = Operator.key op field
    · obtain ⟨op, field, addressable, rfl⟩ := keyed
      rw [Condition.ofParam_key op addressable, holds_iff_meets] at holds
      exact ⟨op, field, .keyed op addressable, holds⟩
    -- There is no operator behind the first two underscores, so nothing holds.
    obtain ⟨field, rest, split, unknown⟩ := exists_splitKey visible plain
      fun op field addressable same => keyed ⟨op, field, addressable, same⟩
    simp only [Condition.ofParam, split, unknown, Condition.holds] at holds
    split at holds
    next none => cases none
    next => cases holds
  · intro asked
    obtain ⟨op, field, asks, meets⟩ := asked
    cases asks with
    | plain plain =>
      rw [Condition.ofParam_whole plain.2, holds_iff_meets]
      exact meets
    | keyed op addressable =>
      rw [Condition.ofParam_key op addressable, holds_iff_meets]
      exact meets

theorem meets_conditions_iff (params : Params) (row : Json) :
    meets (conditions params) row = true ↔ Survives params row := by
  cases row with
  | object row =>
    have each : meets (conditions params) (.object row) = true ↔ ∀ param ∈ params,
        ¬ Hidden param.1 → (Condition.ofParam param.1 param.2).holds row = true := by
      simp only [meets, conditions, plainParams, List.all_map, List.all_eq_true, List.mem_filter,
        Function.comp_apply, bne_iff_ne, and_imp, Hidden, ne_eq]
    rw [each]
    constructor
    · intro holds
      refine ⟨row, rfl, fun param mem visible => ?_⟩
      exact (holds_ofParam_iff visible param.2 row).mp (holds param mem visible)
    · intro survives param mem visible
      obtain ⟨_, -, asked⟩ := survives
      exact (holds_ofParam_iff visible param.2 row).mpr (asked param mem visible)
  | _ =>
    refine iff_of_false Bool.false_ne_true fun survives => ?_
    obtain ⟨_, object, -⟩ := survives
    cases object

instance (params : Params) : DecidablePred (Survives params) := fun row =>
  decidable_of_iff _ (meets_conditions_iff params row)

theorem keep_conditions (params : Params) (rows : List Json) :
    keep (conditions params) rows = rows.filter fun row => Survives params row := by
  apply List.filter_congr
  intro row _
  rw [Bool.eq_iff_iff, meets_conditions_iff, decide_eq_true_eq]

/-- A row survives the arguments of both calls if it survives those of each. -/
theorem survives_both {p q both : Params} (entries : both.Perm (p ++ q)) (row : Json) :
    Survives both row ↔ Survives p row ∧ Survives q row := by
  constructor
  · intro survives
    obtain ⟨fields, object, asked⟩ := survives
    have mem {param : String × Json} (mem : param ∈ p ++ q) : param ∈ both :=
      entries.mem_iff.mpr mem
    exact ⟨⟨fields, object, fun param there => asked param (mem (List.mem_append_left _ there))⟩,
      fields, object, fun param there => asked param (mem (List.mem_append_right _ there))⟩
  · intro survives
    obtain ⟨⟨fields, object, asked⟩, _, -, asked'⟩ := survives
    refine ⟨fields, object, fun param mem => ?_⟩
    rcases List.mem_append.mp (entries.mem_iff.mp mem) with there | there
    · exact asked param there
    · exact asked' param there

/-! ## The field that holds the rows -/

/-- There is a list in the field. -/
def ListAt (fields : Fields) (key : String) : Prop :=
  ∃ rows, fields.get? key = some (.array rows)

/-- The field holds the rows of an object: it is the first known one that is a list, or, if none is, the
only list there is. -/
inductive HoldsRows (fields : Fields) (key : String) : Prop
  | known {front back : List String} (split : rowFields = front ++ key :: back)
    (list : ListAt fields key) (first : ∀ k ∈ front, ¬ ListAt fields k)
  | only (unknown : ∀ k ∈ rowFields, ¬ ListAt fields k) (list : ListAt fields key)
    (only : ∀ k, ListAt fields k → k = key)

theorem any_isList_iff {fields : Fields} {key : String} :
    (fields.get? key).any isList = true ↔ ListAt fields key := by
  unfold ListAt
  cases fields.get? key with
  | none => exact iff_of_false nofun nofun
  | some v =>
    cases v with
    | array rows => exact iff_of_true rfl ⟨rows, rfl⟩
    | _ => exact iff_of_false nofun nofun

section Fields

variable {fields : Fields} {key : String}

/-- One field is a list exactly if there is only one key with a list. -/
theorem filter_isList_iff (distinct : fields.Distinct) :
    (∃ v, (fields.filter fun (_, v) => isList v) = [(key, v)]) ↔
      ListAt fields key ∧ ∀ k, ListAt fields k → k = key := by
  have list_iff (k : String) : ListAt fields k ↔
      k ∈ (fields.filter fun (_, v) => isList v).map Prod.fst := by
    constructor
    · intro list
      obtain ⟨rows, found⟩ := list
      have mem := (lookup_eq_some_of_nodup distinct).mp found
      exact List.mem_map.mpr ⟨_, List.mem_filter.mpr ⟨mem, rfl⟩, rfl⟩
    · intro mem
      obtain ⟨⟨k, v⟩, there, rfl⟩ := List.mem_map.mp mem
      obtain ⟨there, list⟩ := List.mem_filter.mp there
      have found : fields.get? k = some v := (lookup_eq_some_of_nodup distinct).mpr there
      cases v with
      | array rows => exact ⟨rows, found⟩
      | _ => cases list
  have once : ((fields.filter fun (_, v) => isList v).map Prod.fst).Nodup :=
    distinct.sublist (List.filter_sublist.map _)
  simp only [list_iff]
  generalize fields.filter (fun (_, v) => isList v) = lists at once
  constructor
  · intro one
    obtain ⟨v, rfl⟩ := one
    exact ⟨List.mem_cons_self, fun k mem => List.mem_singleton.mp mem⟩
  · intro one
    obtain ⟨mem, only⟩ := one
    match lists with
    | [] => cases mem
    | [(k, v)] => exact ⟨v, by rw [only k List.mem_cons_self]⟩
    | (k, _) :: (k', _) :: _ =>
      have same : k = k' := (only k List.mem_cons_self).trans
        (only k' (List.mem_cons_of_mem _ List.mem_cons_self)).symm
      subst same
      exact absurd List.mem_cons_self (List.nodup_cons.mp once).1

/-- The program finds the field that holds the rows. -/
theorem rowsKey?_eq_some_iff (distinct : fields.Distinct) :
    rowsKey? fields = some key ↔ HoldsRows fields key := by
  have known_iff (k : String) : (rowFields.find? fun k => (fields.get? k).any isList) = some k ↔
      ListAt fields k ∧ ∃ front back, rowFields = front ++ k :: back ∧
        ∀ k ∈ front, ¬ ListAt fields k := by
    simp only [List.find?_eq_some_iff_append, Bool.not_eq_true', ← Bool.not_eq_true, any_isList_iff]
  unfold rowsKey?
  split
  next k found =>
    obtain ⟨list, front, back, split, first⟩ := (known_iff k).mp found
    constructor
    · intro same
      cases same
      exact .known split list first
    · intro holds
      cases holds with
      | known split' list' first' =>
        exact found.symm.trans ((known_iff key).mpr ⟨list', _, _, split', first'⟩)
      | only unknown =>
        exact absurd list (unknown k (split ▸ List.mem_append_right _ List.mem_cons_self))
  next none =>
    have unknown : ∀ k ∈ rowFields, ¬ ListAt fields k := fun k mem list =>
      List.find?_eq_none.mp none k mem (any_isList_iff.mpr list)
    split
    next k v one =>
      obtain ⟨list, only⟩ := (filter_isList_iff distinct).mp ⟨v, one⟩
      constructor
      · intro same
        cases same
        exact .only unknown list only
      · intro holds
        cases holds with
        | known split list' =>
          exact absurd list' (unknown key (split ▸ List.mem_append_right _ List.mem_cons_self))
        | only _ list' => rw [only key list']
    next other =>
      refine iff_of_false nofun fun holds => ?_
      cases holds with
      | known split list =>
        exact absurd list (unknown key (split ▸ List.mem_append_right _ List.mem_cons_self))
      | only _ list only =>
        obtain ⟨v, one⟩ := (filter_isList_iff distinct).mpr ⟨list, only⟩
        exact other key v one

/-- Only what is a list decides. -/
theorem HoldsRows.congr {fields' : Fields} (same : ∀ k, ListAt fields k ↔ ListAt fields' k)
    (holds : HoldsRows fields key) : HoldsRows fields' key := by
  cases holds with
  | known split list first =>
    exact .known split ((same key).mp list) fun k mem list => first k mem ((same k).mpr list)
  | only unknown list only =>
    exact .only (fun k mem list => unknown k mem ((same k).mpr list)) ((same key).mp list)
      fun k list => only k ((same k).mpr list)

end Fields

/-! ## Data that holds rows -/

/-- The data holds these rows, as a list or in a field of an object; with others in their place it is
what the function makes of these. -/
inductive Holds : Json → List Json → (List Json → Json) → Prop
  | list (rows : List Json) : Holds (.array rows) rows .array
  | envelope {front back : Fields} {key : String} {rows : List Json}
    (holds : HoldsRows (front ++ (key, .array rows) :: back) key) :
    Holds (.object (front ++ (key, .array rows) :: back)) rows
      fun rows => .object (front ++ (key, .array rows) :: back)

/-- Of the rows that the data holds those are left that survive, in their order, and all else is as it
was. -/
def Filtered (params : Params) (data out : Json) : Prop :=
  ∃ rows put, Holds data rows put ∧ out = put (rows.filter fun row => Survives params row)

section Data

variable {data : Json} {rows : List Json} {put : List Json → Json}

/-- With other rows in their place, the data holds these. -/
theorem Holds.replace (holds : Holds data rows put) (rows' : List Json) :
    Holds (put rows') rows' put := by
  cases holds with
  | list => exact .list rows'
  | @envelope front back key rows holds =>
    refine .envelope (holds.congr fun k => ?_)
    unfold ListAt
    simp only [Fields.get?, List.lookup_append, List.lookup_cons]
    cases front.lookup k with
    | some v => exact Iff.rfl
    | none =>
      cases k == key with
      | true => exact iff_of_true ⟨rows, rfl⟩ ⟨rows', rfl⟩
      | false => exact Iff.rfl

theorem Holds.keysApart (holds : Holds data rows put) (apart : data.KeysApart)
    (rows' : List Json) : (put rows').KeysApart := by
  cases holds with
  | list => trivial
  | @envelope front back key rows =>
    have keys (rows : List Json) : (front ++ (key, Json.array rows) :: back).map Prod.fst =
        front.map Prod.fst ++ key :: back.map Prod.fst := by rw [List.map_append, List.map_cons]
    have distinct : ((front ++ (key, Json.array rows) :: back).map Prod.fst).Nodup := apart
    show ((front ++ (key, Json.array rows') :: back).map Prod.fst).Nodup
    rw [keys] at distinct ⊢
    exact distinct

theorem filter_of_holds (apart : data.KeysApart) (holds : Holds data rows put) (params : Params) :
    filter params data = .ok (put (rows.filter fun row => Survives params row)) := by
  rw [← keep_conditions]
  cases holds with
  | list => rfl
  | @envelope front back key rows holds =>
    have distinct : Fields.Distinct (front ++ (key, .array rows) :: back) := apart
    have new : key ∉ front.map Prod.fst := by
      intro known
      rw [Fields.Distinct, List.map_append, List.map_cons] at distinct
      exact (List.nodup_append.mp distinct).2.2 key known key List.mem_cons_self rfl
    have chosen := (rowsKey?_eq_some_iff distinct).mpr holds
    have found : Fields.get? (front ++ (key, .array rows) :: back) key = some (.array rows) :=
      (lookup_eq_some_of_nodup distinct).mpr (List.mem_append_right _ List.mem_cons_self)
    simp only [filter, chosen, found, Fields.insert_between new]

/-- Where no rows are held, every filter fails, and all alike. -/
theorem filter_of_not_holds (apart : data.KeysApart) (none : ∀ rows put, ¬ Holds data rows put) :
    ∃ e, ∀ params, filter params data = .error e := by
  cases data with
  | array rows => exact absurd (.list rows) (none rows _)
  | object fields =>
    have unchosen : rowsKey? fields = Option.none := by
      refine Option.eq_none_iff_forall_ne_some.mpr fun key chosen => ?_
      have holds := (rowsKey?_eq_some_iff apart).mp chosen
      obtain ⟨rows, found⟩ : ListAt fields key := by
        cases holds <;> assumption
      obtain ⟨front, back, rfl, -⟩ := List.lookup_eq_some_iff.mp found
      exact none rows _ (.envelope holds)
    exact ⟨_, fun params => by simp only [filter, unchosen]; rfl⟩
  | _ => exact ⟨_, fun _ => rfl⟩

/-- A filter after a filter is one filter with the arguments of both. -/
theorem filter_filter (apart : data.KeysApart) {p q both : Params} (entries : both.Perm (p ++ q)) :
    (filter p data >>= filter q) = filter both data := by
  by_cases held : ∃ rows put, Holds data rows put
  · obtain ⟨rows, put, holds⟩ := held
    rw [filter_of_holds apart holds, filter_of_holds apart holds]
    refine (filter_of_holds (holds.keysApart apart _) (holds.replace _) q).trans ?_
    simp only [List.filter_filter, survives_both entries, Bool.decide_and, Bool.and_comm]
  · obtain ⟨e, fails⟩ := filter_of_not_holds apart fun rows put holds => held ⟨rows, put, holds⟩
    rw [fails, fails]
    rfl

theorem filter_eq_ok_iff (apart : data.KeysApart) (params : Params) (out : Json) :
    filter params data = .ok out ↔ Filtered params data out := by
  constructor
  · intro ran
    by_cases held : ∃ rows put, Holds data rows put
    · obtain ⟨rows, put, holds⟩ := held
      rw [filter_of_holds apart holds] at ran
      exact ⟨rows, put, holds, (Except.ok.inj ran).symm⟩
    · obtain ⟨e, fails⟩ := filter_of_not_holds apart fun rows put holds => held ⟨rows, put, holds⟩
      rw [fails] at ran
      cases ran
  · intro filtered
    obtain ⟨rows, put, holds, rfl⟩ := filtered
    exact filter_of_holds apart holds params

end Data

/-- **Filters fuse, and commute.** Two filters of any data, in either order, do the same as one filter
with the arguments of both: they give the same, or they fail. What they give is the data with those of
its rows that survive, in their order, and with everything else as it was. -/
theorem filters_fuse_and_commute {data : Json} (apart : data.KeysApart) {p q both : Params}
    (entries : both.Perm (p ++ q)) :
    (filter p data >>= filter q) = filter both data ∧
    (filter q data >>= filter p) = filter both data ∧
    ∀ out, filter both data = .ok out ↔ Filtered both data out :=
  ⟨filter_filter apart entries, filter_filter apart (entries.trans List.perm_append_comm),
    filter_eq_ok_iff apart both⟩

/-- Bookings in an object that has another list too. -/
def statement (bookings : List Json) : Json := .object [
  ("notes", .array [.string "draft"]),
  ("items", .array bookings),
  ("source", .string "erp")]

/-- Three bookings and their total. -/
def bookings : List Json := [
  .object [("year", .ofNat 2024), ("region", .string "EU")],
  .object [("year", .ofNat 2023), ("region", .string "EU")],
  .object [("year", .ofNat 2024), ("region", .string "US")],
  .string "total"]

/-- The year of a booking. -/
def ofYear : Params := [("year", .ofNat 2024), ("_0", .null)]

/-- The region of a booking. -/
def ofRegion : Params := [("region__in", .array [.string "EU"])]

/-- By year and then by region, or the other way round, one booking is left, and the notes stay. -/
theorem bookings_are_filtered :
    (statement bookings).KeysApart ∧
    [("year", .ofNat 2024), ("region__in", .array [.string "EU"]), ("_0", .null)].Perm
      (ofYear ++ ofRegion) ∧
    (filter ofYear (statement bookings) >>= filter ofRegion) =
      .ok (statement (bookings.take 1)) ∧
    (filter ofRegion (statement bookings) >>= filter ofYear) =
      .ok (statement (bookings.take 1)) := by
  have apart : (statement bookings).KeysApart := by
    unfold statement
    decide
  have entries : [("year", Json.ofNat 2024), ("region__in", .array [.string "EU"]), ("_0", .null)].Perm
      (ofYear ++ ofRegion) := .cons _ (.swap _ _ _)
  have both : filter [("year", .ofNat 2024), ("region__in", .array [.string "EU"]), ("_0", .null)]
      (statement bookings) = .ok (statement (bookings.take 1)) := rfl
  obtain ⟨fused, commuted, -⟩ := filters_fuse_and_commute apart entries
  exact ⟨apart, entries, fused.trans both, commuted.trans both⟩

end Pipework.Rows
