import Pipework.Proofs.Rows.Sorted

/-!
# Extremes stand first

The least and the greatest number of a field are kept on the way through the rows, as long as nothing
better comes; a sort puts the rows in order. Both compare numbers by their nearest doubles, so that
different numbers may be alike, like the whole number 5 and the double 5.0. Of such numbers the first
is kept, and a sort leaves it in front. So the extreme is the number of the row that the sort puts
first, and it is this number and no other one that is alike.
-/

namespace Pipework.Rows

/-! ## The first of the best -/

section FirstBest

variable {α β : Type} {descending : Bool}

/-- There is one first of the best. -/
theorem FirstBest.unique {key : α → Int} {xs : List α} {a b : α}
    (first : FirstBest descending key xs a) (other : FirstBest descending key xs b) : a = b := by
  obtain ⟨front, rest, rfl, before, behind⟩ := first
  obtain ⟨front', rest', split, before', behind'⟩ := other
  rcases List.append_eq_append_iff.mp split with ⟨between, rfl, ends⟩ | ⟨between, rfl, ends⟩
  · cases between with
    | nil => exact (List.cons.inj ends).1
    | cons x between =>
      -- `a` stands in front of `b`, and is no worse
      obtain ⟨rfl, rfl⟩ := List.cons.inj ends
      have worse := before' a (List.mem_append_right _ List.mem_cons_self)
      exact absurd (behind b (List.mem_append_right _ List.mem_cons_self)) worse
  · cases between with
    | nil => exact (List.cons.inj ends).1.symm
    | cons x between =>
      obtain ⟨rfl, rfl⟩ := List.cons.inj ends
      have worse := before b (List.mem_append_right _ List.mem_cons_self)
      exact absurd (behind' a (List.mem_append_right _ List.mem_cons_self)) worse

/-- The first of the best by a key of what things are mapped to is mapped to the first of the best. -/
theorem FirstBest.map {f : α → β} {key : β → Int} {xs : List α} {a : α}
    (first : FirstBest descending (fun x => key (f x)) xs a) :
    FirstBest descending key (xs.map f) (f a) := by
  obtain ⟨front, rest, rfl, before, behind⟩ := first
  refine ⟨front.map f, rest.map f, by rw [List.map_append, List.map_cons], ?_, ?_⟩
  · exact List.forall_mem_map.mpr before
  · exact List.forall_mem_map.mpr behind

end FirstBest

/-! ## Rows with numbers -/

/-- The number that a row has in a field, where an absent field counts as the whole number 0. What is
no object, or has something else in the field, has none. -/
def numberOf? (field : String) : Json → Option Number
  | .object fields =>
    match Fields.get? fields field with
    | none => some .zero
    | some (.number n) => some n
    | some _ => none
  | _ => none

/-- How large a number is when it is compared. -/
def unitsOf (n : Option Number) : Int := (n.getD .zero).toDouble.units

section Field

variable {field : String} {descending : Bool}

theorem of_numberOf?_eq_some {row : Json} {n : Number} (has : numberOf? field row = some n) :
    ∃ fields, row = .object fields ∧ sortKey field row = .number n ∧
      fieldNumber field fields = .ok n := by
  cases row with
  | object fields =>
    have same : Json.get? (.object fields) field = Fields.get? fields field := rfl
    refine ⟨fields, rfl, ?_⟩
    rw [sortKey, same, fieldNumber]
    rw [numberOf?] at has
    split at has
    next absent =>
      cases has
      rw [absent]
      exact ⟨rfl, rfl⟩
    next found =>
      cases has
      rw [found]
      exact ⟨rfl, rfl⟩
    next => cases has
  | _ => cases has

/-- The numbers that a metric of the field is taken of are those of the rows. -/
theorem exists_numbers {rows : List Json}
    (numeric : ∀ row ∈ rows, (numberOf? field row).isSome = true) :
    ∃ values, numbers (some field) (.array rows) = .ok values ∧
      rows.map (numberOf? field) = values.map some := by
  induction rows with
  | nil => exact ⟨[], rfl, rfl⟩
  | cons row rows ih =>
    obtain ⟨here, behind⟩ := List.forall_mem_cons.mp numeric
    obtain ⟨values, read, same⟩ := ih behind
    obtain ⟨n, has⟩ := Option.isSome_iff_exists.mp here
    obtain ⟨fields, rfl, -, counts⟩ := of_numberOf?_eq_some has
    refine ⟨n :: values, ?_, by rw [List.map_cons, List.map_cons, has, same]⟩
    rw [numbers] at read ⊢
    simp only [List.filterMap_cons, Json.object?, List.mapM_cons, counts, read]
    rfl

theorem mayPrecede_number (a b : Number) : MayPrecede descending (.number a) (.number b) ↔
    Precedes descending a.toDouble.units b.toDouble.units := by
  rw [MayPrecede, Precedes, ← isLE_sortOrder, ← isLE_sortOrder, isLE_sortOrder_number,
    isLE_sortOrder_number]

/-- Rows with numbers are in order if their numbers are. -/
theorem mayPrecede_iff {a b : Json} (left : (numberOf? field a).isSome = true)
    (right : (numberOf? field b).isSome = true) :
    MayPrecede descending (sortKey field a) (sortKey field b) ↔
      Precedes descending (unitsOf (numberOf? field a)) (unitsOf (numberOf? field b)) := by
  obtain ⟨m, has⟩ := Option.isSome_iff_exists.mp left
  obtain ⟨n, has'⟩ := Option.isSome_iff_exists.mp right
  obtain ⟨-, -, key, -⟩ := of_numberOf?_eq_some has
  obtain ⟨-, -, key', -⟩ := of_numberOf?_eq_some has'
  rw [key, key', has, has']
  exact mayPrecede_number m n

theorem tied_iff_mayPrecede (descending : Bool) {a b : Json} :
    Tied a b ↔ MayPrecede descending a b ∧ MayPrecede descending b a := by
  unfold Tied MayPrecede
  cases descending
  · exact and_comm
  · exact Iff.rfl

/-- The row that a sort puts first is the first of the best. -/
theorem Sorts.firstBest {rows rest : List Json} {first : Json}
    (sorts : Sorts field descending rows (first :: rest))
    (numeric : ∀ row ∈ rows, (numberOf? field row).isSome = true) :
    FirstBest descending (fun row => unitsOf (numberOf? field row)) rows first := by
  have mem : first ∈ rows := sorts.perm.subset List.mem_cons_self
  have precedes : ∀ row ∈ rows,
      Precedes descending (unitsOf (numberOf? field first)) (unitsOf (numberOf? field row)) := by
    intro row there
    rcases List.mem_cons.mp (sorts.perm.symm.subset there) with rfl | behind
    · exact precedes_refl _ _
    · have ordered := (List.pairwise_cons.mp sorts.ordered).1 row behind
      exact (mayPrecede_iff (numeric first mem) (numeric row there)).mp ordered
  -- Of the rows that are tied with it, it stands first in the list as it does when sorted.
  have self : Tied (sortKey field first) (sortKey field first) :=
    sortOrder_eq_eq.mp (sortOrder_self _)
  have tied := sorts.stable (sortKey field first)
  rw [List.filter_cons, if_pos (decide_eq_true self), eq_comm, List.filter_eq_cons_iff] at tied
  obtain ⟨front, back, rfl, apart, -, -⟩ := tied
  refine ⟨front, back, rfl, ?_, ?_⟩
  · intro row there precedes'
    have there' := List.mem_append_left (first :: back) there
    apply apart row there
    rw [decide_eq_true_eq, tied_iff_mayPrecede descending,
      mayPrecede_iff (numeric row there') (numeric first mem),
      mayPrecede_iff (numeric first mem) (numeric row there')]
    exact ⟨precedes', precedes row there'⟩
  · intro row there
    exact precedes row (List.mem_append_right _ (List.mem_cons_of_mem _ there))

/-- **Extremes are what sorting puts first.** Let each of these rows be an object with a number in the
field, or without the field. Sorting by the field succeeds, and so does the metric of the field: the
greatest number if the sort is descending, and the least if it is ascending. The metric is exactly the
number of the row that the sort puts first, whole or double as it is there. -/
theorem extremes_stand_first {rows : List Json} (nonempty : rows ≠ [])
    (numeric : ∀ row ∈ rows, (numberOf? field row).isSome = true) {sorting measuring : Params}
    (byField : sortField sorting = .ok field) (ofField : metricField measuring = some field) :
    ∃ first rest n, sort sorting (.array rows) = .ok (.array (first :: rest)) ∧
      numberOf? field first = some n ∧
      aggregate (extremeMetric (isDescending sorting)) measuring (.array rows) =
        .ok (.number n) := by
  have sorts : Sorts field (isDescending sorting) rows (sortBy field (isDescending sorting) rows) :=
    sorts_sortBy rows
  obtain ⟨first, rest, sorted⟩ : ∃ first rest, sortBy field (isDescending sorting) rows =
      first :: rest := by
    apply List.exists_cons_of_ne_nil
    intro empty
    rw [empty] at sorts
    exact nonempty sorts.perm.nil_eq.symm
  rw [sorted] at sorts
  obtain ⟨values, read, same⟩ := exists_numbers numeric
  obtain ⟨n, ns, rfl⟩ : ∃ n ns, values = n :: ns := by
    apply List.exists_cons_of_ne_nil
    intro empty
    rw [empty] at same
    exact nonempty (List.map_eq_nil_iff.mp same)
  obtain ⟨best, found, kept⟩ := exists_extreme (isDescending sorting) n ns
  -- Among the numbers of the rows, both are the first of the best.
  have ofRow := (sorts.firstBest numeric).map
  have ofNumbers : FirstBest (isDescending sorting) unitsOf ((n :: ns).map some) (some best) :=
    FirstBest.map kept
  rw [same] at ofRow
  refine ⟨first, rest, best, ?_, ofRow.unique ofNumbers, ?_⟩
  · rw [sort_of_sortField byField, sorted]
  · rw [aggregate, ofField, read]
    exact congrArg Except.ok found

end Field

/-- The number 5 as a double. -/
def five : Double := ⟨false, 5629499534213120, 1024, by decide, by decide, by decide⟩

/-- Gauges that read 5, as a double and as a whole number, and one that reads nothing. -/
def gauges : List Json := [
  .object [("id", .string "a"), ("n", .number (.double five))],
  .object [("id", .string "b"), ("n", .ofNat 5)],
  .object [("id", .string "c")]]

/-- What is greatest is the double, and so it is the number that stands first when the gauges are sorted
down. What is least is the number that counts for nothing. -/
theorem gauges_stand_first :
    gauges ≠ [] ∧ (∀ row ∈ gauges, (numberOf? "n" row).isSome = true) ∧
    sortField [("by", .string "n"), ("order", .string "desc")] = .ok "n" ∧
    metricField [("field", .string "n")] = some "n" ∧
    (∃ first rest, sort [("by", .string "n"), ("order", .string "desc")] (.array gauges) =
        .ok (.array (first :: rest)) ∧ numberOf? "n" first = some (.double five)) ∧
    ∃ first rest, sort [("by", .string "n")] (.array gauges) = .ok (.array (first :: rest)) ∧
      numberOf? "n" first = some .zero := by
  have nonempty : gauges ≠ [] := by
    unfold gauges
    decide
  have numeric : ∀ row ∈ gauges, (numberOf? "n" row).isSome = true := by
    unfold gauges
    decide
  have same : (Number.ofNat 5).toDouble.cmp (Number.double five).toDouble = .eq := by decide +kernel
  have less : Number.zero.toDouble.cmp (Number.double five).toDouble = .lt := by decide +kernel
  have greatest : Metric.max.of [.double five, .ofNat 5, .zero] = .number (.double five) := by
    simp only [Metric.of, extreme, List.foldl_cons, List.foldl_nil, same, less, beq_iff_eq,
      reduceCtorEq, ↓reduceIte]
  have least : Metric.min.of [.double five, .ofNat 5, .zero] = .number .zero := by
    simp only [Metric.of, extreme, List.foldl_cons, List.foldl_nil, same, less, beq_iff_eq,
      reduceCtorEq, ↓reduceIte]
  have descending : sortField [("by", .string "n"), ("order", .string "desc")] = .ok "n" := rfl
  have ascending : sortField [("by", .string "n")] = .ok "n" := rfl
  have ofField : metricField [("field", .string "n")] = some "n" := rfl
  refine ⟨nonempty, numeric, descending, ofField, ?_, ?_⟩
  · obtain ⟨first, rest, n, ran, has, found⟩ :=
      extremes_stand_first nonempty numeric descending ofField
    have down : isDescending [("by", .string "n"), ("order", .string "desc")] = true := by decide
    rw [down] at found
    cases found.symm.trans (congrArg Except.ok greatest)
    exact ⟨first, rest, ran, has⟩
  · obtain ⟨first, rest, n, ran, has, found⟩ :=
      extremes_stand_first nonempty numeric ascending ofField
    cases found.symm.trans (congrArg Except.ok least)
    exact ⟨first, rest, ran, has⟩

end Pipework.Rows
