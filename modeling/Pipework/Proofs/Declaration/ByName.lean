import Pipework.Proofs.Declaration.Binding

/-!
# By position or by name

It makes no difference to a call whether a value goes to a parameter by position or by name. The
value that comes first by position may be given by name to the declaration that comes first of the
open ones, and so may all values to as many open declarations: what stands under any key of the
shaped call stays the same, and the verdict depends on nothing else.
-/

namespace Pipework.Params

variable {declarations : List Declaration} {call call' : Params}

/-- Two calls come to the same: to the same parameters, in any order, or to the same error. -/
def SameOutcome : Except AtomError Params → Except AtomError Params → Prop
  | .ok a, .ok b => a.Perm b
  | .error e, .error f => e = f
  | _, _ => False

/-- Calls with the same shape, but for the order, come to the same. -/
theorem sameOutcome_of_shape (nonempty : declarations ≠ [])
    (unnumbered : Unnumbered declarations) (distinct : call.Distinct) (distinct' : call'.Distinct)
    (same : ∀ key, (call.shape declarations).get? key = (call'.shape declarations).get? key) :
    SameOutcome (call.normalize declarations) (call'.normalize declarations) := by
  by_cases met : ∀ d ∈ declarations, d.Meets ((call.shape declarations).get? d.name)
  · rw [normalize_of_met nonempty met, normalize_of_met nonempty fun d declared =>
      same d.name ▸ met d declared]
    exact (distinct_shape unnumbered distinct).perm (distinct_shape unnumbered distinct') same
  · have problems : (call.shape declarations).problems declarations =
        (call'.shape declarations).problems declarations := by
      unfold problems
      simp only [same]
    rw [normalize_of_unmet nonempty met, normalize_of_unmet nonempty fun met' =>
      met fun d declared => same d.name ▸ met' d declared, problems]
    rfl

/-! ## The first value -/

/-- Once the first open declaration has a value by name, the others are the open ones. -/
theorem opens_of_moved (names : (declarations.map Declaration.name).Nodup)
    (unnumbered : Unnumbered declarations) {p : Declaration} {later : List Declaration} {v : Json}
    (first : call.opens declarations = p :: later) (value : v ≠ .null)
    (moved : ∀ key, positionalIndex? key = none →
      call'.get? key = if key == p.name then some v else call.get? key) :
    call'.opens declarations = later := by
  have isOpen : ∀ d ∈ declarations, call'.isOpen d = (d.name != p.name && call.isOpen d) := by
    intro d declared
    unfold isOpen
    rw [moved d.name (unnumbered d declared), bne]
    cases d.name == p.name with
    | true =>
      rw [if_pos rfl]
      split
      next absent => cases absent
      next null => exact absurd (Option.some.inj null) value
      next => rfl
    | false => rfl
  have once : (p :: later).Pairwise fun a b => a.name ≠ b.name := by
    rw [← first]
    exact (List.pairwise_map.mp names).sublist List.filter_sublist
  rw [opens, List.filter_congr isOpen, ← List.filter_filter, ← opens, first, List.filter_cons,
    bne_self_eq_false, if_neg Bool.false_ne_true, List.filter_eq_self]
  exact fun d mem => bne_iff_ne.mpr ((List.pairwise_cons.mp once).1 d mem).symm

theorem get?_shape_of_moved (names : (declarations.map Declaration.name).Nodup)
    (unnumbered : Unnumbered declarations) {p : Declaration} {later : List Declaration}
    {v : Json} {values : List Json}
    (first : call.opens declarations = p :: later) (value : v ≠ .null)
    (positionals : call.positionals = v :: values) (positionals' : call'.positionals = values)
    (moved : ∀ key, positionalIndex? key = none →
      call'.get? key = if key == p.name then some v else call.get? key) (key : String) :
    (call.shape declarations).get? key = (call'.shape declarations).get? key := by
  have taken : call.taken declarations (v :: values) =
      (p.name, v) :: call'.taken declarations values := by
    unfold Params.taken
    rw [first, opens_of_moved names unnumbered first value moved]
    rfl
  rw [get?_shape names unnumbered, get?_shape names unnumbered, positionals, positionals', taken,
    List.lookup_cons]
  cases found : key == p.name with
  | true =>
    obtain rfl := eq_of_beq found
    have declared : p ∈ declarations :=
      (List.mem_filter.mp (first ▸ List.mem_cons_self : p ∈ call.opens declarations)).1
    have untaken : (call'.taken declarations values).lookup p.name = none := by
      have once := nodup_taken names call (v :: values)
      rw [taken] at once
      rw [List.lookup_eq_none_iff]
      exact fun entry mem => bne_iff_ne.mpr fun same =>
        (List.nodup_cons.mp once).1 (List.mem_map.mpr ⟨entry, mem, same.symm⟩)
    rw [untaken, get?_named call', unnumbered p declared, moved _ (unnumbered p declared), found]
    rfl
  | false =>
    have named : call'.named.get? key = call.named.get? key := by
      rw [get?_named, get?_named]
      split
      next nameless =>
        rw [moved key (Option.isNone_iff_eq_none.mp nameless), found]
        rfl
      next => rfl
    rw [named]

/-! ## All values -/

/-- A call without arguments is its names. -/
theorem Arguments.named_eq (none : Arguments call []) : call.named = call := by
  refine List.filter_eq_self.mpr ?_
  rintro ⟨key, v⟩ mem
  rw [Option.isNone_iff_eq_none]
  refine Option.eq_none_iff_forall_ne_some.mpr fun n numbered => ?_
  have empty := (none.same n).symm
  rw [List.filter_nil, List.map_nil, List.map_eq_nil_iff, List.filter_eq_nil_iff] at empty
  exact empty (key, v) mem (beq_iff_eq.mpr numbered)

theorem get?_shape_of_all (names : (declarations.map Declaration.name).Nodup)
    (unnumbered : Unnumbered declarations) {values : List Json}
    (positionals : call.positionals = values) (positionals' : call'.positionals = [])
    (moved : ∀ key, positionalIndex? key = none →
      call'.get? key = ((call.taken declarations values).lookup key).or (call.get? key))
    (key : String) :
    (call.shape declarations).get? key = (call'.shape declarations).get? key := by
  have untaken : call'.taken declarations [] = [] := by
    rw [taken, List.zip_nil_right]
    rfl
  have named : call'.named.get? key =
      ((call.taken declarations values).lookup key).or (call.named.get? key) := by
    rw [get?_named, get?_named]
    split
    next nameless => exact moved key (Option.isNone_iff_eq_none.mp nameless)
    next numbered =>
      -- No declared name is that of an argument.
      rw [Option.or_none, eq_comm, Option.eq_none_iff_forall_ne_some]
      intro v takes
      obtain ⟨i, d, isOpen, rfl, -⟩ := (lookup_taken names).mp takes
      have declared := (List.mem_filter.mp (List.mem_of_getElem? isOpen)).1
      exact numbered (Option.isNone_iff_eq_none.mpr (unnumbered d declared))
  rw [get?_shape names unnumbered, get?_shape names unnumbered, positionals, positionals', untaken,
    named, List.lookup_nil, Option.none_or, Option.or_assoc]

/-- By position or by name, a call comes to the same. Another call gives the first value by name to
the first open declaration, in the place of a null if that stands there, and counts the other values
from zero; or it gives all values by name, each to its declaration. -/
theorem normalize_by_name (names : (declarations.map Declaration.name).Nodup)
    (unnumbered : Unnumbered declarations) (distinct : call.Distinct)
    (distinct' : call'.Distinct) :
    (∀ {n v rest p}, call.Arguments ((n, v) :: rest) → v ≠ .null →
      (call.opens declarations).head? = some p →
      call'.Arguments (rest.zipIdx.map fun (arg, i) => (i, arg.2)) →
      (∀ key, positionalIndex? key = none →
        call'.get? key = if key == p.name then some v else call.get? key) →
      SameOutcome (call.normalize declarations) (call'.normalize declarations)) ∧
    (∀ {args}, call.Arguments args → args.length ≤ (call.opens declarations).length → call'.Arguments [] →
      (∀ key, positionalIndex? key = none →
        call'.get? key =
          ((call.taken declarations (args.map (·.2))).lookup key).or (call.get? key)) →
      SameOutcome (call.normalize declarations) (call'.normalize declarations)) := by
  constructor
  · intro n v rest p arguments value first arguments' moved
    obtain ⟨later, opens⟩ := List.head?_eq_some_iff.mp first
    have nonempty : declarations ≠ [] := by
      rintro rfl
      cases opens
    have positionals' : call'.positionals = rest.map (·.2) := by
      conv_rhs => rw [← List.zipIdx_map_fst 0 rest]
      rw [arguments'.positionals, List.map_map, List.map_map]
      rfl
    exact sameOutcome_of_shape nonempty unnumbered distinct distinct'
      (get?_shape_of_moved names unnumbered opens value arguments.positionals positionals' moved)
  · intro args arguments fit arguments' moved
    by_cases empty : declarations = []
    · subst empty
      obtain rfl : args = [] := List.length_eq_zero_iff.mp (Nat.le_zero.mp fit)
      refine distinct.perm distinct' fun key => ?_
      rw [← arguments.named_eq, ← arguments'.named_eq, get?_named, get?_named]
      split
      next nameless => exact (moved key (Option.isNone_iff_eq_none.mp nameless)).symm
      next => rfl
    · exact sameOutcome_of_shape empty unnumbered distinct distinct'
        (get?_shape_of_all names unnumbered arguments.positionals arguments'.positionals moved)

/-- The order of a sort, by position and by name. -/
theorem normalize_by_name_sort :
    let declarations : List Declaration :=
      [⟨"by", .required .string, ""⟩, ⟨"order", .optional .string (.string "asc"), ""⟩]
    let call : Params := [("_arg7", .string "desc"), ("by", .string "amount")]
    let call' : Params := [("order", .string "desc"), ("by", .string "amount")]
    call.Arguments [(7, .string "desc")] ∧ call'.Arguments [] ∧
      SameOutcome (call.normalize declarations) (call'.normalize declarations) := by
  intro declarations call call'
  have arguments : call.Arguments [(7, .string "desc")] :=
    List.mergeSort_singleton (7, Json.string "desc") ▸ arguments_mergeSort call
  have arguments' : call'.Arguments [] := List.mergeSort_nil ▸ arguments_mergeSort call'
  refine ⟨arguments, arguments', ?_⟩
  refine (normalize_by_name (by decide) (by decide) (by decide) (by decide)).1 arguments nofun
    (rfl : (call.opens declarations).head? = some ⟨"order", _, _⟩) arguments' ?_
  intro key nameless
  have named : (key == "_arg7") = false := by
    rw [beq_eq_false_iff_ne]
    rintro rfl
    cases nameless
  simp only [Fields.get?, call, call', List.lookup_cons, List.lookup_nil, named]
  cases key == "order" <;> rfl

end Pipework.Params
