import Pipework.Proofs.Declaration.Arguments

/-!
# What a call becomes

The declarations of an atom make of a call one set of parameters, `Bound`: the open declarations
take the values without a name in order, absent optional parameters have their defaults, and all
else is as the call names it. The call passes exactly when these parameters meet the declarations,
and otherwise its error has one line for each declaration that is not met.

What stands under a key of the result is one formula (`get?_shaped`): what the key takes by
position, or else what the call has under its name, or else its default.
-/

namespace Pipework

namespace Declaration

/-! ## Meeting a declaration -/

/-- A parameter with this value, if it has one, is as declared. -/
def Meets (d : Declaration) (value : Option Json) : Prop :=
  match d.rule with
  | .required type => ∃ v, value = some v ∧ v ≠ .null ∧ type.accepts v = true
  | .optional type _ => ∀ v, value = some v → v ≠ .null → type.accepts v = true
  | .oneOf values => ∃ v ∈ values, v.equal (value.getD .null) = true

/-- A declaration is met exactly when it has no problem. -/
theorem problem?_eq_none {d : Declaration} {value : Option Json} :
    d.problem? value = none ↔ d.Meets value := by
  unfold problem? Meets
  cases d.rule with
  | required type =>
    match value with
    | none | some .null => simp
    | some (.bool _) | some (.number _) | some (.string _) | some (.array _) | some (.object _) =>
      simp
  | optional type default =>
    match value with
    | none | some .null => simp
    | some (.bool _) | some (.number _) | some (.string _) | some (.array _) | some (.object _) =>
      simp
  | oneOf values => simp

instance (d : Declaration) (value : Option Json) : Decidable (d.Meets value) :=
  decidable_of_iff (d.problem? value = none) problem?_eq_none

/-- What an optional parameter has when it is absent. -/
def default? (d : Declaration) : Option Json :=
  match d.rule with
  | .optional _ v => some v
  | _ => none

end Declaration

namespace Params

variable {declarations : List Declaration} {params : Params} {values : List Json} {key : String}

/-! ## Names and values by position -/

/-- The parameters with a name are those of the call under keys without a number. -/
theorem get?_named (params : Params) (key : String) :
    params.named.get? key = if (positionalIndex? key).isNone then params.get? key else none :=
  lookup_filter (fun key => (positionalIndex? key).isNone) key params

/-- The open declarations, in the order of declaration: those that the call does not name, or names
as null. -/
def opens (declarations : List Declaration) (params : Params) : List Declaration :=
  declarations.filter params.isOpen

/-- The names that take a value by position, with their values. -/
def taken (declarations : List Declaration) (params : Params) (values : List Json) :
    List (String × Json) :=
  ((params.opens declarations).zip values).map fun (d, v) => (d.name, v)

/-- The parameter takes the value by position: it is the first one open and the value the first, or
both are the second, and so on. -/
def Takes (declarations : List Declaration) (params : Params) (values : List Json)
    (name : String) (v : Json) : Prop :=
  ∃ (i : Nat) (d : Declaration),
    (params.opens declarations)[i]? = some d ∧ d.name = name ∧ values[i]? = some v

/-- A position is bound exactly where the declarations take it. -/
theorem mem_taken {v : Json} :
    (key, v) ∈ params.taken declarations values ↔ Takes declarations params values key v := by
  unfold taken Takes
  rw [List.mem_map]
  simp only [List.mem_iff_getElem?, List.getElem?_zip_eq_some, Prod.exists, Prod.mk.injEq]
  constructor
  · rintro ⟨d, w, ⟨i, isOpen, value⟩, rfl, rfl⟩
    exact ⟨i, d, isOpen, rfl, value⟩
  · rintro ⟨i, d, isOpen, rfl, value⟩
    exact ⟨d, v, ⟨i, isOpen, value⟩, rfl, rfl⟩

/-- Pairing keeps the order on the left. -/
theorem map_fst_zip_sublist {α β : Type} (as : List α) (bs : List β) :
    ((as.zip bs).map Prod.fst).Sublist as := by
  induction as generalizing bs with
  | nil => exact List.Sublist.refl []
  | cons a as ih =>
    cases bs with
    | nil => exact List.nil_sublist (a :: as)
    | cons b bs => exact (ih bs).cons_cons a

theorem nodup_taken (names : (declarations.map Declaration.name).Nodup) (params : Params)
    (values : List Json) : ((params.taken declarations values).map Prod.fst).Nodup := by
  have front : (params.taken declarations values).map Prod.fst =
      (((params.opens declarations).zip values).map Prod.fst).map Declaration.name := by
    rw [taken, List.map_map, List.map_map]
    rfl
  rw [front]
  exact names.sublist (((map_fst_zip_sublist _ values).trans
    List.filter_sublist).map Declaration.name)

theorem lookup_taken (names : (declarations.map Declaration.name).Nodup) {v : Json} :
    (params.taken declarations values).lookup key = some v ↔
      Takes declarations params values key v :=
  (lookup_eq_some_of_nodup (nodup_taken names params values)).trans mem_taken

/-- Declared names are not those of arguments. -/
def Unnumbered (declarations : List Declaration) : Prop :=
  ∀ d ∈ declarations, positionalIndex? d.name = none

instance (declarations : List Declaration) : Decidable (Unnumbered declarations) :=
  inferInstanceAs (Decidable (∀ d ∈ declarations, positionalIndex? d.name = none))

/-- Binding the positions puts what they take in front of the names given. -/
theorem bindPositionals_eq (unnumbered : Unnumbered declarations) (params : Params) :
    params.bindPositionals declarations =
      params.named.insertAll (params.taken declarations params.positionals) := by
  have same : declarations.filter params.named.isOpen = params.opens declarations := by
    refine List.filter_congr fun d declared => ?_
    unfold isOpen
    rw [get?_named, unnumbered d declared]
    rfl
  unfold bindPositionals Fields.insertAll taken
  dsimp only
  rw [same, List.foldl_map]

/-! ## Defaults -/

/-- The parameter gets its default if it has one and is absent. -/
def fillDefault (params : Params) (d : Declaration) : Params :=
  match d.default? with
  | some v => if params.contains d.name then params else params.insert d.name v
  | none => params

theorem fillDefaults_cons (d : Declaration) (declarations : List Declaration) (params : Params) :
    params.fillDefaults (d :: declarations) = (params.fillDefault d).fillDefaults declarations := by
  unfold fillDefaults fillDefault Declaration.default?
  rw [List.foldl_cons]
  cases d.rule <;> rfl

/-- Filling in defaults is some insertions. -/
theorem exists_fillDefaults (declarations : List Declaration) (params : Params) :
    ∃ pairs, params.fillDefaults declarations = params.insertAll pairs := by
  induction declarations generalizing params with
  | nil => exact ⟨[], rfl⟩
  | cons d declarations ih =>
    rw [fillDefaults_cons]
    obtain ⟨pairs, rest⟩ := ih (params.fillDefault d)
    rw [rest]
    unfold fillDefault
    split
    next v _ =>
      split
      next => exact ⟨pairs, rfl⟩
      next => exact ⟨(d.name, v) :: pairs, rfl⟩
    next => exact ⟨pairs, rfl⟩

/-- The first default declared for the name. -/
def defaultOf (declarations : List Declaration) (key : String) : Option Json :=
  declarations.findSome? fun d => if key == d.name then d.default? else none

theorem get?_fillDefault (params : Params) (d : Declaration) (key : String) :
    (params.fillDefault d).get? key =
      (params.get? key).or (if key == d.name then d.default? else none) := by
  unfold fillDefault
  cases d.default? with
  | none => rw [ite_self, Option.or_none]
  | some v =>
    dsimp only
    split
    next known =>
      rw [Fields.contains_eq_isSome] at known
      cases found : key == d.name with
      | true => rw [eq_of_beq found, Option.or_of_isSome known]
      | false => rw [if_neg Bool.false_ne_true, Option.or_none]
    next new =>
      rw [Fields.contains_eq_isSome, Option.not_isSome_iff_eq_none] at new
      rw [Fields.get?_insert]
      cases found : key == d.name with
      | true => rw [eq_of_beq found, new]; rfl
      | false => rw [if_neg Bool.false_ne_true, if_neg Bool.false_ne_true, Option.or_none]

/-- Defaults are filled in where nothing is given. -/
theorem get?_fillDefaults (declarations : List Declaration) (params : Params) (key : String) :
    (params.fillDefaults declarations).get? key =
      (params.get? key).or (defaultOf declarations key) := by
  induction declarations generalizing params with
  | nil => exact Option.or_none.symm
  | cons d declarations ih =>
    rw [fillDefaults_cons, ih, get?_fillDefault, Option.or_assoc, defaultOf, defaultOf,
      List.findSome?_cons]
    cases (if key == d.name then d.default? else none) <;> rfl

theorem defaultOf_eq_some {v : Json} (found : defaultOf declarations key = some v) :
    ∃ d ∈ declarations, d.name = key ∧ d.default? = some v := by
  obtain ⟨d, declared, found⟩ := List.exists_of_findSome?_eq_some found
  split at found
  next same => exact ⟨d, declared, (eq_of_beq same).symm, found⟩
  next => cases found

/-- Of distinct names each has the default declared for it. -/
theorem defaultOf_name (names : (declarations.map Declaration.name).Nodup) {d : Declaration}
    (declared : d ∈ declarations) : defaultOf declarations d.name = d.default? := by
  induction declarations with
  | nil => cases declared
  | cons first declarations ih =>
    obtain ⟨new, names⟩ := List.nodup_cons.mp names
    rw [defaultOf, List.findSome?_cons]
    rcases List.mem_cons.mp declared with rfl | declared
    · have others : defaultOf declarations d.name = none := by
        refine Option.eq_none_iff_forall_ne_some.mpr fun v found => ?_
        obtain ⟨e, declared, same, -⟩ := defaultOf_eq_some found
        exact new (same ▸ List.mem_map_of_mem declared)
      rw [if_pos (beq_self_eq_true _)]
      cases d.default? with
      | none => exact others
      | some v => rfl
    · have other : (d.name == first.name) = false :=
        beq_eq_false_iff_ne.mpr fun same => new (same ▸ List.mem_map_of_mem declared)
      rw [other]
      exact ih names declared

/-! ## The parameters that the declarations judge -/

/-- The call with its values in their places and the defaults filled in. -/
def shape (declarations : List Declaration) (params : Params) : Params :=
  (params.bindPositionals declarations).fillDefaults declarations

/-- What stands under a key: what it takes by position, or else what the call has under this name,
or else its default. -/
theorem get?_shape (names : (declarations.map Declaration.name).Nodup)
    (unnumbered : Unnumbered declarations) (params : Params) (key : String) :
    (params.shape declarations).get? key =
      ((params.taken declarations params.positionals).lookup key).or
        ((params.named.get? key).or (defaultOf declarations key)) := by
  rw [shape, get?_fillDefaults, bindPositionals_eq unnumbered,
    Fields.get?_insertAll (nodup_taken names params _), Option.or_assoc]

/-- What stands in a shaped call was taken, named, or is a default. -/
theorem origin_of_get?_shape (names : (declarations.map Declaration.name).Nodup)
    (unnumbered : Unnumbered declarations) {v : Json}
    (found : (params.shape declarations).get? key = some v) :
    Takes declarations params params.positionals key v ∨ params.named.get? key = some v ∨
      ∃ d ∈ declarations, d.name = key ∧ d.default? = some v := by
  rw [get?_shape names unnumbered, Option.or_eq_some_iff, Option.or_eq_some_iff,
    lookup_taken names] at found
  exact found.imp_right fun rest => rest.2.imp_right fun last => defaultOf_eq_some last.2

/-- Nothing is left under the key of an argument. -/
theorem unnumbered_shape (names : (declarations.map Declaration.name).Nodup)
    (unnumbered : Unnumbered declarations)
    (contained : (params.shape declarations).contains key = true) : positionalIndex? key = none := by
  rw [Fields.contains_eq_isSome] at contained
  obtain ⟨v, found⟩ := Option.isSome_iff_exists.mp contained
  rcases origin_of_get?_shape names unnumbered found with ⟨i, d, isOpen, rfl, -⟩ | there |
    ⟨d, declared, rfl, -⟩
  · exact unnumbered d (List.mem_filter.mp (List.mem_of_getElem? isOpen)).1
  · rw [get?_named] at there
    split at there
    next nameless => exact Option.isNone_iff_eq_none.mp nameless
    next => cases there
  · exact unnumbered d declared

/-- The shape of a call is its names and some insertions. -/
theorem exists_shape (unnumbered : Unnumbered declarations) (params : Params) :
    ∃ pairs, params.shape declarations = params.named.insertAll pairs := by
  obtain ⟨pairs, filled⟩ := exists_fillDefaults declarations (params.bindPositionals declarations)
  refine ⟨params.taken declarations params.positionals ++ pairs, ?_⟩
  rw [shape, filled, bindPositionals_eq unnumbered]
  unfold Fields.insertAll
  rw [List.foldl_append]

/-- Shaping keeps the keys distinct. -/
theorem distinct_shape (unnumbered : Unnumbered declarations) (distinct : params.Distinct) :
    (params.shape declarations).Distinct := by
  obtain ⟨pairs, shaped⟩ := exists_shape unnumbered params
  rw [shaped]
  exact Fields.Distinct.insertAll (distinct.sublist (List.filter_sublist.map Prod.fst)) pairs

/-- The parameters that the declarations make of a call with these values without a name: the values
given to the open declarations, as far as both last; what the call names; the defaults of what is
absent; and nothing else. -/
structure Bound (declarations : List Declaration) (params : Params) (values : List Json)
    (bound : Params) : Prop where
  distinct : bound.Distinct
  takes : ∀ {name v}, Takes declarations params values name v → bound.get? name = some v
  keeps : ∀ {name v}, positionalIndex? name = none → params.get? name = some v →
    (∀ w, ¬Takes declarations params values name w) → bound.get? name = some v
  fills : ∀ {d v}, d ∈ declarations → d.default? = some v → params.get? d.name = none →
    (∀ w, ¬Takes declarations params values d.name w) → bound.get? d.name = some v
  only : ∀ {name v}, bound.get? name = some v → Takes declarations params values name v ∨
    params.get? name = some v ∨ ∃ d ∈ declarations, d.name = name ∧ d.default? = some v
  unnumbered : ∀ {name}, bound.contains name = true → positionalIndex? name = none
  inFront : params.named.map Prod.fst <+: bound.map Prod.fst

/-- So the shape of a call has what was given by name, then by position, then by default. -/
theorem bound_shape (names : (declarations.map Declaration.name).Nodup)
    (unnumbered : Unnumbered declarations) (distinct : params.Distinct) :
    Bound declarations params params.positionals (params.shape declarations) := by
  have untaken {name : String}
      (none : ∀ w, ¬Takes declarations params params.positionals name w) :
      (params.taken declarations params.positionals).lookup name = .none :=
    Option.eq_none_iff_forall_ne_some.mpr fun w taken => none w ((lookup_taken names).mp taken)
  refine ⟨distinct_shape unnumbered distinct, ?takes, ?keeps, ?fills, ?only,
    unnumbered_shape names unnumbered, ?inFront⟩
  case takes =>
    intro name v takes
    rw [get?_shape names unnumbered, (lookup_taken names).mpr takes, Option.some_or]
  case keeps =>
    intro name v unnumbered' there none
    rw [get?_shape names unnumbered, untaken none, get?_named, unnumbered', there]
    rfl
  case fills =>
    intro d v declared default absent none
    rw [get?_shape names unnumbered, untaken none, get?_named, unnumbered d declared, absent,
      defaultOf_name names declared, default]
    rfl
  case only =>
    intro name v found
    refine (origin_of_get?_shape names unnumbered found).imp_right (Or.imp_left fun there => ?_)
    rw [get?_named] at there
    split at there
    next => exact there
    next => cases there
  case inFront =>
    obtain ⟨pairs, shaped⟩ := exists_shape unnumbered params
    rw [shaped]
    exact Fields.keys_prefix_insertAll params.named pairs

/-! ## The verdict -/

/-- Each problem is that of a declaration which is not met, in the order of declaration. -/
theorem forall₂_problems (declarations : List Declaration) (params : Params) :
    List.Forall₂ (fun d line => d.problem? (params.get? d.name) = some line)
      (declarations.filter fun d => !decide (d.Meets (params.get? d.name)))
      (params.problems declarations) := by
  induction declarations with
  | nil => exact .nil
  | cons d declarations ih =>
    unfold problems at ih ⊢
    rw [List.filter_cons, List.filterMap_cons]
    cases wrong : d.problem? (params.get? d.name) with
    | none =>
      rw [decide_eq_true (Declaration.problem?_eq_none.mp wrong)]
      exact ih
    | some line =>
      have violated : ¬d.Meets (params.get? d.name) := by
        rw [← Declaration.problem?_eq_none, wrong]
        exact nofun
      rw [decide_eq_false violated]
      exact .cons wrong ih

/-- There is no problem exactly when every declaration is met. -/
theorem problems_eq_nil : params.problems declarations = [] ↔
    ∀ d ∈ declarations, d.Meets (params.get? d.name) := by
  unfold problems
  rw [List.filterMap_eq_nil_iff]
  exact forall₂_congr fun d _ => Declaration.problem?_eq_none

theorem normalize_of_met (nonempty : declarations ≠ [])
    (met : ∀ d ∈ declarations, d.Meets ((params.shape declarations).get? d.name)) :
    params.normalize declarations = .ok (params.shape declarations) := by
  unfold normalize
  rw [if_neg (mt List.isEmpty_iff.mp nonempty)]
  dsimp only
  rw [← shape, problems_eq_nil.mpr met]

theorem normalize_of_unmet (nonempty : declarations ≠ [])
    (unmet : ¬∀ d ∈ declarations, d.Meets ((params.shape declarations).get? d.name)) :
    params.normalize declarations =
      .error ⟨"; ".intercalate ((params.shape declarations).problems declarations)⟩ := by
  unfold normalize
  rw [if_neg (mt List.isEmpty_iff.mp nonempty)]
  dsimp only
  rw [← shape]
  split
  next fine => exact absurd (problems_eq_nil.mp fine) unmet
  next => rfl

/-- Parameters that a handler with these declarations may rely on: each declaration is met, each
parameter that has a default is there, and nothing stands under the key of an argument. -/
structure Fits (declarations : List Declaration) (params : Params) : Prop where
  met : ∀ d ∈ declarations, d.Meets (params.get? d.name)
  filled : ∀ d ∈ declarations, d.default?.isSome = true → params.contains d.name = true
  unnumbered : ∀ key, params.contains key = true → positionalIndex? key = none

/-- What passes fits. -/
theorem fits_of_normalize (nonempty : declarations ≠ [])
    (names : (declarations.map Declaration.name).Nodup) (unnumbered : Unnumbered declarations)
    {bound : Params} (passed : params.normalize declarations = .ok bound) :
    Fits declarations bound := by
  by_cases met : ∀ d ∈ declarations, d.Meets ((params.shape declarations).get? d.name)
  · rw [normalize_of_met nonempty met] at passed
    cases passed
    refine ⟨met, fun d declared default => ?_, fun key => unnumbered_shape names unnumbered⟩
    rw [Fields.contains_eq_isSome, get?_shape names unnumbered, defaultOf_name names declared,
      Option.isSome_or, Option.isSome_or, default, Bool.or_true, Bool.or_true]
  · rw [normalize_of_unmet nonempty met] at passed
    cases passed

/-- What the declarations make of a call, and when it passes. The first part says which keys have
numbers; a key of the kind with a larger number is a name like any other. -/
theorem normalize_binds (nonempty : declarations ≠ [])
    (names : (declarations.map Declaration.name).Nodup) (unnumbered : Unnumbered declarations)
    (distinct : params.Distinct) :
    (∀ key n, positionalIndex? key = some n ↔ Numbers key n) ∧
    ∃ args bound, Arguments params args ∧ Bound declarations params (args.map (·.2)) bound ∧
      (params.normalize declarations = .ok bound ↔
        ∀ d ∈ declarations, d.Meets (bound.get? d.name)) ∧
      ((∃ d ∈ declarations, ¬d.Meets (bound.get? d.name)) →
        ∃ lines, params.normalize declarations = .error ⟨"; ".intercalate lines⟩ ∧
          List.Forall₂ (fun d line => d.problem? (bound.get? d.name) = some line)
            (declarations.filter fun d => !decide (d.Meets (bound.get? d.name))) lines) := by
  refine ⟨fun _ _ => positionalIndex?_eq_some, _, params.shape declarations,
    arguments_mergeSort params, bound_shape names unnumbered distinct, ⟨?_, ?_⟩, ?_⟩
  · intro passed
    by_contra unmet
    rw [normalize_of_unmet nonempty unmet] at passed
    cases passed
  · exact normalize_of_met nonempty
  · rintro ⟨d, declared, unmet⟩
    exact ⟨_, normalize_of_unmet nonempty fun met => unmet (met d declared),
      forall₂_problems declarations (params.shape declarations)⟩

/-- The declarations of a sort, and a call that names one of them and gives the other a value by
position. -/
theorem normalize_binds_sort :
    let declarations : List Declaration :=
      [⟨"by", .required .string, ""⟩, ⟨"order", .optional .string (.string "asc"), ""⟩]
    let params : Params := [("_arg07", .string "desc"), ("by", .string "amount")]
    declarations ≠ [] ∧ (declarations.map Declaration.name).Nodup ∧ Unnumbered declarations ∧
      params.Distinct ∧
      ∃ args bound, Arguments params args ∧ Bound declarations params (args.map (·.2)) bound ∧
        bound.get? "by" = some (.string "amount") ∧ bound.get? "order" = some (.string "desc") ∧
        params.normalize declarations = .ok bound := by
  intro declarations params
  have nonempty : declarations ≠ [] := nofun
  have names : (declarations.map Declaration.name).Nodup := by decide
  have unnumbered : Unnumbered declarations := by decide
  have distinct : params.Distinct := by decide
  obtain ⟨args, bound, arguments, binds, passes, -⟩ :=
    (normalize_binds nonempty names unnumbered distinct).2
  have values : args.map (·.2) = [.string "desc"] := arguments.positionals.symm.trans
    (congrArg (List.map Prod.snd) (List.mergeSort_singleton (7, Json.string "desc")))
  have order : bound.get? "order" = some (.string "desc") :=
    binds.takes ⟨0, _, rfl, rfl, by rw [values]; rfl⟩
  have field : bound.get? "by" = some (.string "amount") := by
    refine binds.keeps rfl rfl ?_
    rintro w ⟨i, d, isOpen, same, -⟩
    cases List.mem_singleton.mp (List.mem_of_getElem? isOpen)
    exact absurd same (by decide)
  have met : ∀ d ∈ declarations, d.Meets (bound.get? d.name) := by
    refine List.forall_mem_cons.mpr ⟨⟨_, field, nofun, rfl⟩, List.forall_mem_singleton.mpr ?_⟩
    intro v found _
    cases found.symm.trans order
    rfl
  exact ⟨nonempty, names, unnumbered, distinct, args, bound, arguments, binds, field, order,
    passes.mpr met⟩

/-- A key with a number of more than 64 bits is a name. What stands under it is not given to the
first open declaration, as it would be under a smaller number. -/
theorem normalize_long_number :
    let declarations : List Declaration :=
      [⟨"by", .required .string, ""⟩, ⟨"order", .optional .string (.string "asc"), ""⟩]
    "_arg18446744073709551616" = positionalKey (2 ^ 64) ∧
    Params.normalize declarations [("_arg18446744073709551616", .string "a")] =
      .error ⟨"required parameter 'by' is missing"⟩ ∧
    Params.normalize declarations [("_arg0", .string "a")] =
      .ok [("by", .string "a"), ("order", .string "asc")] := by
  intro declarations
  have large : Params.positionals [("_arg18446744073709551616", .string "a")] = [] :=
    congrArg (List.map (Prod.snd : Nat × Json → Json)) List.mergeSort_nil
  have small : Params.positionals [("_arg0", .string "a")] = [.string "a"] :=
    congrArg (List.map Prod.snd) (List.mergeSort_singleton (0, Json.string "a"))
  refine ⟨by decide, ?_, ?_⟩
  · unfold normalize bindPositionals
    rw [large]
    rfl
  · unfold normalize bindPositionals
    rw [small]
    rfl

end Params

end Pipework
