import Mathlib.Algebra.BigOperators.Group.List.Basic
import Mathlib.Algebra.Ring.Int.Defs
import Mathlib.Data.List.Perm.Basic
import Mathlib.Data.Set.List
import Pipework.Builtin.Rows

/-!
# Sums of whole numbers

A sum of signed whole numbers is whole as long as every partial sum is a signed word; when one is
not, all numbers are added again as doubles. So it is not the total that decides but the way to it,
and with it the order of the rows. `9223372036854775807, 1, -1` have a total within range and are
added as doubles; `1, -1, 9223372036854775807` are not.

No order of the rows leaves the range exactly if the positive numbers alone stay within it and the
negative ones alone do. Then the sum is the total in every order.
-/

namespace Pipework.Rows

/-- The whole numbers of a signed word. -/
def InSignedRange (i : Int) : Prop :=
  -9223372036854775808 ≤ i ∧ i < 9223372036854775808

instance : DecidablePred InSignedRange := fun _ => inferInstanceAs (Decidable (_ ∧ _))

/-- Every partial sum is a signed word. -/
def StaysInRange (ints : List Int) : Prop :=
  ∀ front, front <+: ints → InSignedRange front.sum

theorem StaysInRange.sum {ints : List Int} (stays : StaysInRange ints) : InSignedRange ints.sum :=
  stays ints (List.prefix_refl ints)

/-! ## What rows add -/

/-- What a row adds to a sum, if it takes part in it: a signed whole number, or something else. -/
def addend? (field : Option String) (row : Json) : Option (Option Int) :=
  match field, row with
  | some field, .object row => some ((fieldNumber field row).toOption.bind Number.toSigned?)
  | none, .number n => some n.toSigned?
  | _, _ => none

/-- The rows that take part in a sum add these whole numbers, in this order. -/
def Adds (field : Option String) (rows : List Json) (ints : List Int) : Prop :=
  rows.filterMap (addend? field) = ints.map some

section Addends

variable {field : Option String} {rows : List Json} {ints : List Int}

/-- Readings that give whole numbers succeed. -/
theorem mapM_of_whole {α : Type} {read : α → Except AtomError Number} :
    {rows : List α} → {ints : List Int} →
    rows.map (fun row => (read row).toOption.bind Number.toSigned?) = ints.map some →
    ∃ values, rows.mapM read = .ok values ∧ values.map Number.toSigned? = ints.map some
  | [], [], _ => ⟨[], rfl, rfl⟩
  | row :: rows, i :: ints, whole => by
    obtain ⟨here, behind⟩ := List.cons.inj whole
    obtain ⟨values, readBehind, same⟩ := mapM_of_whole behind
    cases readHere : read row with
    | error e => simp only [readHere, Except.toOption, Option.bind_none, reduceCtorEq] at here
    | ok n =>
      simp only [readHere, Except.toOption, Option.bind_some] at here
      refine ⟨n :: values, ?_, by rw [List.map_cons, List.map_cons, here, same]⟩
      rw [List.mapM_cons, readHere, readBehind]
      rfl

/-- What is a list of whole numbers in another order is a list of whole numbers. -/
theorem exists_perm_of_map_some {found : List (Option Int)} {ints : List Int}
    (order : found.Perm (ints.map some)) :
    ∃ ints' : List Int, found = ints'.map some ∧ ints'.Perm ints := by
  obtain ⟨ints', rfl⟩ : found ∈ Set.range (List.map some) := by
    rw [Set.range_list_map]
    intro v member
    obtain ⟨i, -, isSome⟩ := List.mem_map.mp (order.mem_iff.mp member)
    exact ⟨i, isSome⟩
  exact ⟨ints', rfl, (List.map_perm_map_iff (Option.some_injective Int)).mp order⟩

/-- The numbers of rows that add whole numbers are these. -/
theorem Adds.numbers (adds : Adds field rows ints) :
    ∃ values, numbers field (.array rows) = .ok values ∧
      values.map Number.toSigned? = ints.map some := by
  cases field
  case' none => refine ⟨_, rfl, ?_⟩
  case' some => refine mapM_of_whole ?_
  all_goals
    rw [← adds, List.map_filterMap]
    congr 1
    funext row
    cases row <;> rfl

/-- In another order the rows add the numbers in another order. -/
theorem Adds.perm {rows' : List Json} (adds : Adds field rows ints) (order : rows'.Perm rows) :
    ∃ ints', Adds field rows' ints' ∧ ints'.Perm ints := by
  have added := order.filterMap (addend? field)
  rw [adds] at added
  exact exists_perm_of_map_some added

/-- The row adds a number of the kind. -/
def addsOfKind (field : Option String) (kind : Int → Bool) (row : Json) : Bool :=
  (addend? field row).any (·.any kind)

/-- Some order of the rows adds the numbers of a kind first. -/
theorem Adds.foremost (adds : Adds field rows ints) (kind : Int → Bool) :
    ∃ rows', rows'.Perm rows ∧ Adds field rows' (ints.filter kind ++ ints.filter (!kind ·)) := by
  have part (first : Bool) :
      (rows.filter (addsOfKind field kind · == first)).filterMap (addend? field) =
        (ints.filter (kind · == first)).map some := by
    have kept : (ints.filter (kind · == first)).map some =
        (ints.map some).filter (·.any kind == first) := by
      rw [List.filter_map]
      rfl
    rw [kept, ← adds, List.filterMap_filter, List.filter_filterMap]
    congr 1
    funext row
    rcases added : addend? field row with _ | v
    · simp only [ite_self, Option.filter_none]
    · simp only [addsOfKind, added, Option.any_some, Option.filter_some]
  have here := part true
  have behind := part false
  simp only [beq_true, beq_false] at here behind
  exact ⟨_, List.filter_append_perm (addsOfKind field kind) rows,
    by rw [Adds, List.filterMap_append, here, behind, List.map_append]⟩

end Addends

/-! ## Partial sums -/

/-- The sum of the positive numbers. -/
def gains (ints : List Int) : Int := (ints.filter (0 < ·)).sum

/-- The sum of the negative numbers. -/
def losses (ints : List Int) : Int := (ints.filter (· < 0)).sum

theorem gains_append (front rest : List Int) : gains (front ++ rest) = gains front + gains rest := by
  rw [gains, List.filter_append, List.sum_append, gains, gains]

theorem losses_append (front rest : List Int) :
    losses (front ++ rest) = losses front + losses rest := by
  rw [losses, List.filter_append, List.sum_append, losses, losses]

/-- A sum is made up of what was gained and what was lost. -/
theorem gains_add_losses (ints : List Int) :
    0 ≤ gains ints ∧ losses ints ≤ 0 ∧ gains ints + losses ints = ints.sum := by
  induction ints with
  | nil => decide
  | cons i ints ih =>
    have single : 0 ≤ gains [i] ∧ losses [i] ≤ 0 ∧ gains [i] + losses [i] = i := by
      simp only [gains, losses, List.filter_cons, List.filter_nil, decide_eq_true_eq,
        apply_ite List.sum, List.sum_cons, List.sum_nil]
      omega
    rw [List.sum_cons, ← List.singleton_append, gains_append, losses_append]
    omega

/-- No partial sum exceeds what is gained or falls below what is lost. -/
theorem sum_between {front ints : List Int} (isFront : front <+: ints) :
    losses ints ≤ front.sum ∧ front.sum ≤ gains ints := by
  obtain ⟨rest, rfl⟩ := isFront
  have inFront := gains_add_losses front
  have behind := gains_add_losses rest
  rw [gains_append, losses_append]
  omega

/-! ## The sum -/

/-- One more number, as long as the sum is a signed word. -/
def addWhole? (total : Int) (n : Number) : Option Int :=
  n.toSigned?.bind fun i => if InSignedRange (total + i) then some (total + i) else none

theorem wholeSum?_eq (values : List Number) : wholeSum? values = values.foldlM addWhole? 0 := rfl

/-- Adding to what there is succeeds if every partial sum is a signed word, and gives the total. -/
theorem foldlM_addWhole?_eq_some {values : List Number} {ints : List Int}
    (whole : values.map Number.toSigned? = ints.map some) {start : Int}
    (held : InSignedRange start) {total : Int} :
    values.foldlM addWhole? start = some total ↔
      (∀ front, front <+: ints → InSignedRange (start + front.sum)) ∧ start + ints.sum = total := by
  induction ints generalizing values start with
  | nil =>
    obtain rfl := List.map_eq_nil_iff.mp whole
    simp only [List.foldlM_nil, List.prefix_nil, forall_eq, List.sum_nil, Int.add_zero, held,
      true_and]
    exact Option.some_inj
  | cons i ints ih =>
    obtain ⟨n, values, rfl, here, behind⟩ := List.map_eq_cons_iff.mp whole
    have fronts : (∀ front, front <+: i :: ints → InSignedRange (start + front.sum)) ↔
        ∀ front, front <+: ints → InSignedRange (start + i + front.sum) := by
      simp only [List.prefix_cons_iff, forall_eq_or_imp, List.sum_nil, Int.add_zero, held, true_and]
      constructor
      · intro stays front isFront
        have := stays (i :: front) ⟨front, rfl, isFront⟩
        rwa [List.sum_cons, ← Int.add_assoc] at this
      · rintro stays _ ⟨front, rfl, isFront⟩
        rw [List.sum_cons, ← Int.add_assoc]
        exact stays front isFront
    rw [fronts, List.sum_cons, ← Int.add_assoc, List.foldlM_cons, addWhole?, here, Option.bind_some]
    by_cases inRange : InSignedRange (start + i)
    · rw [if_pos inRange]
      exact ih behind inRange
    · rw [if_neg inRange]
      refine iff_of_false (fun none => by cases none) fun sums => inRange ?_
      have := sums.1 [] List.nil_prefix
      rwa [List.sum_nil, Int.add_zero] at this

/-- Adding signed whole numbers succeeds if every partial sum is a signed word, and gives the
total. -/
theorem wholeSum?_eq_some {values : List Number} {ints : List Int}
    (whole : values.map Number.toSigned? = ints.map some) {total : Int} :
    wholeSum? values = some total ↔ StaysInRange ints ∧ ints.sum = total := by
  rw [wholeSum?_eq, foldlM_addWhole?_eq_some whole (show InSignedRange 0 by decide)]
  simp only [Int.zero_add, StaysInRange]

/-- The sum of the rows is this whole number. -/
def SumsTo (params : Params) (rows : List Json) (total : Int) : Prop :=
  ∃ inRange, aggregate .sum params (.array rows) = .ok (.number (.integer total inRange))

section Sums

variable {params : Params} {rows : List Json} {ints : List Int}

/-- The sum is the total of the numbers if every partial sum is a signed word, and else it is that of
the same numbers as doubles. -/
theorem sum_of_adds (adds : Adds (metricField params) rows ints) :
    (StaysInRange ints ∧ SumsTo params rows ints.sum) ∨
    (¬ StaysInRange ints ∧ ∃ values, numbers (metricField params) (.array rows) = .ok values ∧
      aggregate .sum params (.array rows) = .ok (.ofDouble? (doubleSum? values))) := by
  obtain ⟨values, read, whole⟩ := adds.numbers
  have summed : aggregate .sum params (.array rows) = .ok (sum values) := by
    rw [aggregate, read]
    rfl
  rw [sum] at summed
  by_cases stays : StaysInRange ints
  · have inRange := stays.sum
    have inWords : InWordRange ints.sum := ⟨inRange.1, by have := inRange.2; omega⟩
    rw [(wholeSum?_eq_some whole).mpr ⟨stays, rfl⟩, Option.bind_some, Number.ofInt?,
      dif_pos inWords] at summed
    exact .inl ⟨stays, inWords, summed⟩
  · have leaves : wholeSum? values = none :=
      Option.eq_none_iff_forall_ne_some.mpr fun _ total =>
        stays ((wholeSum?_eq_some whole).mp total).1
    rw [leaves, Option.bind_none] at summed
    exact .inr ⟨stays, values, read, summed⟩

theorem sumsTo_iff (adds : Adds (metricField params) rows ints) {total : Int} :
    SumsTo params rows total ↔ StaysInRange ints ∧ ints.sum = total := by
  constructor
  · rintro ⟨_, summed⟩
    rcases sum_of_adds adds with ⟨stays, _, exactly⟩ | ⟨_, values, _, asDouble⟩
    · rw [exactly] at summed
      cases summed
      exact ⟨stays, rfl⟩
    · rw [asDouble] at summed
      cases double : doubleSum? values <;> rw [double] at summed <;> cases summed
  · rintro ⟨stays, rfl⟩
    rcases sum_of_adds adds with ⟨_, exactly⟩ | ⟨leaves, _⟩
    · exact exactly
    · exact absurd stays leaves

/-- The total is the sum in every order of the rows if no order can leave the range. -/
theorem sumsTo_perm_iff (adds : Adds (metricField params) rows ints) :
    (∀ rows', rows'.Perm rows → SumsTo params rows' ints.sum) ↔
      InSignedRange (gains ints) ∧ InSignedRange (losses ints) := by
  constructor
  · intro always
    have foremost (kind : Int → Bool) : InSignedRange (ints.filter kind).sum := by
      obtain ⟨rows', order, adds'⟩ := adds.foremost kind
      exact ((sumsTo_iff adds').mp (always rows' order)).1 _ (List.prefix_append _ _)
    exact ⟨foremost _, foremost _⟩
  · rintro ⟨gained, lost⟩ rows' order
    obtain ⟨ints', adds', order'⟩ := adds.perm order
    refine (sumsTo_iff adds').mpr ⟨fun front isFront => ?_, order'.sum_eq⟩
    obtain ⟨above, below⟩ := sum_between isFront
    have sameGains : gains ints' = gains ints := (order'.filter _).sum_eq
    have sameLosses : losses ints' = losses ints := (order'.filter _).sum_eq
    exact ⟨by have := lost.1; omega, by have := gained.2; omega⟩

/-- **A sum of whole numbers is exact as long as it stays within the range.** Let the rows that take
part add signed whole numbers. The sum is a whole number only if every partial sum is a signed word,
and then it is the total. Otherwise it is the sum of the doubles, also where the total is a signed
word. So the order of the rows matters, unless the positive numbers alone and the negative ones alone
add up to signed words. -/
theorem sum_is_exact_within_range (adds : Adds (metricField params) rows ints) :
    (∀ total, SumsTo params rows total ↔ StaysInRange ints ∧ ints.sum = total) ∧
    (¬ StaysInRange ints → ∃ values, numbers (metricField params) (.array rows) = .ok values ∧
      aggregate .sum params (.array rows) = .ok (.ofDouble? (doubleSum? values))) ∧
    ((∀ rows', rows'.Perm rows → SumsTo params rows' ints.sum) ↔
      InSignedRange (gains ints) ∧ InSignedRange (losses ints)) := by
  refine ⟨fun _ => sumsTo_iff adds, fun leaves => ?_, sumsTo_perm_iff adds⟩
  rcases sum_of_adds adds with ⟨stays, -⟩ | ⟨-, asDoubles⟩
  · exact absurd stays leaves
  · exact asDoubles

end Sums

/-- Accounts that reach the limit together, and a row that is none. -/
def accounts : List Json := [
  .object [("balance", .number (.integer 9223372036854775806 (by decide)))],
  .string "subtotal",
  .object [("balance", .number (.integer 1 (by decide)))],
  .object [("balance", .null)],
  .object [("balance", .number (.integer (-5) (by decide)))]]

/-- The accounts have their total in every order. -/
theorem accounts_sum_in_every_order :
    Adds (metricField [("field", .string "balance")]) accounts [9223372036854775806, 1, 0, -5] ∧
    ∀ rows, rows.Perm accounts →
      SumsTo [("field", .string "balance")] rows 9223372036854775802 := by
  have adds : Adds (metricField [("field", .string "balance")]) accounts
    [9223372036854775806, 1, 0, -5] := rfl
  exact ⟨adds, (sum_is_exact_within_range adds).2.2.mpr (by decide)⟩

/-- The greatest signed word and two numbers that make up for each other. -/
def brimful : List Json := [.number (.integer 9223372036854775807 (by decide)),
  .number (.integer 1 (by decide)), .number (.integer (-1) (by decide))]

/-- The total of these is a signed word, and their sum is not the total. From behind it is. -/
theorem brimful_total_is_lost :
    Adds (metricField []) brimful [9223372036854775807, 1, -1] ∧
    InSignedRange [9223372036854775807, 1, -1].sum ∧
    ¬ SumsTo [] brimful [9223372036854775807, 1, -1].sum ∧
    SumsTo [] brimful.reverse [9223372036854775807, 1, -1].sum := by
  have adds : Adds (metricField []) brimful [9223372036854775807, 1, -1] := rfl
  refine ⟨adds, by decide, fun exactly => ?_, by decide, rfl⟩
  have stays := ((sumsTo_iff adds).mp exactly).1
  exact absurd (stays [9223372036854775807, 1] ⟨[-1], rfl⟩) (by decide)

end Pipework.Rows
