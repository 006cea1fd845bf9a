import Pipework.Proofs.Number.Order
import Pipework.Proofs.Rows.Comparison
import Pipework.Proofs.Rows.Sum
import Pipework.Proofs.Sorting

/-!
# Sorting and extremes of whole numbers

Rows are sorted by an order of all values, which is total and transitive: first the kinds, and within
a kind that has an order by that order. Numbers are ordered by their nearest doubles, and so the
extremes are found. Rounding keeps the order of whole numbers, but it merges some: beyond 2⁵³ two
different numbers may have one nearest double. Merged numbers are not sorted, they stay as they
stand; and of the merged numbers that are least or greatest the first is taken, whichever it is.

So whole numbers are ordered exactly if merged ones stand in order already.
-/

namespace Pipework

/-- The whole number that this is, if it is one. -/
def Number.toInt? : Number → Option Int
  | .integer i _ => some i
  | .double _ => none

theorem Number.toInt?_eq_some {n : Number} {i : Int} (whole : n.toInt? = some i) :
    ∃ inRange, n = .integer i inRange := by
  cases n with
  | integer i' inRange =>
    cases whole
    exact ⟨inRange, rfl⟩
  | double x => cases whole

namespace Rows

/-! ## The order of all values -/

/-- Kinds first, then the order within the kind. -/
theorem sortOrder_eq (a b : Json) :
    sortOrder a b = (compare (rank a) (rank b)).then ((compare? a b).getD .eq) := by
  cases a <;> cases b <;> rfl

/-- Numbers are in the order of their nearest doubles. -/
theorem isLE_sortOrder_number (a b : Number) :
    (sortOrder (.number a) (.number b)).isLE = true ↔ a.toDouble.units ≤ b.toDouble.units :=
  Int.isLE_compare

/-- Two values the other way around are ordered the other way around. -/
theorem sortOrder_swap (a b : Json) : (sortOrder a b).swap = sortOrder b a := by
  have within : ((compare? a b).getD .eq).swap = (compare? b a).getD .eq := by
    cases a <;> cases b <;> first | rfl | exact Std.OrientedOrd.eq_swap.symm
  rw [sortOrder_eq, sortOrder_eq, Ordering.swap_then, within, ← Std.OrientedOrd.eq_swap]

/-- Within a kind of values the order is transitive. -/
theorem isLE_within_trans {a b c : Json} (ab : rank a = rank b) (bc : rank b = rank c)
    (first : ((compare? a b).getD .eq).isLE = true)
    (second : ((compare? b c).getD .eq).isLE = true) : ((compare? a c).getD .eq).isLE = true := by
  cases a <;> cases b <;> cases ab <;> cases c <;> cases bc
  all_goals first | rfl | exact Std.TransOrd.isLE_trans first second

/-- The order is transitive. -/
theorem isLE_sortOrder_trans {a b c : Json} (first : (sortOrder a b).isLE = true)
    (second : (sortOrder b c).isLE = true) : (sortOrder a c).isLE = true := by
  rw [sortOrder_eq, Ordering.isLE_then_iff_or, Nat.compare_eq_lt, Nat.compare_eq_eq]
    at first second ⊢
  rcases first with less | ⟨same, first⟩ <;> rcases second with less' | ⟨same', second⟩
  · exact .inl (Nat.lt_trans less less')
  · exact .inl (same' ▸ less)
  · exact .inl (same ▸ less')
  · exact .inr ⟨same.trans same', isLE_within_trans same same' first second⟩

theorem inOrder_eq (field : String) (descending : Bool) (a b : Json) :
    inOrder field descending a b =
      if descending then (sortOrder (sortKey field b) (sortKey field a)).isLE
      else (sortOrder (sortKey field a) (sortKey field b)).isLE := by
  have notGreater (o : Ordering) : (o != .gt) = o.isLE := by cases o <;> rfl
  unfold inOrder
  cases descending
  · exact notGreater _
  · simp only [↓reduceIte, notGreater, sortOrder_swap]

section Sorting

variable (field : String) (descending : Bool)

/-- The order of rows is transitive, upwards and downwards. -/
theorem inOrder_trans (a b c : Json) (first : inOrder field descending a b = true)
    (second : inOrder field descending b c = true) : inOrder field descending a c = true := by
  rw [inOrder_eq] at first second ⊢
  cases descending
  · exact isLE_sortOrder_trans first second
  · exact isLE_sortOrder_trans second first

/-- Of two rows one may stand in front of the other. -/
theorem inOrder_total (a b : Json) :
    (inOrder field descending a b || inOrder field descending b a) = true := by
  have total (a b : Json) : ((sortOrder a b).isLE || (sortOrder b a).isLE) = true := by
    rw [← sortOrder_swap a b]
    cases sortOrder a b <;> rfl
  rw [inOrder_eq, inOrder_eq]
  cases descending
  · exact total _ _
  · exact total _ _

/-- Sorted rows are in order. -/
theorem pairwise_sortBy (rows : List Json) :
    (sortBy field descending rows).Pairwise fun a b => inOrder field descending a b = true :=
  List.pairwise_mergeSort (inOrder_trans field descending) (inOrder_total field descending) rows

end Sorting

/-! ## Whole numbers and their nearest doubles -/

/-- In this direction the one number may stand before the other. -/
def Precedes (descending : Bool) (i j : Int) : Prop :=
  if descending then j ≤ i else i ≤ j

/-- One double is the nearest to both whole numbers. -/
def Merged (i j : Int) : Prop :=
  Double.ofInt? i = Double.ofInt? j

instance (descending : Bool) (i j : Int) : Decidable (Precedes descending i j) :=
  inferInstanceAs (Decidable (ite _ _ _))

instance (i j : Int) : Decidable (Merged i j) :=
  inferInstanceAs (Decidable (_ = _))

section Precedes

variable {descending : Bool} {i j k : Int}

theorem precedes_refl (descending : Bool) (i : Int) : Precedes descending i i := by
  unfold Precedes
  cases descending <;> exact Int.le_refl i

theorem Precedes.trans (first : Precedes descending i j) (second : Precedes descending j k) :
    Precedes descending i k := by
  unfold Precedes at *
  cases descending <;> simp only [Bool.false_eq_true, ↓reduceIte] at * <;> omega

theorem precedes_of_not (other : ¬ Precedes descending i j) : Precedes descending j i := by
  unfold Precedes at *
  cases descending <;> simp only [Bool.false_eq_true, ↓reduceIte] at * <;> omega

/-- Two integers that may each stand in front of the other are the same. -/
theorem Precedes.antisymm (first : Precedes descending i j) (second : Precedes descending j i) :
    i = j := by
  unfold Precedes at *
  cases descending <;> simp only [Bool.false_eq_true, ↓reduceIte] at * <;> omega

end Precedes

/-- The nearest double of a whole number of the word ranges. -/
def nearest (i : Int) : Double := (Double.ofInt? i).getD default

theorem toDouble_integer (i : Int) (inRange : InWordRange i) :
    (Number.integer i inRange).toDouble = nearest i := rfl

section Words

variable {i j : Int} (left : InWordRange i) (right : InWordRange j)

theorem ofInt?_nearest {i : Int} (inRange : InWordRange i) :
    Double.ofInt? i = some (nearest i) := by
  obtain ⟨x, rounded⟩ := Double.exists_ofInt? inRange
  rw [nearest, rounded, Option.getD_some]

include left right

/-- Rounding keeps the order of words. -/
theorem precedes_nearest {descending : Bool} (precedes : Precedes descending i j) :
    Precedes descending (nearest i).units (nearest j).units := by
  unfold Precedes at *
  cases descending
  · exact Double.units_le_of_le precedes (ofInt?_nearest left) (ofInt?_nearest right)
  · exact Double.units_le_of_le precedes (ofInt?_nearest right) (ofInt?_nearest left)

/-- Words are merged if neither of their doubles is less. -/
theorem merged_iff : Merged i j ↔ (nearest i).units = (nearest j).units := by
  constructor
  · intro merged
    rw [Merged, ofInt?_nearest left, ofInt?_nearest right] at merged
    rw [Option.some.inj merged]
  · exact Double.ofInt?_eq_of_units (ofInt?_nearest left) (ofInt?_nearest right)

end Words

/-! ## Rows of whole numbers -/

/-- The whole number in the field of a row, if there is one. -/
def intOf? (field : String) (row : Json) : Option Int :=
  match row.get? field with
  | some (.number (.integer i _)) => some i
  | _ => none

/-- Each row is an object with a whole number in the field, and these are the numbers in order. -/
def HasInts (field : String) (rows : List Json) (ints : List Int) : Prop :=
  rows.map (intOf? field) = ints.map some

section Field

variable {field : String}

theorem intOf?_eq_some {row : Json} {i : Int} (there : intOf? field row = some i) :
    ∃ (fields : Fields) (inRange : InWordRange i), row = .object fields ∧
      fields.get? field = some (.number (.integer i inRange)) := by
  unfold intOf? at there
  split at there
  next i' inRange found =>
    cases there
    cases row with
    | object fields => exact ⟨fields, inRange, rfl, found⟩
    | _ => cases found
  next => cases there

theorem sortKey_of_intOf? {row : Json} {i : Int} (there : intOf? field row = some i) :
    ∃ inRange, sortKey field row = .number (.integer i inRange) := by
  obtain ⟨fields, inRange, rfl, found⟩ := intOf?_eq_some there
  refine ⟨inRange, ?_⟩
  simp only [sortKey, Json.get?, Json.object?, Option.bind_some, found, Option.getD_some]

/-- Rows of whole numbers are in order if their nearest doubles are. -/
theorem inOrder_iff {descending : Bool} {a b : Json} {i j : Int} (left : intOf? field a = some i)
    (right : intOf? field b = some j) :
    inOrder field descending a b = true ↔ Precedes descending (nearest i).units (nearest j).units := by
  obtain ⟨inRange, key⟩ := sortKey_of_intOf? left
  obtain ⟨inRange', key'⟩ := sortKey_of_intOf? right
  rw [inOrder_eq, key, key', Precedes, ← toDouble_integer i inRange,
    ← toDouble_integer j inRange']
  cases descending
  · exact isLE_sortOrder_number _ _
  · exact isLE_sortOrder_number _ _

/-- Rows of merged numbers may stand either way. -/
theorem inOrder_of_merged {descending : Bool} {a b : Json} {i j : Int}
    (left : intOf? field a = some i) (right : intOf? field b = some j) (merged : Merged i j) :
    inOrder field descending a b = true := by
  obtain ⟨_, inRange, -⟩ := intOf?_eq_some left
  obtain ⟨_, inRange', -⟩ := intOf?_eq_some right
  rw [inOrder_iff left right, (merged_iff inRange inRange').mp merged]
  exact precedes_refl _ _

/-- Numbers that are sorted out of their order are merged. -/
theorem merged_of_inOrder {descending : Bool} {a b : Json} {i j : Int}
    (left : intOf? field a = some i) (right : intOf? field b = some j)
    (sorted : inOrder field descending a b = true) (other : ¬ Precedes descending i j) :
    Merged i j := by
  obtain ⟨_, inRange, -⟩ := intOf?_eq_some left
  obtain ⟨_, inRange', -⟩ := intOf?_eq_some right
  have back := precedes_nearest inRange' inRange (precedes_of_not other)
  exact (merged_iff inRange inRange').mpr (((inOrder_iff left right).mp sorted).antisymm back)

/-- Sorted rows are in the order of their numbers exactly if the rows of merged numbers were: these
stay as they stand, and all others are put in order. -/
theorem pairwise_sortBy_iff (descending : Bool) (rows : List Json) :
    ((sortBy field descending rows).Pairwise fun a b => ∀ i j, intOf? field a = some i →
      intOf? field b = some j → Precedes descending i j) ↔
    rows.Pairwise fun a b => ∀ i j, intOf? field a = some i → intOf? field b = some j →
      Merged i j → Precedes descending i j := by
  have stable {a b : Json} {i j : Int} (left : intOf? field a = some i)
      (right : intOf? field b = some j) (merged : Merged i j) :
      [a, b].Sublist (sortBy field descending rows) ↔ [a, b].Sublist rows :=
    pair_sublist_mergeSort_iff (inOrder_trans field descending) (inOrder_total field descending)
      (inOrder_of_merged left right merged) (inOrder_of_merged right left merged.symm)
  rw [List.pairwise_iff_forall_sublist, List.pairwise_iff_forall_sublist]
  constructor
  · intro ordered a b stand i j left right merged
    exact ordered ((stable left right merged).mpr stand) i j left right
  · intro ordered a b stand i j left right
    by_contra other
    have sorted := List.pairwise_iff_forall_sublist.mp (pairwise_sortBy field descending rows) stand
    have merged := merged_of_inOrder left right sorted other
    exact other (ordered ((stable left right merged).mp stand) i j left right merged)

namespace HasInts

variable {rows : List Json} {ints : List Int}

/-- Rows in another order have their integers in that order. -/
theorem perm {rows' : List Json} (has : HasInts field rows ints) (order : rows'.Perm rows) :
    ∃ ints', HasInts field rows' ints' ∧ ints'.Perm ints := by
  have found := order.map (intOf? field)
  rw [has] at found
  exact exists_perm_of_map_some found

/-- What holds of any two of the integers holds of any two of the rows that have them. -/
theorem pairwise_iff {R : Int → Int → Prop} (has : HasInts field rows ints) :
    ints.Pairwise R ↔ rows.Pairwise fun a b => ∀ i j, intOf? field a = some i →
      intOf? field b = some j → R i j := by
  let S (v w : Option Int) : Prop := ∀ i j, v = some i → w = some j → R i j
  have inInts : (ints.map some).Pairwise S ↔ ints.Pairwise R := by
    simp only [S, List.pairwise_map, Option.some.injEq, forall_apply_eq_imp_iff, forall_eq']
  rw [← inInts, ← has, List.pairwise_map]

/-- The numbers that a metric of the field is taken of are these. -/
theorem numbers : {rows : List Json} → {ints : List Int} → HasInts field rows ints →
    ∃ values, numbers (some field) (.array rows) = .ok values ∧
      values.map Number.toInt? = ints.map some
  | [], [], _ => ⟨[], rfl, rfl⟩
  | row :: rows, i :: ints, has => by
    obtain ⟨here, behind⟩ := List.cons.inj has
    obtain ⟨values, read, same⟩ := numbers behind
    obtain ⟨fields, inRange, rfl, found⟩ := intOf?_eq_some here
    refine ⟨.integer i inRange :: values, ?_, congrArg (some i :: ·) same⟩
    rw [Rows.numbers] at read ⊢
    rw [List.filterMap_cons, Json.object?]
    simp only [List.mapM_cons, fieldNumber, found, read]
    rfl

end HasInts

end Field

/-! ## Extremes -/

/-- The first of the best in a list, by a key: it is better than what stands before it, and nothing
behind it is better. -/
def FirstBest {α : Type} (descending : Bool) (key : α → Int) (xs : List α) (best : α) : Prop :=
  ∃ front rest, xs = front ++ best :: rest ∧
    (∀ x ∈ front, ¬ Precedes descending (key x) (key best)) ∧
    ∀ x ∈ rest, Precedes descending (key best) (key x)

/-- What is kept on the way through a list, as long as nothing better comes, is the first of the
best. -/
theorem firstBest_foldl {α : Type} {descending : Bool} {key : α → Int} {better : α → α → Bool}
    (tells : ∀ a b, better a b = true ↔ ¬ Precedes descending (key b) (key a)) (xs : List α)
    (start : α) :
    FirstBest descending key (start :: xs)
      (xs.foldl (fun best x => if better x best then x else best) start) := by
  induction xs generalizing start with
  | nil => exact ⟨[], [], rfl, nofun, nofun⟩
  | cons x xs ih =>
    rw [List.foldl_cons]
    by_cases improves : better x start = true
    · rw [if_pos improves]
      obtain ⟨front, rest, split, before, behind⟩ := ih x
      generalize xs.foldl (fun best x => if better x best then x else best) x = best at *
      have worse : ¬ Precedes descending (key start) (key x) := (tells x start).mp improves
      refine ⟨start :: front, rest, congrArg (start :: ·) split, ?_, behind⟩
      apply List.forall_mem_cons.mpr ⟨fun precedes => ?_, before⟩
      -- the best is `x`, or better than `x`
      cases front with
      | nil =>
        obtain ⟨rfl, -⟩ := List.cons.inj split
        exact worse precedes
      | cons x' front =>
        obtain ⟨rfl, -⟩ := List.cons.inj split
        exact worse (precedes.trans (precedes_of_not (before x List.mem_cons_self)))
    · rw [if_neg improves]
      obtain ⟨front, rest, split, before, behind⟩ := ih start
      generalize xs.foldl (fun best x => if better x best then x else best) start = best at *
      have notBetter : Precedes descending (key start) (key x) :=
        Decidable.not_not.mp (mt (tells x start).mpr improves)
      cases front with
      | nil =>
        obtain ⟨rfl, rfl⟩ := List.cons.inj split
        exact ⟨[], x :: xs, rfl, nofun, List.forall_mem_cons.mpr ⟨notBetter, behind⟩⟩
      | cons start' front =>
        obtain ⟨rfl, rfl⟩ := List.cons.inj split
        obtain ⟨worse, before⟩ := List.forall_mem_cons.mp before
        refine ⟨start :: x :: front, rest, rfl, ?_, behind⟩
        refine List.forall_mem_cons.mpr ⟨worse, List.forall_mem_cons.mpr ⟨fun precedes => ?_, before⟩⟩
        exact worse (notBetter.trans precedes)

/-- The metric that is the best in this direction. -/
def extremeMetric (descending : Bool) : Metric :=
  if descending then .max else .min

/-- The extreme of numbers is the first whose nearest double is the best. -/
theorem exists_extreme (descending : Bool) (n : Number) (ns : List Number) :
    ∃ best, (extremeMetric descending).of (n :: ns) = .number best ∧
      FirstBest descending (fun n => n.toDouble.units) (n :: ns) best := by
  cases descending
  case false =>
    refine ⟨_, rfl, firstBest_foldl (fun a b => ?_) ns n⟩
    rw [beq_iff_eq, Double.cmp, Int.compare_eq_lt]
    exact Int.not_le.symm
  case true =>
    refine ⟨_, rfl, firstBest_foldl (fun a b => ?_) ns n⟩
    rw [beq_iff_eq, Double.cmp, Int.compare_eq_gt]
    exact Int.not_le.symm

section Ints

variable {descending : Bool} {ints : List Int} {best : Int}

/-- The first number whose nearest double is the best is itself the best exactly if no number that
stands before the best is merged with it. -/
theorem FirstBest.exact_iff (words : ∀ i ∈ ints, InWordRange i)
    (first : FirstBest descending (fun i => (nearest i).units) ints best) :
    (∀ i ∈ ints, Precedes descending best i) ↔
      ∃ front exactly rest, ints = front ++ exactly :: rest ∧
        (∀ i ∈ ints, Precedes descending exactly i) ∧ ∀ i ∈ front, ¬ Merged i exactly := by
  obtain ⟨front, rest, rfl, before, behind⟩ := first
  constructor
  · intro isBest
    refine ⟨front, best, rest, rfl, isBest, fun i mem merged => before i mem ?_⟩
    have inWords := words i (List.mem_append_left _ mem)
    have bestInWords := words best (List.mem_append_right _ List.mem_cons_self)
    show Precedes descending (nearest i).units (nearest best).units
    rw [(merged_iff inWords bestInWords).mp merged]
    exact precedes_refl _ _
  · rintro ⟨front', exactly, rest', split, isBest, apart⟩
    have best_mem : best ∈ front ++ best :: rest := List.mem_append_right _ List.mem_cons_self
    have exactly_mem : exactly ∈ front ++ best :: rest :=
      split ▸ List.mem_append_right _ List.mem_cons_self
    have precedes := precedes_nearest (words _ exactly_mem) (words _ best_mem) (isBest _ best_mem)
    suffices same : best = exactly from same ▸ isBest
    rcases List.append_eq_append_iff.mp split with ⟨between, rfl, ends⟩ | ⟨between, rfl, ends⟩
    · cases between with
      | nil => exact (List.cons.inj ends).1
      | cons i between =>
        -- what is kept would stand before the best and be merged with it
        obtain ⟨rfl, rfl⟩ := List.cons.inj ends
        have back := behind exactly (List.mem_append_right _ List.mem_cons_self)
        have merged := (merged_iff (words _ best_mem) (words _ exactly_mem)).mpr
          (back.antisymm precedes)
        exact absurd merged (apart best (List.mem_append_right _ List.mem_cons_self))
    · cases between with
      | nil => exact (List.cons.inj ends).1.symm
      | cons i between =>
        obtain ⟨rfl, -⟩ := List.cons.inj ends
        exact absurd precedes (before exactly (List.mem_append_right _ List.mem_cons_self))

/-- The first of the best among whole numbers of rows is the first of the best among the integers
that they are. -/
theorem FirstBest.of_map {values : List Number} {n : Number}
    (same : values.map Number.toInt? = ints.map some)
    (first : FirstBest descending (fun n => n.toDouble.units) values n) :
    ∃ best inRange, n = .integer best inRange ∧
      FirstBest descending (fun i => (nearest i).units) ints best := by
  obtain ⟨front, rest, rfl, before, behind⟩ := first
  rw [List.map_append, List.map_cons, eq_comm, List.map_eq_append_iff] at same
  obtain ⟨front', others, rfl, sameFront, same⟩ := same
  obtain ⟨best, rest', rfl, here, sameRest⟩ := List.map_eq_cons_iff.mp same
  obtain ⟨inRange, rfl⟩ := Number.toInt?_eq_some here.symm
  have number {part : List Number} {part' : List Int}
      (same : part'.map some = part.map Number.toInt?) {i : Int} (mem : i ∈ part') :
      ∃ inRange, .integer i inRange ∈ part := by
    have there : some i ∈ part.map Number.toInt? := same ▸ List.mem_map_of_mem mem
    obtain ⟨n, mem, whole⟩ := List.mem_map.mp there
    obtain ⟨inRange, rfl⟩ := Number.toInt?_eq_some whole
    exact ⟨inRange, mem⟩
  refine ⟨best, inRange, rfl, front', rest', rfl, fun i mem => ?_, fun i mem => ?_⟩
  · obtain ⟨inRange', mem'⟩ := number sameFront mem
    simp only [← toDouble_integer i inRange', ← toDouble_integer best inRange]
    exact before _ mem'
  · obtain ⟨inRange', mem'⟩ := number sameRest mem
    simp only [← toDouble_integer i inRange', ← toDouble_integer best inRange]
    exact behind _ mem'

/-- The extreme is one of the integers. -/
theorem FirstBest.mem (first : FirstBest descending (fun i => (nearest i).units) ints best) :
    best ∈ ints := by
  obtain ⟨front, rest, rfl, -, -⟩ := first
  exact List.mem_append_right _ List.mem_cons_self

end Ints

section Exactness

variable {field : String} {rows : List Json} {ints : List Int}

theorem HasInts.inRange (has : HasInts field rows ints) {i : Int} (mem : i ∈ ints) :
    InWordRange i := by
  have found : some i ∈ rows.map (intOf? field) := has ▸ List.mem_map_of_mem mem
  obtain ⟨row, -, there⟩ := List.mem_map.mp found
  obtain ⟨_, inRange, -⟩ := intOf?_eq_some there
  exact inRange

/-- **Whole numbers are ordered exactly unless they are merged.** Let each of these rows have a whole
number in the field. Sorting succeeds and leaves the same rows, in the order of their numbers exactly
if those that are merged stand in this order already. The least and the greatest number are found
exactly if no number that is merged with it stands before it; what is found is one of the numbers in
any case. Numbers up to 2⁵³ are merged with no other. -/
theorem integers_are_ordered_unless_merged (has : HasInts field rows ints) (nonempty : rows ≠ [])
    (params : Params) :
    (sortField params = .ok field →
      ∃ sorted ints', sort params (.array rows) = .ok (.array sorted) ∧ sorted.Perm rows ∧
        HasInts field sorted ints' ∧
        (ints'.Pairwise (Precedes (isDescending params)) ↔
          ints.Pairwise fun i j => Merged i j → Precedes (isDescending params) i j)) ∧
    (metricField params = some field → ∀ descending,
      ∃ best inRange, aggregate (extremeMetric descending) params (.array rows) =
          .ok (.number (.integer best inRange)) ∧ best ∈ ints ∧
        ((∀ i ∈ ints, Precedes descending best i) ↔
          ∃ front exactly rest, ints = front ++ exactly :: rest ∧
            (∀ i ∈ ints, Precedes descending exactly i) ∧ ∀ i ∈ front, ¬ Merged i exactly)) ∧
    (∀ i j : Int, i.natAbs ≤ 9007199254740992 → j.natAbs ≤ 9007199254740992 →
      Merged i j → i = j) := by
  refine ⟨fun byField => ?_, fun ofField descending => ?_, fun _ _ => Double.eq_of_ofInt?⟩
  · have order := List.mergeSort_perm rows (inOrder field (isDescending params))
    obtain ⟨ints', has', -⟩ := has.perm order
    refine ⟨_, ints', ?_, order, has', ?_⟩
    · rw [sort, byField]
      rfl
    · rw [has'.pairwise_iff, has.pairwise_iff]
      exact pairwise_sortBy_iff (isDescending params) rows
  · obtain ⟨values, read, same⟩ := has.numbers
    obtain ⟨n, ns, rfl⟩ : ∃ n ns, values = n :: ns := by
      apply List.exists_cons_of_ne_nil
      rintro rfl
      have empty := has.trans same.symm
      exact nonempty (List.map_eq_nil_iff.mp empty)
    obtain ⟨_, found, kept⟩ := exists_extreme descending n ns
    obtain ⟨best, inRange, rfl, first⟩ := kept.of_map same
    refine ⟨best, inRange, ?_, first.mem, first.exact_iff fun i => has.inRange⟩
    rw [aggregate, ofField, read]
    exact congrArg Except.ok found

end Exactness

/-- Accounts with large numbers; the second and the third have one nearest double. -/
def ledger : List Json := [
  .object [("id", .ofNat 18446744073709551615)],
  .object [("id", .ofNat 9007199254740992)],
  .object [("id", .ofNat 9007199254740993)],
  .object [("id", .number (.integer (-4611686018427387904) (by decide)))]]

/-- They are put in ascending order, since the merged ones stand in it, and the least is found. -/
theorem ledger_is_ordered :
    HasInts "id" ledger
      [18446744073709551615, 9007199254740992, 9007199254740993, -4611686018427387904] ∧
    ledger ≠ [] ∧
    (∃ sorted ints, sort [("by", .string "id")] (.array ledger) = .ok (.array sorted) ∧
      HasInts "id" sorted ints ∧ ints.Pairwise (Precedes false)) ∧
    ∃ least inRange, aggregate (extremeMetric false) [("field", .string "id")] (.array ledger) =
        .ok (.number (.integer least inRange)) ∧
      ∀ i ∈ [18446744073709551615, 9007199254740992, 9007199254740993, -4611686018427387904],
        Precedes false least i := by
  have has : HasInts "id" ledger
    [18446744073709551615, 9007199254740992, 9007199254740993, -4611686018427387904] := rfl
  have nonempty : ledger ≠ [] := by decide
  obtain ⟨sorting, -, -⟩ :=
    integers_are_ordered_unless_merged has nonempty [("by", .string "id")]
  obtain ⟨-, extreme, -⟩ :=
    integers_are_ordered_unless_merged has nonempty [("field", .string "id")]
  obtain ⟨sorted, ints, ran, -, has', ordered⟩ := sorting rfl
  obtain ⟨least, inRange, found, -, exactly⟩ := extreme rfl false
  refine ⟨has, nonempty, ⟨sorted, ints, ran, has', ordered.mpr (by decide +kernel)⟩,
    least, inRange, found, exactly.mpr
      ⟨[18446744073709551615, 9007199254740992, 9007199254740993], _, [], rfl, ?_, ?_⟩⟩
  · decide
  · decide +kernel

/-- Two numbers that are merged, the greater one first. -/
def neighbours : List Json := [
  .object [("id", .ofNat 9007199254740993)],
  .object [("id", .ofNat 9007199254740992)]]

/-- Sorting leaves merged numbers out of order in either direction, and the first of them is taken
for the least and for the greatest. -/
theorem neighbours_stay_unsorted :
    HasInts "id" neighbours [9007199254740993, 9007199254740992] ∧
    sort [("by", .string "id")] (.array neighbours) = .ok (.array neighbours) ∧
    sort [("by", .string "id"), ("order", .string "desc")] (.array neighbours.reverse) =
      .ok (.array neighbours.reverse) ∧
    aggregate .min [("field", .string "id")] (.array neighbours) =
      .ok (.ofNat 9007199254740993) ∧
    aggregate .max [("field", .string "id")] (.array neighbours.reverse) =
      .ok (.ofNat 9007199254740992) := by
  have stays (descending : Bool) (rows : List Json)
      (ordered : rows.Pairwise fun a b => inOrder "id" descending a b = true) :
      sortBy "id" descending rows = rows :=
    List.mergeSort_of_pairwise ordered
  have kept (wanted : Ordering) (other : .eq ≠ wanted) {a b : Number}
      (same : b.toDouble.cmp a.toDouble = .eq) : extreme wanted [a, b] = .number a := by
    simp only [extreme, List.foldl_cons, List.foldl_nil, same, beq_eq_false_iff_ne.mpr other,
      Bool.false_eq_true, ↓reduceIte]
  refine ⟨rfl, ?_, ?_, ?_, ?_⟩
  · exact congrArg (fun rows => Except.ok (Json.array rows)) (stays false _ (by decide +kernel))
  · exact congrArg (fun rows => Except.ok (Json.array rows)) (stays true _ (by decide +kernel))
  · exact congrArg Except.ok (kept .lt (by decide) (by decide +kernel))
  · exact congrArg Except.ok (kept .gt (by decide) (by decide +kernel))

end Rows

end Pipework
