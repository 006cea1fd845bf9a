import Pipework.Proofs.Rows.Filtering
import Pipework.Proofs.Rows.Ordering

/-!
# Sorted rows

All values have one order: null, booleans, numbers, texts, lists, objects. Booleans, numbers and texts
are ordered among themselves, numbers by their nearest doubles; lists are all alike in it, and so are
objects. `Before` says this without the program's comparison, which decides it. The order is a total
preorder.

Rows are sorted by the value of a field, in which an absent one counts as the number 0. What comes out
is told by three laws: they are the same rows, none stands behind one that it should stand in front of,
and rows that are alike stand as they stood, whatever the direction. No other list has all three.
-/

namespace Pipework.Rows

/-! ## The order of all values -/

/-- A value stands before another: its kind does, or it is less within a kind. -/
inductive Before : Json → Json → Prop
  | kind {a b : Json} (first : rank a < rank b) : Before a b
  | less {a b : Json} (less : Less a b) : Before a b

/-- Values of which neither stands before the other. -/
def Tied (a b : Json) : Prop := ¬ Before a b ∧ ¬ Before b a

/-- What is less than something is of its kind. -/
theorem Less.rank_eq {a b : Json} (less : Less a b) : rank a = rank b := by
  cases less <;> rfl

/-- The comparison answers less where the one value stands before the other. -/
theorem sortOrder_eq_lt {a b : Json} : sortOrder a b = .lt ↔ Before a b := by
  have within : (compare? a b).getD .eq = .lt ↔ Less a b := by
    rw [← compare?_eq_lt]
    cases compare? a b with
    | none => exact iff_of_false nofun nofun
    | some o => exact (Option.some_inj).symm
  rw [sortOrder_eq, Ordering.then_eq_lt, Nat.compare_eq_lt, Nat.compare_eq_eq, within]
  constructor
  · intro before
    cases before with
    | inl first => exact .kind first
    | inr less => exact .less less.2
  · intro before
    cases before with
    | kind first => exact .inl first
    | less less => exact .inr ⟨less.rank_eq, less⟩

/-- It answers greater where it is the other way round. -/
theorem sortOrder_eq_gt {a b : Json} : sortOrder a b = .gt ↔ Before b a := by
  rw [← sortOrder_eq_lt, ← sortOrder_swap a b]
  cases sortOrder a b <;> decide

/-- It answers equal where the values are tied. -/
theorem sortOrder_eq_eq {a b : Json} : sortOrder a b = .eq ↔ Tied a b := by
  rw [Tied, ← sortOrder_eq_lt, ← sortOrder_eq_gt]
  cases sortOrder a b <;> decide

/-- It answers at most where the second does not stand before the first. -/
theorem isLE_sortOrder {a b : Json} : (sortOrder a b).isLE = true ↔ ¬ Before b a := by
  rw [← sortOrder_eq_gt]
  cases sortOrder a b <;> decide

instance : DecidableRel Before := fun _ _ => decidable_of_iff _ sortOrder_eq_lt

instance : DecidableRel Tied := fun _ _ => inferInstanceAs (Decidable (_ ∧ _))

/-- The comparison is reflexive. -/
theorem sortOrder_self (a : Json) : sortOrder a a = .eq := by
  have swapped := sortOrder_swap a a
  revert swapped
  cases sortOrder a a <;> decide

/-- The comparison is total. -/
theorem isLE_sortOrder_total (a b : Json) :
    (sortOrder a b).isLE = true ∨ (sortOrder b a).isLE = true := by
  rw [← sortOrder_swap a b]
  cases sortOrder a b <;> decide

/-! ## Rows in order -/

/-- In this direction the value may stand in front of the other. -/
def MayPrecede (descending : Bool) (a b : Json) : Prop :=
  if descending then ¬ Before a b else ¬ Before b a

instance (descending : Bool) (a b : Json) : Decidable (MayPrecede descending a b) :=
  inferInstanceAs (Decidable (ite _ _ _))

/-- The rows in the order of a field: they are the same, none may only stand behind a later one, and
those that are tied with a value stand as they stood. -/
structure Sorts (field : String) (descending : Bool) (rows sorted : List Json) : Prop where
  perm : sorted.Perm rows
  ordered : sorted.Pairwise fun a b => MayPrecede descending (sortKey field a) (sortKey field b)
  stable : ∀ v, (sorted.filter fun row => Tied (sortKey field row) v) =
    rows.filter fun row => Tied (sortKey field row) v

section Field

variable {field : String} {descending : Bool}

/-- The program puts rows in the order that `MayPrecede` names. -/
theorem inOrder_iff_mayPrecede {a b : Json} : inOrder field descending a b = true ↔
    MayPrecede descending (sortKey field a) (sortKey field b) := by
  rw [inOrder_eq, MayPrecede]
  cases descending
  · exact isLE_sortOrder
  · exact isLE_sortOrder

/-- Rows are tied if each may stand in front of the other. -/
theorem isAlike_inOrder (a b : Json) : isAlike (inOrder field descending) a b =
    decide (Tied (sortKey field b) (sortKey field a)) := by
  rw [isAlike, Bool.eq_iff_iff, Bool.and_eq_true, decide_eq_true_eq, inOrder_iff_mayPrecede,
    inOrder_iff_mayPrecede, Tied, MayPrecede, MayPrecede]
  cases descending
  · exact Iff.rfl
  · exact and_comm

/-- Rows that are tied with one value may stand in either order. -/
theorem inOrder_of_tied {a b v : Json} (left : Tied (sortKey field a) v)
    (right : Tied (sortKey field b) v) : inOrder field descending a b = true := by
  have between {a b : Json} (left : Tied (sortKey field a) v) (right : Tied (sortKey field b) v) :
      (sortOrder (sortKey field a) (sortKey field b)).isLE = true :=
    isLE_sortOrder_trans (isLE_sortOrder.mpr left.2) (isLE_sortOrder.mpr right.1)
  rw [inOrder_eq]
  cases descending
  · exact between left right
  · exact between right left

/-- A merge sort obeys the three laws. -/
theorem sorts_sortBy (rows : List Json) :
    Sorts field descending rows (sortBy field descending rows) where
  perm := List.mergeSort_perm rows _
  ordered := (pairwise_sortBy field descending rows).imp inOrder_iff_mayPrecede.mp
  stable v := by
    apply filter_mergeSort_of_alike (inOrder_trans field descending) (inOrder_total field descending)
    intro a b left right
    exact inOrder_of_tied (of_decide_eq_true left) (of_decide_eq_true right)

/-- The rows have one order only. -/
theorem Sorts.unique {rows sorted sorted' : List Json} (sorts : Sorts field descending rows sorted)
    (sorts' : Sorts field descending rows sorted') : sorted = sorted' := by
  apply eq_of_pairwise_of_filter (inOrder_total field descending)
  · exact sorts.ordered.imp inOrder_iff_mayPrecede.mpr
  · exact sorts'.ordered.imp inOrder_iff_mayPrecede.mpr
  · intro row
    have tied : isAlike (inOrder field descending) row =
        fun b => decide (Tied (sortKey field b) (sortKey field row)) := funext (isAlike_inOrder row)
    rw [tied, sorts.stable, sorts'.stable]

/-- Sorting succeeds as soon as a field is named. -/
theorem sort_of_sortField {params : Params} (byField : sortField params = .ok field)
    (rows : List Json) :
    sort params (.array rows) = .ok (.array (sortBy field (isDescending params) rows)) := by
  rw [sort, byField]
  rfl

end Field

/-- **Values have a total preorder, and rows are sorted by it.** The comparison of all values is
reflexive, total and transitive, and it decides what stands before what. Sorting a list of rows by a
field succeeds: it gives the same rows, in the order of their values in the field, ascending or
descending; and in both directions rows of tied values stand as they stood. Only one list does. -/
theorem rows_are_sorted_by_total_preorder :
    ((∀ a, sortOrder a a = .eq) ∧
      (∀ a b, (sortOrder a b).isLE = true ∨ (sortOrder b a).isLE = true) ∧
      ∀ a b c, (sortOrder a b).isLE = true → (sortOrder b c).isLE = true →
        (sortOrder a c).isLE = true) ∧
    (∀ a b, (sortOrder a b = .lt ↔ Before a b) ∧ (sortOrder a b = .eq ↔ Tied a b) ∧
      (sortOrder a b = .gt ↔ Before b a)) ∧
    ∀ (params : Params) (field : String) (rows : List Json), sortField params = .ok field →
      ∃ sorted, sort params (.array rows) = .ok (.array sorted) ∧
        Sorts field (isDescending params) rows sorted ∧
        ∀ other, Sorts field (isDescending params) rows other → other = sorted := by
  refine ⟨⟨sortOrder_self, isLE_sortOrder_total, fun _ _ _ => isLE_sortOrder_trans⟩,
    fun _ _ => ⟨sortOrder_eq_lt, sortOrder_eq_eq, sortOrder_eq_gt⟩, ?_⟩
  intro params field rows byField
  refine ⟨_, sort_of_sortField byField rows, sorts_sortBy rows, ?_⟩
  intro other sorts
  exact sorts.unique (sorts_sortBy rows)

/-- Values of all kinds, and three rows that count as 0. -/
def mixture : List Json := [
  .object [("k", .ofNat 2)],
  .string "note",
  .object [("k", .null)],
  .object [("k", .number (.double (.zero true)))],
  .object [("k", .string "a")],
  .object [("k", .array [])],
  .object [("k", .bool true)],
  .object []]

/-- Sorted up or down, the three rows that count as 0 stand as they stood. -/
theorem mixture_is_sorted :
    sortField [("by", .string "k")] = .ok "k" ∧
    sortField [("by", .string "k"), ("order", .string "DESC")] = .ok "k" ∧
    ∃ up down, sort [("by", .string "k")] (.array mixture) = .ok (.array up) ∧
      sort [("by", .string "k"), ("order", .string "DESC")] (.array mixture) = .ok (.array down) ∧
      Sorts "k" false mixture up ∧ Sorts "k" true mixture down ∧
      (up.filter fun row => Tied (sortKey "k" row) (.ofNat 0)) =
        [.string "note", .object [("k", .number (.double (.zero true)))], .object []] ∧
      (down.filter fun row => Tied (sortKey "k" row) (.ofNat 0)) =
        [.string "note", .object [("k", .number (.double (.zero true)))], .object []] := by
  have zeros : (mixture.filter fun row => Tied (sortKey "k" row) (.ofNat 0)) =
      [.string "note", .object [("k", .number (.double (.zero true)))], .object []] := by
    have which : mixture.map (fun row => decide (Tied (sortKey "k" row) (.ofNat 0))) =
        [false, true, false, true, false, false, false, true] := by decide +kernel
    simp only [mixture, List.map_cons, List.cons.injEq] at which
    simp only [mixture, List.filter_cons, List.filter_nil, which, Bool.false_eq_true, ↓reduceIte]
  obtain ⟨-, -, sorting⟩ := rows_are_sorted_by_total_preorder
  obtain ⟨up, ran, sorts, -⟩ := sorting [("by", .string "k")] "k" mixture rfl
  obtain ⟨down, ran', sorts', -⟩ :=
    sorting [("by", .string "k"), ("order", .string "DESC")] "k" mixture rfl
  exact ⟨rfl, rfl, up, down, ran, ran', sorts, sorts', (sorts.stable _).trans zeros,
    (sorts'.stable _).trans zeros⟩

end Pipework.Rows
