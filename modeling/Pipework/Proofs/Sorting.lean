/-!
# Sorting keeps what is alike

A merge sort is stable: what the order does not tell apart stays as it stands. Two forms of this are
used. A kind of things that are all alike keeps its order through the sort, and two things that are
alike stand in the sorted list as they stand in the list itself.

The first form leaves no choice. In order, with everything alike as it stood, there is one list only.
-/

namespace Pipework

variable {α : Type}

/-- The order does not tell the two apart. -/
def isAlike (le : α → α → Bool) (a b : α) : Bool :=
  le a b && le b a

variable {le : α → α → Bool}
  (trans : ∀ a b c, le a b = true → le b c = true → le a c = true)
  (total : ∀ a b, (le a b || le b a) = true)

include trans total

/-- Sorting keeps things of a kind as they stand, if they are all alike. -/
theorem filter_mergeSort_of_alike {kind : α → Bool}
    (alike : ∀ a b, kind a = true → kind b = true → le a b = true) (xs : List α) :
    (xs.mergeSort le).filter kind = xs.filter kind := by
  have ordered : (xs.filter kind).Pairwise fun a b => le a b = true :=
    List.pairwise_of_forall_mem_list fun a ha b hb =>
      alike a b (List.mem_filter.mp ha).2 (List.mem_filter.mp hb).2
  have kept := (List.sublist_mergeSort trans total ordered List.filter_sublist).filter kind
  rw [List.filter_filter] at kept
  simp only [Bool.and_self] at kept
  exact (kept.eq_of_length ((List.mergeSort_perm xs le).filter kind).length_eq.symm).symm

/-- Two things that are alike are sorted as they stand. -/
theorem pair_sublist_mergeSort_iff {a b : α} (ab : le a b = true) (ba : le b a = true)
    {xs : List α} : [a, b].Sublist (xs.mergeSort le) ↔ [a, b].Sublist xs := by
  refine ⟨fun sorted => ?_, List.pair_sublist_mergeSort trans total ab⟩
  have aa : le a a = true := trans a b a ab ba
  have alike (x y : α) (hx : isAlike le a x = true) (hy : isAlike le a y = true) :
      le x y = true :=
    trans x a y (Bool.and_eq_true_iff.mp hx).2 (Bool.and_eq_true_iff.mp hy).1
  have both : [a, b].filter (isAlike le a) = [a, b] := by
    simp only [isAlike, List.filter_cons, aa, ab, ba, Bool.and_self, ↓reduceIte, List.filter_nil]
  have filtered := sorted.filter (isAlike le a)
  rw [both, filter_mergeSort_of_alike trans total alike] at filtered
  exact filtered.trans List.filter_sublist

omit trans in
/-- Lists in order are the same if things that are alike stand in both as they do in the other. -/
theorem eq_of_pairwise_of_filter {xs ys : List α} (inOrder : xs.Pairwise fun a b => le a b = true)
    (inOrder' : ys.Pairwise fun a b => le a b = true)
    (same : ∀ a, xs.filter (isAlike le a) = ys.filter (isAlike le a)) :
    xs = ys := by
  have self (a : α) : le a a = true := (Bool.or_self _).symm.trans (total a a)
  have mem {zs zs' : List α} {a : α} (mem : a ∈ zs)
      (same : zs.filter (isAlike le a) = zs'.filter (isAlike le a)) :
      a ∈ zs' := by
    have kept : a ∈ zs.filter (isAlike le a) :=
      List.mem_filter.mpr ⟨mem, Bool.and_eq_true_iff.mpr ⟨self a, self a⟩⟩
    rw [same] at kept
    exact (List.mem_filter.mp kept).1
  induction xs generalizing ys with
  | nil =>
    cases ys with
    | nil => rfl
    | cons y ys => cases mem List.mem_cons_self (same y).symm
  | cons x xs ih =>
    cases ys with
    | nil => cases mem List.mem_cons_self (same x)
    | cons y ys =>
      obtain ⟨first, rest⟩ := List.pairwise_cons.mp inOrder
      obtain ⟨first', rest'⟩ := List.pairwise_cons.mp inOrder'
      -- Each head stands in the other list, so neither is behind the other.
      have xy : le x y = true := by
        rcases List.mem_cons.mp (mem List.mem_cons_self (same y).symm) with rfl | behind
        · exact self y
        · exact first y behind
      have yx : le y x = true := by
        rcases List.mem_cons.mp (mem List.mem_cons_self (same x)) with rfl | behind
        · exact self x
        · exact first' x behind
      have heads := same x
      simp only [isAlike, List.filter_cons, self x, xy, yx, Bool.and_self, ↓reduceIte] at heads
      obtain ⟨rfl, -⟩ := List.cons.inj heads
      refine congrArg (x :: ·) (ih rest rest' fun a => ?_)
      have both := same a
      rw [List.filter_cons, List.filter_cons] at both
      split at both
      · exact (List.cons.inj both).2
      · exact both

end Pipework
