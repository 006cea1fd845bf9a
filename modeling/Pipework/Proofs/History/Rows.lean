import Mathlib.Data.List.Nodup
import Mathlib.Data.List.Sort
import Pipework.History.Shelf
import Pipework.History.Table
import Pipework.Proofs.Instant.Written
import Pipework.Proofs.Outcome
import Pipework.Proofs.Uuid

/-!
# Rows of summaries

A summary comes back from its row as it was: its texts are read back and its counts are the same
words. Rows are told apart by their identifiers as summaries are, and they sort by their starts as
summaries do while the years have four digits.

Sorting settles the order of a list up to elements that the order cannot tell apart, whatever the
order of the list before. So it is for listings, where starts differ, and for names, where equal
ones are dropped before or after.
-/

namespace Pipework

namespace Row

/-! ## One summary -/

/-- The row of a summary is read as that summary. -/
theorem toSummary_ofSummary (run : RunSummary) : (ofSummary run).toSummary = .ok run := by
  have time (column : String) (t : Instant) : instant column t.offsetText = .ok t := by
    rw [instant, Instant.ofText?_offsetText]
  have name (status : Status) : Status.ofName? status.name = some status := by
    cases status <;> rfl
  obtain ⟨id, pipeline, status, startedAt, completedAt, steps, errors⟩ := run
  cases completedAt <;>
    simp only [toSummary, ofSummary, Uuid.parse_text, name, time, Option.map_none, Option.map_some,
      UInt64.toUInt64_toInt64] <;> rfl

/-- The rows of a run are those with the text of its identifier. -/
theorem id_ofSummary (run : RunSummary) (id : Uuid) :
    (ofSummary run).id = id.text ↔ run.id = id :=
  Uuid.text_inj

/-- Rows of summaries are read as the summaries. -/
theorem mapM_toSummary (runs : List RunSummary) :
    (runs.map ofSummary).mapM toSummary = .ok runs := by
  induction runs with
  | nil => rfl
  | cons run runs ih =>
    rw [List.map_cons, List.mapM_cons, toSummary_ofSummary, ih]
    rfl

/-- Rows sort by their texts as summaries by their starts. -/
theorem newerFirst_ofSummary {a b : RunSummary} (ha : a.startedAt.HasPlainYear)
    (hb : b.startedAt.HasPlainYear) :
    Table.newerFirst (ofSummary a) (ofSummary b) = Shelf.newerFirst a b :=
  decide_eq_decide.mpr (Instant.offsetText_le_iff hb ha)

end Row

/-! ## Order -/

section Order

variable {α : Type}

/-- Lists with the same elements are sorted alike by an order that tells them apart. -/
theorem mergeSort_eq_of_perm {le : α → α → Bool} (trans : ∀ a b c, le a b → le b c → le a c)
    (total : ∀ a b, le a b || le b a) {as bs : List α} (perm : as.Perm bs)
    (apart : ∀ a ∈ bs, ∀ b ∈ bs, le a b → le b a → a = b) : as.mergeSort le = bs.mergeSort le := by
  have same := (List.mergeSort_perm as le).trans (perm.trans (List.mergeSort_perm bs le).symm)
  refine List.Perm.eq_of_pairwise ?_ (List.pairwise_mergeSort trans total as)
    (List.pairwise_mergeSort trans total bs) same
  intro a b ha hb
  exact apart a (List.mem_mergeSort.mp (same.mem_iff.mp ha)) b (List.mem_mergeSort.mp hb)

variable [LinearOrder α]

/-- What is left of a sorted list without repetitions, and its elements. -/
theorem eraseReps_loop (acc : List α) {a : α} {as : List α} (sorted : (a :: as).Pairwise (· ≤ ·))
    (strict : (acc.reverse ++ [a]).Pairwise (· < ·)) :
    (List.eraseRepsBy.loop (· == ·) a as acc).Pairwise (· < ·) ∧
      ∀ x, x ∈ List.eraseRepsBy.loop (· == ·) a as acc ↔ x ∈ acc ∨ x ∈ a :: as := by
  induction as generalizing a acc with
  | nil =>
    rw [List.eraseRepsBy.loop, List.reverse_cons]
    refine ⟨strict, fun x => ?_⟩
    rw [List.mem_append, List.mem_reverse]
  | cons b as ih =>
    have ⟨first, rest⟩ := List.pairwise_cons.mp sorted
    rw [List.eraseRepsBy.loop]
    split
    next same =>
      obtain rfl : a = b := eq_of_beq same
      obtain ⟨strict, mem⟩ := ih _ rest strict
      refine ⟨strict, fun x => (mem x).trans ?_⟩
      simp only [List.mem_cons, ← or_assoc, or_self]
    next other =>
      have less : a < b := lt_of_le_of_ne (first b List.mem_cons_self) (ne_of_beq_false other)
      have strict : ((a :: acc).reverse ++ [b]).Pairwise (· < ·) := by
        rw [List.reverse_cons]
        refine List.pairwise_append.mpr ⟨strict, List.pairwise_singleton _ _, ?_⟩
        intro x hx y hy
        rw [List.mem_singleton.mp hy]
        rcases List.mem_append.mp hx with before | last
        · have before := (List.pairwise_append.mp strict).2.2 x before a (List.mem_singleton.mpr rfl)
          exact lt_trans before less
        · rwa [List.mem_singleton.mp last]
      obtain ⟨strict, mem⟩ := ih _ rest strict
      refine ⟨strict, fun x => (mem x).trans ?_⟩
      simp only [List.mem_cons]
      tauto

/-- A sorted list without repetitions ascends, and has the same elements. -/
theorem eraseReps_of_sorted {as : List α} (sorted : as.Pairwise (· ≤ ·)) :
    as.eraseReps.Pairwise (· < ·) ∧ ∀ x, x ∈ as.eraseReps ↔ x ∈ as := by
  cases as with
  | nil => exact ⟨List.Pairwise.nil, fun _ => Iff.rfl⟩
  | cons a as =>
    obtain ⟨strict, mem⟩ := eraseReps_loop [] sorted (List.pairwise_singleton _ _)
    exact ⟨strict, fun x => (mem x).trans (or_iff_right List.not_mem_nil)⟩

theorem nodup_eraseDups (as : List α) : as.eraseDups.Nodup := by
  induction n : as.length using Nat.strongRecOn generalizing as with
  | ind n ih =>
    cases as with
    | nil => exact List.nodup_nil
    | cons a as =>
      subst n
      rw [List.eraseDups_cons]
      refine List.nodup_cons.mpr ⟨?_, ih _ ?_ _ rfl⟩
      · intro mem
        have kept := (List.mem_filter.mp (List.mem_eraseDups.mp mem)).2
        simp at kept
      · exact Nat.lt_succ_of_le (List.length_filter_le _ _)

/-- Repetitions may be dropped before or after sorting. -/
theorem mergeSort_eraseDups {as bs : List α} (perm : as.Perm bs) :
    (as.eraseDups.mergeSort fun a b => decide (a ≤ b)) =
      (bs.mergeSort fun a b => decide (a ≤ b)).eraseReps := by
  have sorted := List.pairwise_mergeSort' (α := α) (· ≤ ·)
  obtain ⟨ascends, mem⟩ := eraseReps_of_sorted (sorted bs)
  refine List.Perm.eq_of_pairwise (fun a b _ _ => le_antisymm) (sorted _)
    (ascends.imp le_of_lt) ?_
  have nodup := nodup_eraseDups as
  rw [List.perm_ext_iff_of_nodup (List.nodup_mergeSort.mpr nodup) (ascends.imp ne_of_lt)]
  intro x
  rw [mem, List.mem_mergeSort, List.mem_mergeSort, List.mem_eraseDups, perm.mem_iff]

end Order

end Pipework
