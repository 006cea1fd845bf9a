import Mathlib.Data.Finset.Card
import Pipework.Proofs.History.Rows

/-!
# What a shelf keeps

Runs are saved on a shelf one after the other, and a run may be saved more than once. Of each run the
shelf keeps the summary that was saved last (`mem_iff`), and keeps it once (`nodup_ids`); every
answer follows from these two facts. A listing is a sorted shelf cut off at the limit, so that no run
left out is newer than one that is listed. A name is listed while some run has it, and no longer.

No order of the shelf is relied on. It may change at any time, and then runs that started together
may be listed in another order, and another of them may be left out.
-/

namespace Pipework

/-- The summary of a run that was saved last. -/
def lastSaved (runs : List RunSummary) (id : Uuid) : Option RunSummary :=
  runs.reverse.find? (·.id = id)

/-- What is found for a run is a summary of it. -/
theorem id_of_find? {runs : List RunSummary} {id : Uuid} {run : RunSummary}
    (found : runs.find? (fun run => decide (run.id = id)) = some run) : run.id = id := by
  have same := List.find?_some found
  exact of_decide_eq_true same

theorem lastSaved_concat (runs : List RunSummary) (run : RunSummary) (id : Uuid) :
    lastSaved (runs ++ [run]) id = if run.id = id then some run else lastSaved runs id := by
  rw [lastSaved, List.reverse_append, List.reverse_singleton, List.singleton_append,
    List.find?_cons]
  split
  next same => rw [if_pos (of_decide_eq_true same)]
  next other => rw [if_neg (of_decide_eq_false other), lastSaved]

/-- The summaries that were saved last, each for its run, of one pipeline or of all. -/
def matchingRuns (runs : List RunSummary) (pipeline : Option String) : Finset RunSummary :=
  runs.toFinset.filter fun run =>
    lastSaved runs run.id = some run ∧ Shelf.matching pipeline run = true

theorem mem_matchingRuns {runs : List RunSummary} {pipeline : Option String} {run : RunSummary} :
    run ∈ matchingRuns runs pipeline ↔
      lastSaved runs run.id = some run ∧ Shelf.matching pipeline run = true := by
  rw [matchingRuns, Finset.mem_filter, List.mem_toFinset, and_iff_right_iff_imp]
  intro ⟨last, _⟩
  exact List.mem_reverse.mp (List.mem_of_find?_eq_some last)

/-- As many of these summaries as the limit allows, newest first. Where runs started together,
nothing is said of their order, nor of which of them is left out. -/
structure Newest (candidates : Finset RunSummary) (limit : Nat) (listed : List RunSummary) :
    Prop where
  length : listed.length = min limit candidates.card
  distinct : (listed.map (·.id)).Nodup
  members : ∀ run ∈ listed, run ∈ candidates
  sorted : listed.Pairwise fun a b => b.startedAt.nanoseconds ≤ a.startedAt.nanoseconds
  leftOut : ∀ run ∈ candidates, run ∉ listed →
    ∀ other ∈ listed, run.startedAt.nanoseconds ≤ other.startedAt.nanoseconds

namespace Shelf

/-- A shelf on which these runs have been saved, one after the other, and which may have taken
another order at any time. -/
inductive Holds : List RunSummary → Shelf → Prop
  | empty : Holds [] []
  | save {runs : List RunSummary} {shelf : Shelf} (holds : Holds runs shelf) (run : RunSummary) :
      Holds (runs ++ [run]) (shelf.save run)
  | reorder {runs : List RunSummary} {shelf taken : Shelf} (holds : Holds runs shelf)
      (order : taken.Perm shelf) : Holds runs taken

/-- Saving runs one by one is one way to hold them. -/
theorem holds_foldl_save (runs : List RunSummary) : Holds runs (runs.foldl save []) := by
  induction runs using List.reverseRecOn with
  | nil => exact .empty
  | append_singleton runs run ih =>
    rw [List.foldl_append]
    exact ih.save run

/-- The newest first, if the summary that started no later comes later. -/
theorem pairwise_mergeSort_newerFirst (shelf : Shelf) :
    (shelf.mergeSort newerFirst).Pairwise fun a b =>
      b.startedAt.nanoseconds ≤ a.startedAt.nanoseconds := by
  have sorted : (shelf.mergeSort newerFirst).Pairwise fun a b => newerFirst a b = true := by
    apply List.pairwise_mergeSort
    · intro a b c ab bc
      exact decide_eq_true (Int.le_trans (of_decide_eq_true bc) (of_decide_eq_true ab))
    · intro a b
      rw [Bool.or_eq_true]
      exact (Int.le_total _ _).imp decide_eq_true decide_eq_true
  exact sorted.imp of_decide_eq_true

namespace Holds

variable {runs : List RunSummary} {shelf : Shelf}

/-- Each run is kept once. -/
theorem nodup_ids (holds : Holds runs shelf) : (shelf.map (·.id)).Nodup := by
  induction holds with
  | empty => exact List.nodup_nil
  | @save runs shelf holds run ih =>
    rw [Shelf.save, List.map_cons]
    refine List.nodup_cons.mpr ⟨?_, ih.sublist (List.filter_sublist.map _)⟩
    intro mem
    obtain ⟨other, kept, same⟩ := List.mem_map.mp mem
    exact of_decide_eq_true (List.mem_filter.mp kept).2 same
  | reorder holds order ih => exact (order.map _).nodup_iff.mpr ih

/-- What is kept of a run is what was saved last. -/
theorem mem_iff (holds : Holds runs shelf) (run : RunSummary) :
    run ∈ shelf ↔ lastSaved runs run.id = some run := by
  induction holds with
  | empty => exact ⟨nofun, nofun⟩
  | @save runs shelf holds saved ih =>
    rw [lastSaved_concat, Shelf.save, List.mem_cons, List.mem_filter, ih]
    by_cases same : saved.id = run.id
    · rw [if_pos same, Option.some.injEq, eq_comm (a := saved), or_iff_left_iff_imp]
      rintro ⟨-, other⟩
      exact absurd same.symm (of_decide_eq_true other)
    · rw [if_neg same]
      have other : run.id ≠ saved.id := Ne.symm same
      constructor
      · rintro (rfl | ⟨last, -⟩)
        · exact absurd rfl same
        · exact last
      · exact fun last => .inr ⟨last, decide_eq_true other⟩
  | reorder holds order ih => rw [order.mem_iff, ih]

/-! ## Answers -/

/-- A run is loaded as it was saved last. -/
theorem load?_eq (holds : Holds runs shelf) (id : Uuid) : shelf.load? id = lastSaved runs id := by
  cases found : shelf.load? id with
  | none =>
    cases last : lastSaved runs id with
    | none => rfl
    | some run =>
      obtain rfl : run.id = id := id_of_find? last
      have kept := (holds.mem_iff run).mpr last
      have other := List.find?_eq_none.mp found run kept
      exact absurd (decide_eq_true rfl) other
  | some run =>
    have same : run.id = id := id_of_find? found
    have kept := List.mem_of_find?_eq_some found
    rw [← same, (holds.mem_iff run).mp kept]

/-- Of a pipeline the shelf has the runs that were saved for it last. -/
theorem toFinset_filter (holds : Holds runs shelf) (pipeline : Option String) :
    (shelf.filter (matching pipeline)).toFinset = matchingRuns runs pipeline := by
  ext run
  rw [List.mem_toFinset, List.mem_filter, holds.mem_iff, mem_matchingRuns]

/-- A listing has the newest runs, up to the limit. -/
theorem list_newest (holds : Holds runs shelf) (pipeline : Option String) (limit : UInt64) :
    Newest (matchingRuns runs pipeline) limit.toNat (shelf.list pipeline limit) := by
  have candidates := holds.toFinset_filter pipeline
  have distinct : ((shelf.filter (matching pipeline)).map (·.id)).Nodup :=
    holds.nodup_ids.sublist (List.filter_sublist.map _)
  have order := List.mergeSort_perm (shelf.filter (matching pipeline)) newerFirst
  have sorted := pairwise_mergeSort_newerFirst (shelf.filter (matching pipeline))
  have mem (run : RunSummary) : run ∈ matchingRuns runs pipeline ↔
      run ∈ (shelf.filter (matching pipeline)).mergeSort newerFirst := by
    rw [← candidates, List.mem_toFinset, order.mem_iff]
  refine ⟨?_, ?_, ?_, ?_, ?_⟩
  · rw [Shelf.list, List.length_take, order.length_eq, ← candidates,
      List.toFinset_card_of_nodup distinct.of_map]
  · exact ((order.map _).nodup_iff.mpr distinct).sublist ((List.take_sublist _ _).map _)
  · exact fun run listed => (mem run).mpr (List.mem_of_mem_take listed)
  · exact sorted.sublist (List.take_sublist _ _)
  · intro run candidate leftOut other listed
    rw [mem, ← List.take_append_drop limit.toNat (List.mergeSort _ _), List.mem_append] at candidate
    rw [← List.take_append_drop limit.toNat (List.mergeSort _ _), List.pairwise_append] at sorted
    exact sorted.2.2 other listed run (candidate.resolve_left leftOut)

/-- Names are listed in order, each once. -/
theorem pipelines_ascend (shelf : Shelf) : shelf.pipelines.Pairwise (· < ·) :=
  (eraseReps_of_sorted (List.pairwise_mergeSort' (· ≤ ·) _)).1

/-- A name is listed while a run has it. -/
theorem mem_pipelines (holds : Holds runs shelf) (name : String) :
    name ∈ shelf.pipelines ↔ ∃ id run, lastSaved runs id = some run ∧ run.pipeline = name := by
  have mem := (eraseReps_of_sorted
    (List.pairwise_mergeSort' (· ≤ ·) (shelf.map (·.pipeline)))).2 name
  rw [Shelf.pipelines, mem, List.mem_mergeSort, List.mem_map]
  constructor
  · rintro ⟨run, kept, named⟩
    exact ⟨run.id, run, (holds.mem_iff run).mp kept, named⟩
  · rintro ⟨id, run, last, named⟩
    obtain rfl : run.id = id := id_of_find? last
    exact ⟨run, (holds.mem_iff run).mpr last, named⟩

end Holds

/-- **A shelf keeps what was saved last.** Whatever runs are saved on it and whatever order it takes,
a run is loaded as it was saved last, a listing gives as many of these summaries as the limit allows,
no newer one being left out, and the pipelines named are just those of these summaries, in ascending
order. So a name is gone when its only run is saved again for another pipeline. -/
theorem keeps_what_was_saved_last {runs : List RunSummary} {shelf : Shelf}
    (holds : Holds runs shelf) :
    (∀ id, shelf.load? id = lastSaved runs id) ∧
    (∀ pipeline limit,
      Newest (matchingRuns runs pipeline) limit.toNat (shelf.list pipeline limit)) ∧
    shelf.pipelines.Pairwise (· < ·) ∧
    (∀ name, name ∈ shelf.pipelines ↔
      ∃ id run, lastSaved runs id = some run ∧ run.pipeline = name) ∧
    ∀ old run, lastSaved runs run.id = some old → run.pipeline ≠ old.pipeline →
      (∀ id other, lastSaved runs id = some other → other.pipeline = old.pipeline → id = run.id) →
      old.pipeline ∈ shelf.pipelines ∧ old.pipeline ∉ (shelf.save run).pipelines := by
  refine ⟨holds.load?_eq, holds.list_newest, Holds.pipelines_ascend shelf, holds.mem_pipelines, ?_⟩
  intro old run last renamed only
  refine ⟨(holds.mem_pipelines _).mpr ⟨run.id, old, last, rfl⟩, fun still => ?_⟩
  obtain ⟨id, other, kept, named⟩ := ((holds.save run).mem_pipelines _).mp still
  rw [lastSaved_concat] at kept
  split at kept
  next => exact renamed (Option.some.inj kept ▸ named)
  next another => exact another (only id other kept named).symm

/-- A run of a pipeline, which started together with another run. -/
def twin (id : Nat) (pipeline : String) : RunSummary :=
  { id := ⟨id⟩, pipeline, status := .running, startedAt := ⟨1000000000⟩, steps := 0, errors := 0 }

/-- Of two runs that started together, in an order that the shelf has taken since, one is listed. The
name of the other is gone when that one is saved for the same pipeline. -/
theorem name_is_gone_with_its_run :
    let runs := [twin 1 "sales", twin 2 "ops"]
    Holds runs runs ∧ runs ≠ runs.foldl save [] ∧
    load? runs ⟨1⟩ = some (twin 1 "sales") ∧
    Newest (matchingRuns runs none) 1 (list runs none 1) ∧ (list runs none 1).length = 1 ∧
    "sales" ∈ pipelines runs ∧ "sales" ∉ (save runs (twin 1 "ops")).pipelines := by
  intro runs
  have holds : Holds runs runs := (holds_foldl_save runs).reorder (List.Perm.swap ..)
  obtain ⟨load, list, -, -, gone⟩ := keeps_what_was_saved_last holds
  have newest := list none 1
  have only : ∀ id other, lastSaved runs id = some other → other.pipeline = "sales" →
      id = ⟨1⟩ := by
    intro id other last named
    obtain rfl := id_of_find? last
    rcases List.mem_pair.mp ((holds.mem_iff other).mpr last) with rfl | rfl
    · rfl
    · cases (by decide : "ops" ≠ "sales") named
  exact ⟨holds, by decide, load ⟨1⟩, newest, newest.length,
    gone (twin 1 "sales") (twin 1 "ops") rfl (by decide) only⟩

end Shelf

end Pipework
