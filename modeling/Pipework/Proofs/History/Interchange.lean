import Mathlib.Data.List.Find
import Mathlib.Data.String.Basic
import Pipework.Proofs.History.Rows

/-!
# Histories in memory and in a table

The two histories answer the same calls, and neither fixes the order in which it keeps its runs: a
shelf is any order of what was saved, and so is a table. `Shelf.Answers` and `Table.Answers` say
which answers are possible, with the runs in a new order before each call. Where the runs that are
kept can be told apart by their starts, one list of answers is possible for a shelf, and it is the
one that is possible for a table: a table mirrors a shelf, row by row, and saving keeps it so.
-/

namespace Pipework

/-! ## Calls and answers -/

/-- A call of a history. -/
inductive Request where
  | save (run : RunSummary)
  | load (id : Uuid)
  | list (pipeline : Option String) (limit : UInt64)
  | pipelines

/-- What a history answers. -/
inductive Answer where
  | saved
  | loaded (run : Option RunSummary)
  | listed (runs : List RunSummary)
  | named (pipelines : List String)
  deriving DecidableEq

namespace Shelf

/-- What a shelf answers. -/
def answer (shelf : Shelf) : Request → Answer
  | .save _ => .saved
  | .load id => .loaded (shelf.load? id)
  | .list pipeline limit => .listed (shelf.list pipeline limit)
  | .pipelines => .named shelf.pipelines

/-- The shelf after a call. -/
def after (shelf : Shelf) : Request → Shelf
  | .save run => shelf.save run
  | .load _ | .list _ _ | .pipelines => shelf

/-- The answers that calls can get, whatever order the shelf takes before each of them. -/
inductive Answers : Shelf → List Request → List Answer → Prop
  | done (shelf : Shelf) : Answers shelf [] []
  | call {shelf taken : Shelf} {request : Request} {requests : List Request}
      {answers : List Answer} (order : taken.Perm shelf)
      (rest : Answers (taken.after request) requests answers) :
      Answers shelf (request :: requests) (taken.answer request :: answers)

end Shelf

namespace Table

/-- What a table answers. -/
def answer (table : Table) : Request → Except Row.Fault Answer
  | .save _ => .ok .saved
  | .load id => (table.load? id).map .loaded
  | .list pipeline limit => (table.list pipeline limit).map .listed
  | .pipelines => .ok (.named table.pipelines)

/-- The table after a call. -/
def after (table : Table) : Request → Table
  | .save run => table.save run
  | .load _ | .list _ _ | .pipelines => table

/-- The answers that calls can get, whatever order the table takes before each of them. -/
inductive Answers : Table → List Request → List (Except Row.Fault Answer) → Prop
  | done (table : Table) : Answers table [] []
  | call {table taken : Table} {request : Request} {requests : List Request}
      {answers : List (Except Row.Fault Answer)} (order : taken.Perm table)
      (rest : Answers (taken.after request) requests answers) :
      Answers table (request :: requests) (taken.answer request :: answers)

end Table

/-! ## What is assumed of the runs -/

/-- Runs that are told apart by their starts, in years of four digits, and no more of them than a
vector can hold. -/
structure Shelf.Clear (shelf : Shelf) : Prop where
  apart : (shelf.map (·.startedAt)).Nodup
  plain : ∀ run ∈ shelf, run.startedAt.HasPlainYear ∧ ∀ t ∈ run.completedAt, t.HasPlainYear
  fits : shelf.length < 2 ^ 63

instance (shelf : Shelf) : Decidable shelf.Clear :=
  decidable_of_iff ((shelf.map (·.startedAt)).Nodup ∧
      (∀ run ∈ shelf, run.startedAt.HasPlainYear ∧ ∀ t ∈ run.completedAt, t.HasPlainYear) ∧
      shelf.length < 2 ^ 63)
    ⟨fun ⟨apart, plain, fits⟩ => ⟨apart, plain, fits⟩,
      fun ⟨apart, plain, fits⟩ => ⟨apart, plain, fits⟩⟩

/-- The runs are clear at any time while calls are made. -/
def Shelf.StaysClear (shelf : Shelf) : List Request → Prop
  | [] => shelf.Clear
  | request :: requests => shelf.Clear ∧ (shelf.after request).StaysClear requests

instance decidableStaysClear : (shelf : Shelf) → (requests : List Request) →
    Decidable (shelf.StaysClear requests)
  | shelf, [] => inferInstanceAs (Decidable shelf.Clear)
  | shelf, request :: requests =>
    have := decidableStaysClear (shelf.after request) requests
    inferInstanceAs (Decidable (_ ∧ _))

namespace Shelf

variable {shelf taken : Shelf}

/-- In whatever order the runs stand, they are told apart. -/
theorem Clear.perm (clear : shelf.Clear) (order : taken.Perm shelf) : taken.Clear where
  apart := (order.map _).nodup_iff.mpr clear.apart
  plain run mem := clear.plain run (order.mem_iff.mp mem)
  fits := order.length_eq ▸ clear.fits

/-- A call leaves the same runs, in whatever order it found them. -/
theorem after_perm (order : taken.Perm shelf) (request : Request) :
    (taken.after request).Perm (shelf.after request) := by
  cases request with
  | save run => exact (order.filter _).cons run
  | load | list | pipelines => exact order

/-- So the order that a shelf has taken does not matter to what is asked of its calls. -/
theorem StaysClear.perm {requests : List Request} (clear : shelf.StaysClear requests)
    (order : taken.Perm shelf) : taken.StaysClear requests := by
  induction requests generalizing shelf taken with
  | nil => exact Clear.perm clear order
  | cons request requests ih => exact ⟨clear.1.perm order, ih clear.2 (after_perm order request)⟩

theorem StaysClear.now {requests : List Request} (clear : shelf.StaysClear requests) :
    shelf.Clear := by
  cases requests with
  | nil => exact clear
  | cons => exact clear.1

/-- Runs that are told apart have starts that are told apart. -/
theorem Clear.eq_of_startedAt (clear : shelf.Clear) {a b : RunSummary} (ha : a ∈ shelf)
    (hb : b ∈ shelf) (same : a.startedAt.nanoseconds = b.startedAt.nanoseconds) : a = b := by
  refine List.inj_on_of_nodup_map clear.apart ha hb ?_
  exact congrArg Instant.mk same

end Shelf

/-! ## Mirrors -/

/-- A table with the rows of a shelf, on which each run is once. -/
structure Mirrors (shelf : Shelf) (table : Table) : Prop where
  rows : table.Perm (shelf.map Row.ofSummary)
  once : (shelf.map (·.id)).Nodup

namespace Mirrors

variable {shelf taken : Shelf} {table : Table}

theorem empty : Mirrors [] [] := ⟨.refl _, List.nodup_nil⟩

/-- A table mirrors a shelf in whatever order either has its entries. -/
theorem perm (mirrors : Mirrors shelf table) (order : taken.Perm shelf) {table' : Table}
    (order' : table'.Perm table) : Mirrors taken table' where
  rows := order'.trans (mirrors.rows.trans (order.map _).symm)
  once := (order.map _).nodup_iff.mpr mirrors.once

/-- Saving the same run keeps a table in step with a shelf. -/
theorem save (mirrors : Mirrors shelf table) (run : RunSummary) :
    Mirrors (shelf.save run) (table.save run) where
  rows := by
    have same (other : RunSummary) :
        ((fun row : Row => decide (row.id ≠ (Row.ofSummary run).id)) ∘ Row.ofSummary) other =
          decide (other.id ≠ run.id) := by
      rw [Function.comp_apply, decide_eq_decide]
      exact not_congr (Row.id_ofSummary other run.id)
    have rows := (mirrors.rows.filter fun row => decide (row.id ≠ (Row.ofSummary run).id)).cons
      (Row.ofSummary run)
    rw [List.filter_map, List.filter_congr fun other _ => same other] at rows
    exact rows
  once := by
    rw [Shelf.save, List.map_cons]
    refine List.nodup_cons.mpr ⟨?_, mirrors.once.sublist (List.filter_sublist.map _)⟩
    intro mem
    obtain ⟨other, kept, same⟩ := List.mem_map.mp mem
    exact of_decide_eq_true (List.mem_filter.mp kept).2 same

/-- A call does the same to both: what it saves takes the place of the same entry. -/
theorem after (mirrors : Mirrors shelf table) (request : Request) :
    Mirrors (shelf.after request) (table.after request) := by
  cases request with
  | save run => exact mirrors.save run
  | load | list | pipelines => exact mirrors

/-! ### Answers -/

/-- The one row of a run is found in a table as its summary is on a shelf. -/
theorem load (mirrors : Mirrors shelf table) (id : Uuid) :
    table.load? id = .ok (shelf.load? id) := by
  have same (run : RunSummary) :
      ((fun row : Row => decide (row.id = id.text)) ∘ Row.ofSummary) run = decide (run.id = id) := by
    rw [Function.comp_apply, decide_eq_decide]
    exact Row.id_ofSummary run id
  have found : table.find? (fun row => decide (row.id = id.text)) =
      (shelf.load? id).map Row.ofSummary := by
    rw [← List.find?_eq_find?_of_perm mirrors.rows.symm, List.find?_map, funext same]
    · rfl
    · rintro a ⟨ha, ofA⟩ b ⟨hb, ofB⟩
      obtain ⟨run, mem, rfl⟩ := List.mem_map.mp ha
      obtain ⟨other, mem', rfl⟩ := List.mem_map.mp hb
      have one := (Row.id_ofSummary run id).mp (of_decide_eq_true ofA)
      have two := (Row.id_ofSummary other id).mp (of_decide_eq_true ofB)
      rw [List.inj_on_of_nodup_map mirrors.once mem mem' (one.trans two.symm)]
  rw [Table.load?, found]
  cases shelf.load? id with
  | none => rfl
  | some run =>
    rw [Option.map_some]
    show (Row.toSummary _).map some = _
    rw [Row.toSummary_ofSummary]
    rfl

/-- A limit as a signed word allows as many rows as the limit, since it is negative only where it is
more than there can be. -/
theorem limited_toInt64 (limit : UInt64) {rows : List Row} (few : rows.length < 2 ^ 63) :
    Table.limited limit.toInt64 rows = rows.take limit.toNat := by
  have value : limit.toInt64.toInt =
      if 2 * limit.toNat < 2 ^ 64 then (limit.toNat : Int) else limit.toNat - 2 ^ 64 :=
    BitVec.toInt_eq_toNat_cond limit.toBitVec
  have small : limit.toNat < 2 ^ 64 := limit.toNat_lt
  rw [Table.limited, ← Int64.toNat_toInt]
  by_cases negative : limit.toInt64 < 0
  · rw [if_pos negative, List.take_of_length_le]
    have := Int64.lt_iff_toInt_lt.mp negative
    rw [Int64.toInt_zero] at this
    split at value <;> omega
  · rw [if_neg negative]
    have := Int64.le_iff_toInt_le.mp (Int64.not_lt.mp negative)
    rw [Int64.toInt_zero] at this
    split at value
    · rw [value, Int.toNat_natCast]
    · omega

/-- Rows that sort by different texts are listed in one order. -/
theorem list (mirrors : Mirrors shelf table) (clear : shelf.Clear) (pipeline : Option String)
    (limit : UInt64) : table.list pipeline limit = .ok (shelf.list pipeline limit) := by
  have plain {run : RunSummary} (mem : run ∈ shelf.filter (Shelf.matching pipeline)) :=
    (clear.plain run (List.mem_filter.mp mem).1).1
  have rows : (table.filter (Table.matching pipeline)).Perm
      ((shelf.filter (Shelf.matching pipeline)).map Row.ofSummary) := by
    have rows := mirrors.rows.filter (Table.matching pipeline)
    rwa [List.filter_map] at rows
  have sorted : (table.filter (Table.matching pipeline)).mergeSort Table.newerFirst =
      ((shelf.filter (Shelf.matching pipeline)).mergeSort Shelf.newerFirst).map Row.ofSummary := by
    rw [List.map_mergeSort fun a ha b hb => (Row.newerFirst_ofSummary (plain ha) (plain hb)).symm]
    refine mergeSort_eq_of_perm ?_ ?_ rows ?_
    · intro a b c ab bc
      exact decide_eq_true (le_trans (of_decide_eq_true bc) (of_decide_eq_true ab))
    · intro a b
      rw [Bool.or_eq_true]
      exact (le_total b.startedAt a.startedAt).imp decide_eq_true decide_eq_true
    · intro a ha b hb ab ba
      obtain ⟨run, mem, rfl⟩ := List.mem_map.mp ha
      obtain ⟨other, mem', rfl⟩ := List.mem_map.mp hb
      rw [Row.newerFirst_ofSummary (plain mem) (plain mem')] at ab
      rw [Row.newerFirst_ofSummary (plain mem') (plain mem)] at ba
      have same := Int.le_antisymm (of_decide_eq_true ba) (of_decide_eq_true ab)
      rw [clear.eq_of_startedAt (List.mem_filter.mp mem).1 (List.mem_filter.mp mem').1 same]
  have few : (((shelf.filter (Shelf.matching pipeline)).mergeSort Shelf.newerFirst).map
      Row.ofSummary).length < 2 ^ 63 := by
    rw [List.length_map, List.length_mergeSort]
    exact Nat.lt_of_le_of_lt (List.length_filter_le _ _) clear.fits
  rw [Table.list, sorted, limited_toInt64 limit few, ← List.map_take, Row.mapM_toSummary, Shelf.list]

theorem pipelines (mirrors : Mirrors shelf table) : table.pipelines = shelf.pipelines := by
  have rows := mirrors.rows.map (·.pipeline)
  rw [List.map_map] at rows
  exact mergeSort_eraseDups rows

/-- A table answers what the shelf answers that it mirrors. -/
theorem answer (mirrors : Mirrors shelf table) (clear : shelf.Clear) (request : Request) :
    table.answer request = .ok (shelf.answer request) := by
  cases request with
  | save run => rfl
  | load id => rw [Table.answer, mirrors.load]; rfl
  | list pipeline limit => rw [Table.answer, mirrors.list clear]; rfl
  | pipelines => rw [Table.answer, mirrors.pipelines]; rfl

/-- Along any calls. -/
theorem answers (mirrors : Mirrors shelf table) {requests : List Request} {given : List Answer}
    {given' : List (Except Row.Fault Answer)} (clear : shelf.StaysClear requests)
    (inMemory : shelf.Answers requests given) (inTable : table.Answers requests given') :
    given' = given.map .ok := by
  induction inMemory generalizing table given' with
  | done shelf => cases inTable; rfl
  | @call shelf taken request requests given order rest ih =>
    obtain _ | ⟨order', rest'⟩ := inTable
    have both := mirrors.perm order order'
    have clear' := clear.perm order
    rw [both.answer clear'.now request, ih (both.after request) clear'.2 rest', List.map_cons]

end Mirrors

/-- Every sequence of calls is answered. -/
theorem Shelf.exists_answers (shelf : Shelf) (requests : List Request) :
    ∃ given, shelf.Answers requests given := by
  induction requests generalizing shelf with
  | nil => exact ⟨[], .done shelf⟩
  | cons request requests ih =>
    obtain ⟨given, rest⟩ := ih (shelf.after request)
    exact ⟨_, .call (.refl shelf) rest⟩

theorem Table.exists_answers (table : Table) (requests : List Request) :
    ∃ given, table.Answers requests given := by
  induction requests generalizing table with
  | nil => exact ⟨[], .done table⟩
  | cons request requests ih =>
    obtain ⟨given, rest⟩ := ih (table.after request)
    exact ⟨_, .call (.refl table) rest⟩

/-- Whatever is asked of the two histories from their beginning, while the runs they keep have
different starts in years of four digits: both answer in one way only, in the same way, and the
table never fails. -/
theorem histories_are_interchangeable {requests : List Request}
    (clear : Shelf.StaysClear [] requests) :
    ∃ answers : List Answer, (∀ given, Shelf.Answers [] requests given ↔ given = answers) ∧
      ∀ given, Table.Answers [] requests given ↔ given = answers.map .ok := by
  obtain ⟨answers, inMemory⟩ := Shelf.exists_answers [] requests
  obtain ⟨rows, inTable⟩ := Table.exists_answers [] requests
  have same : rows = answers.map .ok := Mirrors.empty.answers clear inMemory inTable
  subst same
  refine ⟨answers, fun given => ⟨fun shelf => ?_, ?_⟩, fun given => ⟨fun table => ?_, ?_⟩⟩
  · have same := Mirrors.empty.answers clear shelf inTable
    exact List.map_injective_iff.mpr (fun _ _ => Except.ok.inj) same.symm
  · rintro rfl
    exact inMemory
  · exact Mirrors.empty.answers clear inMemory table
  · rintro rfl
    exact inTable

/-! ## A run saved twice -/

namespace Request

/-- A run that started half a second after another one. -/
def later (status : Status) (completedAt : Option Instant) : RunSummary :=
  { id := ⟨1⟩, pipeline := "sales", status, startedAt := ⟨1500000000⟩, completedAt, steps := 3
    errors := 0 }

/-- The other run, with more steps than a signed word holds. -/
def earlier : RunSummary :=
  { id := ⟨2⟩, pipeline := "ops", status := .failed, startedAt := ⟨1000000000⟩
    completedAt := some ⟨2000000000⟩, steps := 18446744073709551615, errors := 1 }

/-- Two runs are saved, one of them again when it is done, and listed. -/
def sampleCalls : List Request :=
  [.save (later .running none), .save earlier, .save (later .completed (some ⟨2000000001⟩)),
    .list none 18446744073709551615, .list (some "ops") 1, .load ⟨2⟩, .pipelines]

end Request

/-- The answers that the calls get from a shelf. -/
theorem Request.answers_sampleCalls : Shelf.Answers [] sampleCalls
    [.saved, .saved, .saved, .listed [later .completed (some ⟨2000000001⟩), earlier],
      .listed [earlier], .loaded (some earlier), .named ["ops", "sales"]] := by
  obtain ⟨given, answers, evaluated⟩ : ∃ given, Shelf.Answers [] sampleCalls given ∧ given =
      [.saved, .saved, .saved, .listed [later .completed (some ⟨2000000001⟩), earlier],
        .listed [earlier], .loaded (some earlier), .named ["ops", "sales"]] := by
    refine ⟨_, .call (.refl _) (.call (.refl _) (.call (.refl _) (.call (.refl _) (.call (.refl _)
      (.call (.refl _) (.call (.refl _) (.done _))))))), ?_⟩
    have names : ["ops", "sales"].eraseReps = ["ops", "sales"] := by decide
    simp [Shelf.answer, Shelf.after, Shelf.save, Shelf.load?, Shelf.list, Shelf.pipelines, names,
      Shelf.matching, Shelf.newerFirst, List.filter_cons, List.mergeSort, later, earlier]
  exact evaluated ▸ answers

/-- So the table answers them, though a limit and a count are negative in it. -/
theorem run_saved_twice_is_listed_once : Shelf.StaysClear [] Request.sampleCalls ∧
    ∀ given, Table.Answers [] Request.sampleCalls given ↔ given =
      [.ok .saved, .ok .saved, .ok .saved,
        .ok (.listed [Request.later .completed (some ⟨2000000001⟩), Request.earlier]),
        .ok (.listed [Request.earlier]), .ok (.loaded (some Request.earlier)),
        .ok (.named ["ops", "sales"])] := by
  have clear : Shelf.StaysClear [] Request.sampleCalls := by decide
  obtain ⟨answers, shelf, table⟩ := histories_are_interchangeable clear
  obtain rfl := (shelf _).mp Request.answers_sampleCalls
  exact ⟨clear, table⟩

end Pipework
