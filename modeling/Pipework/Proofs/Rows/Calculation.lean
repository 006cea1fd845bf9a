import Mathlib.Data.List.Forall2
import Pipework.Builtin.Atoms
import Pipework.Proofs.Json.Fields
import Pipework.Proofs.Outcome

/-!
# Several metrics at once

The atom that calculates several metrics takes all of them of the same numbers: of the field in the
rows that are objects, or without a field of the rows that are numbers. The atoms of single metrics
take the same numbers, all but one. The count counts the rows of a list whatever they are, and other
data as one row if it is something.

So an entry is what its metric alone gives, unless it is the count and some row takes no part.
-/

namespace Pipework

namespace Rows

/-! ## Metrics by name -/

/-- A metric is found again by its name. -/
theorem Metric.ofName?_name (m : Metric) : Metric.ofName? m.name = some m := by
  cases m <;> rfl

theorem Metric.name_injective {m n : Metric} (same : m.name = n.name) : m = n := by
  have found := congrArg Metric.ofName? same
  rw [m.ofName?_name, n.ofName?_name] at found
  exact Option.some.inj found

/-- Metrics of some numbers by name, each as often as it is listed. -/
def named (values : List Number) (metrics : List Metric) : List (String × Json) :=
  metrics.map fun m => (m.name, m.of values)

theorem mapM_map_of_ok {α β γ ε : Type} {f : β → Except ε γ} {name : α → β} {g : α → γ}
    (each : ∀ a, f (name a) = .ok (g a)) (as : List α) :
    (as.map name).mapM f = .ok (as.map g) := by
  induction as with
  | nil => rfl
  | cons a as ih =>
    rw [List.map_cons, List.mapM_cons, each, ih]
    rfl

/-- The metrics asked for by name are calculated one by one, each under its name. -/
theorem metricsOf_names (values : List Number) (metrics : List Metric) :
    metricsOf values (metrics.map Metric.name) = .ok (Fields.ofList (named values metrics)) := by
  rw [metricsOf, mapM_map_of_ok (g := fun m => (m.name, m.of values)) fun m => by
    rw [m.ofName?_name]]
  rfl

/-- What is calculated are the metrics listed, of the numbers in the data. -/
theorem calculate_eq_ok {params : Params} {data result : Json} {metrics : List Metric}
    (listed : metricNames params = .ok (metrics.map Metric.name))
    (ran : calculate params data = .ok result) :
    ∃ values, numbers (metricField params) data = .ok values ∧
      result = .object (Fields.ofList (named values metrics)) := by
  rw [calculate, listed] at ran
  obtain ⟨names, same, ran⟩ := Outcome.bind_eq_ok.mp ran
  cases same
  obtain ⟨values, read, ran⟩ := Outcome.bind_eq_ok.mp ran
  rw [metricsOf_names] at ran
  exact ⟨values, read, (Except.ok.inj ran).symm⟩

/-- The keys are the names, in the order in which they are first listed. -/
theorem keys_named (values : List Number) (metrics : List Metric) :
    (Fields.ofList (named values metrics)).map Prod.fst =
      (metrics.map Metric.name).eraseDups := by
  rw [Fields.keys_ofList, named, List.map_map]
  rfl

/-- Under the name of a metric that is listed stands this metric. -/
theorem get?_named (values : List Number) {metrics : List Metric} {m : Metric}
    (listed : m ∈ metrics) :
    (Fields.ofList (named values metrics)).get? m.name = some (m.of values) := by
  have found {metrics : List Metric} (listed : m ∈ metrics) :
      (named values metrics).lookup m.name = some (m.of values) := by
    induction metrics with
    | nil => cases listed
    | cons first metrics ih =>
      rw [named, List.map_cons, List.lookup_cons]
      by_cases same : m.name = first.name
      · rw [beq_iff_eq.mpr same, Metric.name_injective same]
      · rw [beq_eq_false_iff_ne.mpr same]
        exact ih ((List.mem_cons.mp listed).resolve_left fun is => same (congrArg _ is))
  rw [Fields.get?_ofList, named, ← List.map_reverse]
  exact found (List.mem_reverse.mpr listed)

/-! ## The rows that take part -/

/-- Does a row take part in a metric? With a field the objects do, without one the numbers. -/
def takesPart (field : Option String) : Json → Bool
  | .object _ => field.isSome
  | .number _ => field.isNone
  | _ => false

/-- How many rows take part. -/
def takers (field : Option String) (data : Json) : Nat :=
  (data.array?.getD []).countP (takesPart field)

/-- Every row takes part, or there is none because the data is nothing. -/
def AllTakePart (field : Option String) : Json → Prop
  | .array rows => ∀ row ∈ rows, takesPart field row = true
  | v => isTruthy v = false

/-- A reading of every item gives one result for each. -/
theorem forall₂_of_mapM {α β ε : Type} {f : α → Except ε β} {as : List α} {bs : List β}
    (ran : as.mapM f = .ok bs) : List.Forall₂ (fun a b => f a = .ok b) as bs := by
  induction as generalizing bs with
  | nil =>
    cases ran
    exact .nil
  | cons a as ih =>
    rw [List.mapM_cons] at ran
    obtain ⟨b, here, ran⟩ := Outcome.bind_eq_ok.mp ran
    obtain ⟨bs, behind, last⟩ := Outcome.bind_eq_ok.mp ran
    cases last
    exact .cons here (ih behind)

/-- Counts of lists that can be held are told apart. -/
theorem ofNat_inj {m n : Nat} (hm : m < 18446744073709551616) (hn : n < 18446744073709551616)
    (same : Json.ofNat m = Json.ofNat n) : m = n := by
  have word {k : Nat} (hk : k < 18446744073709551616) : InWordRange k := by omega
  rw [Json.ofNat, Json.ofNat, Number.ofNat, Number.ofNat, Number.ofInt?, Number.ofInt?,
    dif_pos (word hm), dif_pos (word hn)] at same
  simp only [Option.getD_some, Json.number.injEq, Number.integer.injEq] at same
  exact Int.ofNat.inj same

section Count

variable {field : Option String} {data : Json} {values : List Number}

/-- As many numbers are read as rows take part. -/
theorem length_numbers (read : numbers field data = .ok values) :
    values.length = takers field data := by
  cases data with
  | array rows =>
    cases field with
    | none =>
      cases read
      rw [List.length_filterMap_eq_countP]
      refine congrArg (rows.countP ·) (funext fun row => ?_)
      cases row <;> rfl
    | some field =>
      rw [← (forall₂_of_mapM read).length_eq, List.length_filterMap_eq_countP]
      refine congrArg (rows.countP ·) (funext fun row => ?_)
      cases row <;> rfl
  | _ =>
    cases read
    rfl

/-- If every row takes part, they are as many as the rows. -/
theorem count_of_allTakePart (all : AllTakePart field data) :
    count data = .ofNat (takers field data) := by
  cases data with
  | array rows => exact congrArg Json.ofNat (List.countP_eq_length.mpr all).symm
  | _ =>
    have nothing : isTruthy _ = false := all
    simp only [count, nothing, Bool.false_eq_true, ↓reduceIte]
    rfl

/-- And only then. -/
theorem allTakePart_of_count
    (held : ∀ rows, data = .array rows → rows.length < 18446744073709551616)
    (same : count data = .ofNat (takers field data)) : AllTakePart field data := by
  cases data with
  | array rows =>
    have fits := held rows rfl
    have counted := ofNat_inj fits (Nat.lt_of_le_of_lt List.countP_le_length fits) same
    exact List.countP_eq_length.mp counted.symm
  | _ =>
    cases truth : isTruthy _ with
    | false => exact truth
    | true =>
      simp only [count, truth, ↓reduceIte] at same
      have counted : 1 = 0 := ofNat_inj (by decide) (by decide) same
      cases counted

end Count

end Rows

/-! ## The atoms -/

namespace Builtin

open Rows

variable {σ : Type}

/-- What the built-in atom of this metric or these metrics answers to a call. -/
def measured? (action : String) (call : Call σ) : Option (Except AtomError (Option Json)) :=
  (registry.lookup .metrics action).map fun atom => (atom.handler.run call).outcome

theorem measured?_calculate (call : Call σ) :
    measured? "calculate" call = some ((calculate call.params call.memory.data).map some) := rfl

theorem measured?_count (call : Call σ) :
    measured? Metric.count.name call = some (.ok (some (count call.memory.data))) := rfl

theorem measured?_name {m : Metric} (other : m ≠ .count) (call : Call σ) :
    measured? m.name call = some ((aggregate m call.params call.memory.data).map some) := by
  cases m with
  | count => exact absurd rfl other
  | _ => rfl

/-- **Several metrics are what each is alone, but for the count.** If the metrics that are listed are
calculated, the result has an entry for each, in the order in which they are first listed. The atom of
the metric alone, called on the same data with the same field, gives the entry, unless it is the
count. The count among them is that of the rows that take part; so it is what its atom gives exactly
if every row takes part. -/
theorem calculate_agrees_but_for_count (call : Call σ) (metrics : List Metric)
    (listed : metricNames call.params = .ok (metrics.map Metric.name)) {result : Option Json}
    (ran : measured? "calculate" call = some (.ok result)) :
    ∃ fields, result = some (.object fields) ∧
      fields.map Prod.fst = (metrics.map Metric.name).eraseDups ∧
      ∀ m ∈ metrics, ∃ entry, Fields.get? fields m.name = some entry ∧
        (m = .count → entry = .ofNat (takers (metricField call.params) call.memory.data)) ∧
        ∀ single : Call σ, single.memory.data = call.memory.data →
          metricField single.params = metricField call.params →
          ((m = .count → AllTakePart (metricField call.params) call.memory.data) →
            measured? m.name single = some (.ok (some entry))) ∧
          ((∀ rows, call.memory.data = .array rows → rows.length < 18446744073709551616) →
            measured? m.name single = some (.ok (some entry)) →
            m = .count → AllTakePart (metricField call.params) call.memory.data) := by
  rw [measured?_calculate] at ran
  obtain ⟨whole, calculated, rfl⟩ := Outcome.map_eq_ok.mp (Option.some.inj ran)
  obtain ⟨values, read, rfl⟩ := calculate_eq_ok listed calculated
  refine ⟨_, rfl, keys_named values metrics, fun m mem => ⟨_, get?_named values mem, ?_⟩⟩
  by_cases counts : m = .count
  · subst counts
    rw [Metric.of, length_numbers read]
    refine ⟨fun _ => rfl, fun single sameData _ => ?_⟩
    rw [measured?_count, sameData]
    refine ⟨fun all => by rw [count_of_allTakePart (all rfl)], fun held same _ => ?_⟩
    exact allTakePart_of_count held (Option.some.inj (Except.ok.inj (Option.some.inj same)))
  · refine ⟨fun is => absurd is counts, fun single sameData sameField => ?_⟩
    refine ⟨fun _ => ?_, fun _ _ is => absurd is counts⟩
    rw [measured?_name counts, aggregate, sameField, sameData, read]
    rfl

/-- A call on some data. -/
def callOn (data : Json) (params : Params) : Call Unit :=
  ⟨params, none, { data }, ()⟩

/-- Two sales. -/
def sales : Json := .array [
  .object [("amount", .ofNat 120)],
  .object [("region", .string "EU"), ("amount", .ofNat 80)]]

/-- The count of the sales and the sum of their amounts, of which the count is listed twice. -/
def countAndSum : Params := [
  ("metrics", .array [.string "count", .string "sum", .string "count"]),
  ("field", .string "amount")]

/-- Both are calculated as each is alone. -/
theorem sales_are_calculated_as_alone :
    metricNames countAndSum = .ok ([Metric.count, .sum, .count].map Metric.name) ∧
    ∃ fields, measured? "calculate" (callOn sales countAndSum) = some (.ok (some (.object fields))) ∧
      fields.map Prod.fst = ["count", "sum"] ∧
      ∀ m ∈ [Metric.count, .sum], ∃ entry, Fields.get? fields m.name = some entry ∧
        measured? m.name (callOn sales [("field", .string "amount")]) = some (.ok (some entry)) := by
  have listed : metricNames countAndSum = .ok ([Metric.count, .sum, .count].map Metric.name) := rfl
  have all : AllTakePart (some "amount") sales := by
    unfold sales AllTakePart
    decide
  have ran : measured? "calculate" (callOn sales countAndSum) = some (.ok (some (.object
      [("count", .ofNat 2), ("sum", .ofNat 200)]))) := rfl
  obtain ⟨fields, same, keys, alike⟩ := calculate_agrees_but_for_count _ _ listed ran
  cases same
  refine ⟨listed, _, ran, keys, fun m mem => ?_⟩
  obtain ⟨entry, found, -, agrees⟩ := alike m (by revert m; decide)
  exact ⟨entry, found, (agrees (callOn sales [("field", .string "amount")]) rfl rfl).1 fun _ => all⟩

/-- A number and a text. -/
def readings : Json := .array [.ofNat 1, .string "n/a"]

/-- The count among several metrics leaves the text out; the count alone does not. -/
theorem readings_are_counted_differently :
    metricNames [("metrics", .array [.string "count"])] = .ok ([Metric.count].map Metric.name) ∧
    measured? "calculate" (callOn readings [("metrics", .array [.string "count"])]) =
      some (.ok (some (.object [("count", .ofNat 1)]))) ∧
    measured? "count" (callOn readings []) =
      some (.ok (some (.ofNat 2))) :=
  ⟨rfl, rfl, rfl⟩

end Builtin

end Pipework
