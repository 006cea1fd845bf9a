import Pipework.Proofs.Rows.Range
import Pipework.Proofs.Run.Calls
import Pipework.Proofs.Run.Shaped

/-!
# What a step that measures leaves

A step whose handler computes a value leaves this value as the data when the hooks are told of its
end, and they are told that the data was replaced. Null is the one exception: it counts as no value,
so the step leaves the data that it has measured. The least and the greatest of the rows are never
null. A sum and a mean are, where adding the doubles of the rows leaves the finite range.
-/

namespace Pipework

open Rows

variable {σ : Type}

/-- When the hooks are told that a step has completed, its value is the data, if it has one. -/
theorem Run.exists_told (hooks : List (Hook σ)) (index : Nat) (step : Step) (value : Option Json)
    (r : Run σ) :
    ∃ told : Run σ, (r.complete hooks index step value).2 =
        told.notify hooks (.afterStep index step (replacing value)) ∧
      told.context.data = (replacing value).getD r.context.data := by
  refine ⟨_, rfl, ?_⟩
  unfold replacing
  cases value.filter fun v => !v.isNull <;> rfl

/-! ## Attempts of handlers that compute -/

namespace Attempt

variable {a : Attempt σ} {mode : Mode} {compute : Params → Json → Except AtomError Json}

/-- A handler that computes a value leaves the data to the run. -/
theorem left_of_computing (handler : a.task.atom.handler = Builtin.handler compute) :
    a.left mode = a.start.context.data := by
  have sets : a.task.atom.handler.SetsNoData := by
    rw [handler]
    intro call
    rfl
  rw [← a.data_attempt mode, Task.data_attempt_of_setsNoData sets]

/-- What such a handler gives is computed from the parameters and the data. -/
theorem computed_of_ok {value : Option Json}
    (handler : a.task.atom.handler = Builtin.handler compute) (gave : a.outcome mode = .ok value) :
    ∃ params v, a.prepared = .ok params ∧ compute params a.start.context.data = .ok v ∧
      value = some v := by
  unfold outcome Task.attempt at gave
  cases prepared : a.prepared with
  | error e =>
    rw [prepared] at gave
    cases gave
  | ok params =>
    simp only [prepared, Task.invoke, handler, Builtin.handler, Builtin.notedHandler,
      Bool.false_and, Bool.false_eq_true, ↓reduceIte] at gave
    obtain ⟨v, computed, rfl⟩ := Outcome.map_eq_ok.mp (Outcome.mapError_eq_ok.mp gave)
    exact ⟨params, v, rfl, computed, rfl⟩

end Attempt

namespace Executor

variable {ex : Executor σ} {mode : Mode} {index : Nat} {step : Step} {r r' : Run σ}
  {passage : Passage}

/-- A step that completes has made an attempt that succeeded, begun with the data of the step but
for the hooks, and given what its value is. -/
theorem Passes.exists_told {compute : Params → Json → Except AtomError Json}
    (computing : ∀ atom, ex.registry.lookup step.atom.type step.atom.action = some atom →
      atom.handler = Builtin.handler compute)
    (passes : ex.Passes mode index step r passage r') (completes : passage.Completes) :
    ∃ (a : Attempt σ) (value : Option Json) (told : Run σ),
      ex.Tried mode index step r.context.data a (.ok value) ∧
      passage.value = replacing value ∧
      r' = told.notify ex.hooks (.afterStep index step passage.value) ∧
      told.context.data = passage.value.getD a.start.context.data := by
  have left {data : Json} {a : Attempt σ} {outcome : Except PipelineError (Option Json)}
      (tried : ex.Tried mode index step data a outcome) : a.left mode = a.start.context.data :=
    a.left_of_computing (computing _ tried.found)
  cases passes with
  | completed found first =>
    obtain ⟨a, tried, leaves⟩ := exists_tried_first found first
    obtain ⟨told, ended, data⟩ := Run.exists_told ex.hooks index step _ _
    rw [leaves, left tried] at data
    exact ⟨a, _, told, tried, rfl, ended, data⟩
  | recovered found first recoverable policy second =>
    obtain ⟨a, tried, leaves⟩ := exists_tried_first found first
    obtain ⟨b, again, leaves'⟩ := exists_tried_second found second
    obtain ⟨told, ended, data⟩ := Run.exists_told ex.hooks index step _ _
    rw [leaves', left again] at data
    -- the first attempt has left the data as hooks had left it
    have begun := again.started
    rw [leaves, left tried] at begun
    exact ⟨b, _, told, { again with started := tried.started.trans begun }, rfl, ended, data⟩
  | _ => exact completes.elim

/-- **A step that measures leaves a number unless the metric is lost.** Let a step of the built-in sum,
mean, least or greatest complete, at its first attempt or its second. It has read numbers in the data
that it found, which is the data before the step but for what hooks did to it. Unless the metric of
these numbers is lost, it is a number; it is the data when the hooks are told of the end of the step,
and they are told that it has replaced the data. If it is lost, the data is still what was found, and
they are told that nothing has replaced it. No metric is lost of up to 2⁵³ numbers, if the doubles
among them are up to 2⁹⁷⁰. -/
theorem metric_step_leaves_number_unless_lost {m : Metric} (single : m ≠ .count)
    {atom : Registered σ} (builtin : ((.metrics, m.name), atom) ∈ Builtin.entries)
    (found : ex.registry.lookup .metrics m.name = some atom) {args : Params}
    (calls : step.atom = ⟨.metrics, m.name, args⟩)
    (passes : ex.Passes mode index step r passage r') (completes : passage.Completes) :
    ∃ (a : Attempt σ) (params : Params) (values : List Number) (told : Run σ),
      ex.Tried mode index step r.context.data a (.ok (some (m.of values))) ∧
      a.prepared = .ok params ∧ numbers (metricField params) a.start.context.data = .ok values ∧
      r' = told.notify ex.hooks (.afterStep index step passage.value) ∧
      (¬ Lost m values → ∃ n, passage.value = some (.number n) ∧ told.context.data = .number n) ∧
      (Lost m values → passage.value = none ∧ told.context.data = a.start.context.data) ∧
      (values.length ≤ twoTo 53 → (∀ x, .double x ∈ values → x.magnitude ≤ twoTo 2044) →
        ¬ Lost m values) := by
  have computing (other : Registered σ)
      (there : ex.registry.lookup step.atom.type step.atom.action = some other) :
      other.handler = Builtin.handler (aggregate m) := by
    rw [calls, found] at there
    cases there
    exact (Builtin.eq_of_single_mem_entries single builtin).1
  obtain ⟨a, value, told, tried, replaced, ended, data⟩ := passes.exists_told computing completes
  obtain ⟨params, v, prepared, computed, rfl⟩ :=
    a.computed_of_ok (computing _ tried.found) tried.gave
  obtain ⟨values, read, measured⟩ := Outcome.bind_eq_ok.mp computed
  cases measured
  refine ⟨a, params, values, told, tried, prepared, read, ended, ?_, ?_, ?_⟩
  · intro kept
    rcases of_lost_or_number m values with ⟨lost, -⟩ | ⟨-, n, number⟩
    · exact absurd lost kept
    · rw [number] at replaced
      rw [replaced] at data
      exact ⟨n, replaced, data⟩
  · intro lost
    rcases of_lost_or_number m values with ⟨-, null⟩ | ⟨kept, -⟩
    · rw [null] at replaced
      rw [replaced] at data
      exact ⟨replaced, data⟩
    · exact absurd lost kept
  · intro few small lost
    exact not_overflows few small lost.overflows

/-- An executor of the built-in atoms, followed in events. -/
def measuring : Executor Unit where
  registry := Builtin.entries
  hooks := [.events]

/-- A step that takes a metric. -/
def taking (m : Metric) (args : Params) : Step := { atom := ⟨.metrics, m.name, args⟩ }

/-- A run that begins with this data. -/
def beginning (data : Json) : Run Unit := ⟨{ data }, (), []⟩

/-- Two amounts. -/
def deposits : Json := .array [
  .object [("amount", .ofNat 120)],
  .object [("amount", .ofNat 80)]]

/-- The sum of the deposits replaces them. -/
theorem deposits_are_replaced :
    ∃ (total : Number) (told after : Run Unit),
      measuring.Passes .blocking 0 (taking .sum [("field", .string "amount")]) (beginning deposits)
        (.completed (some (.number total))) after ∧
      after = told.notify measuring.hooks
        (.afterStep 0 (taking .sum [("field", .string "amount")]) (some (.number total))) ∧
      told.context.data = .number total := by
  obtain ⟨atom, found, r₁, first⟩ : ∃ atom,
      measuring.registry.lookup .metrics Metric.sum.name = some atom ∧
      ∃ r₁, (Task.mk 0 (taking .sum [("field", .string "amount")]) atom).first .blocking
        (measuring.enter 0 (taking .sum [("field", .string "amount")]) (beginning deposits)) =
          (.ok (some (.ofNat 200)), r₁) :=
    ⟨_, rfl, _, by with_unfolding_all rfl⟩
  have passes := Passes.completed found first
  have single : Metric.sum ≠ .count := by decide
  obtain ⟨_, _, values, told, -, -, -, ended, kept, lost, -⟩ :=
    metric_step_leaves_number_unless_lost single (Registry.mem_of_lookup found) found rfl passes
      trivial
  have notLost : ¬ Lost .sum values := by
    intro isLost
    cases (lost isLost).1
  obtain ⟨total, value, data⟩ := kept notLost
  cases value
  exact ⟨_, told, _, passes, ended, data⟩

/-- Two numbers with a mean, and without a sum. -/
def large : Json := .array (.replicate 2
  (.number (.double ⟨false, 5010420900022432, 2045, by decide, by decide, by decide⟩)))

/-- Neither their sum nor their mean replaces the large numbers, though the step completes. -/
theorem large_numbers_stay :
    large.compact = "[1e+308,1e+308]" ∧
    ∀ m ∈ [Metric.sum, .avg],
      let ended := measuring.execute .blocking { name := "large", steps := [taking m []] }
        (beginning large)
      ended.1 = .ok () ∧ ended.2.context.data.compact = large.compact ∧
        .stepCompleted 0 ("metrics." ++ m.name ++ "()") false ∈ ended.2.journal.events := by
  refine ⟨?_, ?_⟩ <;> decide +kernel

end Executor

end Pipework
