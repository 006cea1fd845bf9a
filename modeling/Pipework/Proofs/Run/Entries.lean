import Pipework.Proofs.Run.Passage

/-!
# Who enters calls in the journal

Every handler that is called is entered in the journal, and by nobody but the attempt that calls it:
hooks that are told something and a line that is reported enter no calls. So the calls in the journal
of a run are those of its attempts, in order.
-/

namespace Pipework

variable {σ : Type}

namespace Journal

/-- The calls of a journal are those of its parts. -/
@[simp] theorem calls_append (j j' : Journal) : (j ++ j').calls = j.calls ++ j'.calls :=
  List.filterMap_append

/-- Signals are not calls. -/
@[simp] theorem calls_signals (signals : List Signal) :
    Journal.calls (signals.map .signal) = [] := by
  unfold calls
  rw [List.filterMap_map]
  exact List.filterMap_eq_nil_iff.mpr fun _ _ => rfl

end Journal

namespace Run

/-- A line that is reported is not a call. -/
@[simp] theorem calls_enter_report (r : Run σ) (level : LogLevel) (message : String) :
    (r.enter (.report level message)).journal.calls = r.journal.calls := by
  rw [enter, Journal.calls_append]
  exact List.append_nil _

/-- A hook is told something and may send signals. Neither is a call. -/
theorem calls_tell (r : Run σ) (callback : Callback) (hook : Hook σ × Nat) :
    (r.tell callback hook).journal.calls = r.journal.calls := by
  have notice (signals : List Signal) :
      Journal.calls (.notice hook.2 callback :: signals.map .signal) = [] :=
    Journal.calls_signals signals
  rw [tell, Journal.calls_append, notice, List.append_nil]

/-- Telling the hooks enters no calls. -/
@[simp] theorem calls_notify (hooks : List (Hook σ)) (callback : Callback) (r : Run σ) :
    (r.notify hooks callback).journal.calls = r.journal.calls := by
  apply notify_preserves (P := fun r' => r'.journal.calls = r.journal.calls)
  · intro hook _ place r' same
    rw [calls_tell, same]
  · rfl

variable (hooks : List (Hook σ)) (index : Nat) (step : Step) (e : PipelineError) (r : Run σ)

/-- Recording a failure enters no calls. -/
@[simp] theorem calls_recordFailure :
    (r.recordFailure hooks index step e).journal.calls = r.journal.calls :=
  calls_notify hooks (.onError index step e) r

/-- Ending a run at a step enters no calls. -/
@[simp] theorem calls_stopAt :
    (r.stopAt hooks index step e).2.journal.calls = r.journal.calls := by
  rw [stopAt, calls_enter_report, calls_recordFailure]

end Run

/-- Entering a step enters no calls. -/
@[simp] theorem Executor.calls_enter (ex : Executor σ) (index : Nat) (step : Step) (r : Run σ) :
    (ex.enter index step r).journal.calls = r.journal.calls :=
  Run.calls_notify ex.hooks _ _

end Pipework
