import Pipework.Builtin.Atoms
import Pipework.Proofs.Declaration.Binding
import Pipework.Proofs.Outcome
import Pipework.Proofs.Run.Passage
import Pipework.Proofs.Run.Watched

/-!
# What handlers are called with

A handler is called with nothing but parameters that its declarations have passed. There are two
ways to such parameters, the preparation of an attempt and the keeping of what an attempt before has
prepared, and they give the same (`Task.passed_preparedOr`); an attempt adds no other call to those
seen, and no other part of a run adds any. So the calls of every run have parameters that fit, with
whatever hooks.

For the built-in atoms this settles what their handlers need not look for: a sort always has its
field, and the field of a metric is a text or null.
-/

namespace Pipework

open Params (Unnumbered Fits)

variable {σ : Type}

/-- The parameters have passed the declarations of the atom. -/
def Registered.Passed (atom : Registered σ) (params : Params) : Prop :=
  ∃ resolved, Params.normalize atom.info.params resolved = .ok params

namespace Task

theorem passed_prepare {t : Task σ} {c : Context} {params : Params}
    (prepared : t.prepare c = .ok params) : t.atom.Passed params := by
  obtain ⟨resolved, -, passed⟩ := Outcome.bind_eq_ok.mp prepared
  exact ⟨resolved, Outcome.mapError_eq_ok.mp passed⟩

/-- Kept or prepared anew, parameters have passed. -/
theorem passed_preparedOr {t : Task σ} {c c' : Context} {params : Params}
    (prepared : t.preparedOr (t.prepare c) c' = .ok params) : t.atom.Passed params := by
  unfold preparedOr at prepared
  split at prepared
  next kept => exact passed_prepare (kept.trans prepared)
  next => exact passed_prepare prepared

end Task

namespace Executor

/-- The call is vetted: its parameters have passed the declarations of what is registered for it. -/
def Vetted (ex : Executor σ) (s : Sighting σ) : Prop :=
  ∃ atom, ex.registry.lookup s.type s.action = some atom ∧ atom.Passed s.call.params

/-- All calls seen so far are vetted. -/
def AllVetted (ex : Executor σ) (w : Run (Seen σ)) : Prop :=
  ∀ s ∈ w.state.2, ex.Vetted s

variable {ex : Executor σ} {mode : Mode} {index : Nat} {step : Step} {w w' : Run (Seen σ)}

theorem AllVetted.of_seen (vetted : ex.AllVetted w) (seen : w'.state.2 = w.state.2) :
    ex.AllVetted w' := by
  unfold AllVetted
  rw [seen]
  exact vetted

/-- An attempt calls the handler with the parameters prepared for it, if it calls it. -/
theorem AllVetted.attempt {t : Task σ}
    (found : ex.registry.lookup t.step.atom.type t.step.atom.action = some t.atom)
    {prepared : Except PipelineError Params}
    (passed : ∀ {params}, prepared = .ok params → t.atom.Passed params) (vetted : ex.AllVetted w) :
    ex.AllVetted (t.watched.attempt mode prepared w).2 := by
  cases prepared with
  | error e => exact vetted
  | ok params =>
    simp only [Task.attempt, Task.invoke]
    split
    next => exact vetted
    next =>
      intro s mem
      rcases List.mem_append.mp mem with before | now
      · exact vetted s before
      · obtain rfl := List.mem_singleton.mp now
        exact ⟨t.atom, found, passed rfl⟩

section

variable {own : Registered σ} {outcome : Except PipelineError (Option Json)}
  (found : ex.registry.lookup step.atom.type step.atom.action = some own)

include found

theorem AllVetted.first (vetted : ex.AllVetted w)
    (first : (Task.mk index step own).watched.first mode w = (outcome, w')) : ex.AllVetted w' := by
  have attempted : ex.AllVetted ((Task.mk index step own).watched.first mode w).2 :=
    AllVetted.attempt (t := ⟨index, step, own⟩) found Task.passed_prepare vetted
  rwa [first] at attempted

theorem AllVetted.second (vetted : ex.AllVetted w) {start : Run (Seen σ)}
    (second : (Task.mk index step own).watched.second ex.watched.hooks mode start w =
      (outcome, w')) : ex.AllVetted w' := by
  have announced := vetted.of_seen (Run.seen_announceRetry ex.hooks index step w)
  have attempted : ex.AllVetted
      ((Task.mk index step own).watched.second ex.watched.hooks mode start w).2 :=
    AllVetted.attempt (t := ⟨index, step, own⟩) found Task.passed_preparedOr announced
  rwa [second] at attempted

end

/-- A step leaves all calls vetted: it makes one attempt or two. -/
theorem AllVetted.of_passes {passage : Passage} (vetted : ex.AllVetted w)
    (passes : ex.watched.Passes mode index step w passage w') : ex.AllVetted w' := by
  have entered : ex.AllVetted (ex.watched.enter index step w) :=
    vetted.of_seen (Run.notify_watched ex.hooks _ _).2
  cases passes with
  | unknown missing => exact entered.of_seen (Run.seen_stopAt ex.hooks index step _ _)
  | completed found first =>
    obtain ⟨own, there, rfl⟩ := lookup_watched_eq_some.mp found
    exact (entered.first there first).of_seen (Run.seen_complete ex.hooks index step _ _)
  | stopped found first final =>
    obtain ⟨own, there, rfl⟩ := lookup_watched_eq_some.mp found
    exact (entered.first there first).of_seen (Run.seen_stopAt ex.hooks index step _ _)
  | skipped found first recoverable policy =>
    obtain ⟨own, there, rfl⟩ := lookup_watched_eq_some.mp found
    exact (entered.first there first).of_seen (Run.seen_skipOver ex.hooks index step _ _)
  | @recovered _ e _ w₁ _ found first recoverable policy second =>
    obtain ⟨own, there, rfl⟩ := lookup_watched_eq_some.mp found
    have failed : ex.AllVetted (w₁.recordFailure ex.watched.hooks index step e) :=
      (entered.first there first).of_seen (Run.seen_recordFailure ex.hooks index step e w₁)
    exact (failed.second there second).of_seen (Run.seen_complete ex.hooks index step _ _)
  | @stoppedAgain _ e _ w₁ _ found first recoverable policy second =>
    obtain ⟨own, there, rfl⟩ := lookup_watched_eq_some.mp found
    have failed : ex.AllVetted (w₁.recordFailure ex.watched.hooks index step e) :=
      (entered.first there first).of_seen (Run.seen_recordFailure ex.hooks index step e w₁)
    exact (failed.second there second).of_seen (Run.seen_stopAt ex.hooks index step _ _)

theorem AllVetted.of_walks {steps : List Step} {passages : List Passage}
    {result : Except PipelineError Unit} (vetted : ex.AllVetted w)
    (walks : ex.watched.Walks mode index steps w passages result w') : ex.AllVetted w' := by
  induction walks with
  | done => exact vetted
  | stop passes failure => exact vetted.of_passes passes
  | next passes failure rest ih => exact ih (vetted.of_passes passes)

/-- **All calls of a run are vetted.** -/
theorem allVetted_execute (ex : Executor σ) (mode : Mode) (p : Pipeline) (r : Run σ) :
    ex.AllVetted (ex.watched.execute mode p r.watched).2 := by
  have none : ex.AllVetted r.watched := fun _ => nofun
  have began : ex.AllVetted (ex.watched.start p r.watched) :=
    none.of_seen (Run.notify_watched ex.hooks _ _).2
  obtain ⟨passages, walks⟩ := ex.watched.runSteps_walks mode 0 p.steps (ex.watched.start p r.watched)
  exact (began.of_walks walks).of_seen (Run.notify_watched ex.hooks _ _).2

end Executor

/-! ## The built-in atoms -/

namespace Builtin

/-- The built-in atom for sorting. -/
theorem eq_of_sort_mem_entries {atom : Registered σ}
    (mem : ((.transform, "sort"), atom) ∈ entries) :
    atom.handler = notedHandler sortNote Rows.sort ∧ atom.info.params =
      [⟨"by", .required .string, "Field to sort on"⟩,
       ⟨"order", .optional .string (.string "asc"), "asc or desc"⟩] := by
  simp only [entries, entry, List.mem_cons, Prod.mk.injEq, reduceCtorEq, String.reduceEq, false_and,
    and_false, true_and, false_or, or_false, List.not_mem_nil] at mem
  subst mem
  exact ⟨rfl, rfl⟩

/-- The built-in metrics of one field. -/
theorem eq_of_single_mem_entries {atom : Registered σ} {m : Rows.Metric} (single : m ≠ .count)
    (mem : ((.metrics, m.name), atom) ∈ entries) :
    atom.handler = handler (Rows.aggregate m) ∧ atom.info.params = [fieldParam] := by
  cases m
  case count => exact absurd rfl single
  all_goals
    simp only [entries, entry, List.mem_cons, Prod.mk.injEq, reduceCtorEq, Rows.Metric.name,
      String.reduceEq, false_and, and_false, true_and, false_or, or_false, List.not_mem_nil] at mem
    subst mem
    exact ⟨rfl, rfl⟩

theorem eq_of_metric_mem_entries {atom : Registered σ} {action : String}
    (metric : action ∈ ["sum", "avg", "min", "max"])
    (mem : ((.metrics, action), atom) ∈ entries) : atom.info.params = [fieldParam] := by
  obtain ⟨m, single, rfl⟩ : ∃ m : Rows.Metric, m ≠ .count ∧ m.name = action := by
    simp only [List.mem_cons, List.not_mem_nil, or_false] at metric
    rcases metric with rfl | rfl | rfl | rfl
    exacts [⟨.sum, nofun, rfl⟩, ⟨.avg, nofun, rfl⟩, ⟨.min, nofun, rfl⟩, ⟨.max, nofun, rfl⟩]
  exact (eq_of_single_mem_entries single mem).2

/-- Where a text stands under `by`, there is a field to sort by. -/
theorem sortField_of_meets {params : Params} {description : String}
    (meets : Declaration.Meets ⟨"by", .required .string, description⟩ (params.get? "by")) :
    ∃ field, Rows.sortField params = .ok field := by
  obtain ⟨v, found, -, accepted⟩ := meets
  unfold Rows.sortField
  rw [found]
  cases v with
  | string field => exact ⟨field, rfl⟩
  | _ => cases accepted

/-- A sort that has its field may still be given no list, but that is another failure. -/
theorem sort_ne_error {params : Params} {field : String} (data : Json)
    (found : Rows.sortField params = .ok field) :
    Rows.sort params data ≠ .error ⟨"transform.sort requires a 'by' field"⟩ := by
  intro failed
  unfold Rows.sort at failed
  rw [found] at failed
  cases data with
  | array rows => cases failed
  | _ =>
    have message := congrArg AtomError.message (Except.error.inj failed)
    simp only [Rows.kindName, String.reduceAppend, String.reduceEq] at message

/-- The field of a metric is null or a text. -/
theorem field_of_fits {params : Params} (fits : Fits [fieldParam] params) :
    params.get? "field" = some .null ∨ ∃ text, params.get? "field" = some (.string text) := by
  have there := fits.filled fieldParam List.mem_cons_self rfl
  have meets := fits.met fieldParam List.mem_cons_self
  rw [Fields.contains_eq_isSome] at there
  obtain ⟨v, found⟩ := Option.isSome_iff_exists.mp there
  cases v with
  | null => exact .inl found
  | string text => exact .inr ⟨text, found⟩
  | _ => cases meets _ found nofun

end Builtin

namespace Executor

/-- **Handlers are called as declared.** In every run each call that a handler sees, at the first
attempt or the second, has parameters that fit the declarations of its atom. So a built-in sort
never fails for want of its field, and the field of a built-in metric is null or a text. -/
theorem handlers_are_called_as_declared (ex : Executor σ) (mode : Mode) (p : Pipeline) (r : Run σ) :
    let ended := ex.watched.execute mode p r.watched
    ended.1 = (ex.execute mode p r).1 ∧ ended.2.unwatched = (ex.execute mode p r).2 ∧
    ∀ s ∈ ended.2.state.2, ∃ atom, ex.registry.lookup s.type s.action = some atom ∧
      (atom.info.params ≠ [] → (atom.info.params.map Declaration.name).Nodup →
        Unnumbered atom.info.params → Fits atom.info.params s.call.params) ∧
      (((s.type, s.action), atom) ∈ Builtin.entries →
        (s.type = .transform → s.action = "sort" →
          (∃ field, Rows.sortField s.call.params = .ok field) ∧
          (atom.handler.run s.call).outcome ≠ .error ⟨"transform.sort requires a 'by' field"⟩) ∧
        (s.type = .metrics → s.action ∈ ["sum", "avg", "min", "max"] →
          s.call.params.get? "field" = some .null ∨
            ∃ text, s.call.params.get? "field" = some (.string text))) := by
  obtain ⟨result, run⟩ := ex.watched_execute mode p r
  refine ⟨result, run, fun s seen => ?_⟩
  obtain ⟨atom, found, resolved, passed⟩ := allVetted_execute ex mode p r s seen
  refine ⟨atom, found, fun nonempty names unnumbered =>
    Params.fits_of_normalize nonempty names unnumbered passed, fun builtin => ⟨?sort, ?metric⟩⟩
  case sort =>
    intro type action
    rw [type, action] at builtin
    obtain ⟨handler, params⟩ := Builtin.eq_of_sort_mem_entries builtin
    rw [params] at passed
    have fits := Params.fits_of_normalize (List.cons_ne_nil _ _) (by decide) (by decide) passed
    obtain ⟨field, sorted⟩ := Builtin.sortField_of_meets (fits.met _ List.mem_cons_self)
    refine ⟨⟨field, sorted⟩, ?_⟩
    rw [handler]
    intro failed
    exact Builtin.sort_ne_error _ sorted (Outcome.map_eq_error.mp failed)
  case metric =>
    intro type metric
    rw [type] at builtin
    rw [Builtin.eq_of_metric_mem_entries metric builtin] at passed
    exact Builtin.field_of_fits
      (Params.fits_of_normalize (List.cons_ne_nil _ _) (by decide) (by decide) passed)

/-- An executor of the built-in atoms. -/
def sorting : Executor Unit where
  registry := Builtin.entries

/-- A sort by position that is tried again. There is no list to sort, so it fails each time. -/
def resorting : Pipeline where
  name := "resorting"
  steps := [{ atom := ⟨.transform, "sort", [("_arg0", .string "amount")]⟩, onError := .retry }]

/-- Both times the sort has its field and the default of its order. -/
theorem resorting_has_its_field :
    let seen := (sorting.watched.execute .blocking resorting (Run.watched ⟨{}, (), []⟩)).2.state.2
    seen.map (fun s => (s.type, s.action, (Json.object s.call.params).compact)) =
      List.replicate 2 (.transform, "sort", "\x7b\"by\":\"amount\",\"order\":\"asc\"\x7d") ∧
    ∀ s ∈ seen, ∃ atom, sorting.registry.lookup s.type s.action = some atom ∧
      Fits atom.info.params s.call.params ∧ ∃ field, Rows.sortField s.call.params = .ok field := by
  intro seen
  have calls : seen.map (fun s => (s.type, s.action, (Json.object s.call.params).compact)) =
      List.replicate 2 (.transform, "sort", "\x7b\"by\":\"amount\",\"order\":\"asc\"\x7d") := by
    decide +kernel
  refine ⟨calls, fun s mem => ?_⟩
  have call := List.eq_of_mem_replicate (calls ▸ List.mem_map_of_mem mem)
  have type : s.type = .transform := congrArg (·.1) call
  have action : s.action = "sort" := congrArg (·.2.1) call
  obtain ⟨-, -, all⟩ := handlers_are_called_as_declared sorting .blocking resorting ⟨{}, (), []⟩
  obtain ⟨atom, found, fits, builtin⟩ := all s mem
  have entry : ((s.type, s.action), atom) ∈ Builtin.entries := Registry.mem_of_lookup found
  have params := (Builtin.eq_of_sort_mem_entries (type ▸ action ▸ entry)).2
  have fitting : Fits atom.info.params s.call.params := by
    refine fits ?_ ?_ ?_ <;> rw [params]
    · exact List.cons_ne_nil _ _
    · decide
    · decide
  exact ⟨atom, found, fitting, ((builtin entry).1 type action).1⟩

end Executor

end Pipework
