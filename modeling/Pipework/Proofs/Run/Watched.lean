import Pipework.Proofs.Registry
import Pipework.Proofs.Run.Simulation

/-!
# Watching the handlers

The journal of a run says which handlers were called, with which parameters. To speak of all that a
handler is called with, the data and the variables too, this module has its handlers say so
themselves: each handler of `Executor.watched` does what it did, and keeps beside its own state what
it has been called with. Nobody reads what was kept, so a watched run is the run, with the same
result, context and journal and the same states of the handlers (`watched_execute`).

Of the helpers of a run, only an attempt adds to what was seen, and at most one call.
-/

namespace Pipework

variable {σ : Type}

/-- A call as its handler sees it, and what was called. -/
structure Sighting (σ : Type) where
  type : AtomType
  action : String
  call : Call σ

/-- A state of the handlers with all calls that they have seen. -/
abbrev Seen (σ : Type) := σ × List (Sighting σ)

/-- The handler, keeping what it is called with. -/
def Handler.watched (type : AtomType) (action : String) (handler : Handler σ) : Handler (Seen σ) where
  isAsync := handler.isAsync
  run call :=
    let own : Call σ := ⟨call.params, call.domain, call.memory, call.state.1⟩
    let reply := handler.run own
    { outcome := reply.outcome
      memory := reply.memory
      notes := reply.notes
      state := (reply.state, call.state.2 ++ [⟨type, action, own⟩]) }

def Registered.watched (type : AtomType) (action : String) (atom : Registered σ) :
    Registered (Seen σ) where
  handler := atom.handler.watched type action
  info := atom.info

/-- The hook, which has no part in what is kept. -/
def Hook.watched (hook : Hook σ) : Hook (Seen σ) where
  react callback c state :=
    let reaction := hook.react callback c state.1
    { context := reaction.context
      state := (reaction.state, state.2)
      signals := reaction.signals }

/-- The executor with all its handlers watched. -/
def Executor.watched (ex : Executor σ) : Executor (Seen σ) where
  registry := ex.registry.replace Registered.watched
  hooks := ex.hooks.map Hook.watched
  unknownTypes := ex.unknownTypes

namespace Run

/-- The run, where no call has been seen yet. -/
def watched (r : Run σ) : Run (Seen σ) :=
  ⟨r.context, (r.state, []), r.journal⟩

/-- The run without what was seen. -/
def unwatched (w : Run (Seen σ)) : Run σ :=
  ⟨w.context, w.state.1, w.journal⟩

/-- Watching adds something to a run and changes nothing of it. -/
theorem unwatched_watched (r : Run σ) : r.watched.unwatched = r := rfl

/-- Hooks see of a watched run what they see of the run, and add no calls. -/
theorem notify_watched (hooks : List (Hook σ)) (callback : Callback) (w : Run (Seen σ)) :
    (w.notify (hooks.map Hook.watched) callback).unwatched = w.unwatched.notify hooks callback ∧
    (w.notify (hooks.map Hook.watched) callback).state.2 = w.state.2 := by
  -- The induction is on the hooks with their places, which is what a run goes through.
  have told : ∀ (pairs : List (Hook σ × Nat)) (w : Run (Seen σ)),
      (pairs.foldl (fun w pair => w.tell callback (pair.1.watched, pair.2)) w).unwatched =
        pairs.foldl (fun r hook => r.tell callback hook) w.unwatched ∧
      (pairs.foldl (fun w pair => w.tell callback (pair.1.watched, pair.2)) w).state.2 =
        w.state.2 := by
    intro pairs
    induction pairs with
    | nil => exact fun w => ⟨rfl, rfl⟩
    | cons pair pairs ih =>
      intro w
      exact ih (w.tell callback (pair.1.watched, pair.2))
  simp only [notify, List.zipIdx_map, List.foldl_map]
  exact told hooks.zipIdx w

variable (hooks : List (Hook σ)) (index : Nat) (step : Step) (e : PipelineError)
  (w : Run (Seen σ))

/-- Recording a failure is no call. -/
theorem seen_recordFailure :
    (w.recordFailure (hooks.map Hook.watched) index step e).state.2 = w.state.2 :=
  (notify_watched hooks (.onError index step e) w).2

/-- Ending a run at a step is no call. -/
theorem seen_stopAt : (w.stopAt (hooks.map Hook.watched) index step e).2.state.2 = w.state.2 :=
  seen_recordFailure hooks index step e w

/-- Skipping a step is no call. -/
theorem seen_skipOver : (w.skipOver (hooks.map Hook.watched) index step e).2.state.2 = w.state.2 :=
  seen_recordFailure hooks index step e w

/-- Announcing a second attempt is no call. -/
theorem seen_announceRetry :
    (w.announceRetry (hooks.map Hook.watched) index step).state.2 = w.state.2 := by
  unfold announceRetry
  exact (notify_watched hooks (.onRetry index step) (w.enter _)).2

/-- Completing a step is no call. -/
theorem seen_complete (value : Option Json) :
    (w.complete (hooks.map Hook.watched) index step value).2.state.2 = w.state.2 := by
  unfold complete
  rw [(notify_watched hooks _ _).2]

end Run

namespace Task

/-- The task of a watched handler. -/
def watched (t : Task σ) : Task (Seen σ) :=
  ⟨t.index, t.step, t.atom.watched t.step.atom.type t.step.atom.action⟩

/-- What the handler sees when it is called in this run. -/
def sighting (t : Task σ) (params : Params) (w : Run (Seen σ)) : Sighting σ :=
  ⟨t.step.atom.type, t.step.atom.action,
    params, w.context.domain, w.context.toMemory, w.state.1⟩

variable (t : Task σ) (mode : Mode) (w : Run (Seen σ))

/-- Calling a watched handler is calling the handler, whatever name it is watched under. -/
theorem invoke_watched (type : AtomType) (action : String) (params : Params) :
    Side (fun r w => w.unwatched = r) (t.invoke mode params w.unwatched)
      (Task.invoke ⟨t.index, t.step, t.atom.watched type action⟩ mode params w) := by
  have sameHandler : (t.atom.watched type action).handler.isAsync = t.atom.handler.isAsync := rfl
  simp only [invoke, sameHandler]
  split <;> exact ⟨rfl, rfl⟩

end Task

namespace Executor

/-- What is found for a call is watched. -/
theorem lookup_watched (ex : Executor σ) (type : AtomType) (action : String) :
    ex.watched.registry.lookup type action =
      (ex.registry.lookup type action).map (Registered.watched type action) :=
  Registry.lookup_replace Registered.watched ex.registry type action

/-- What is found in a watched executor is what is found in the executor, watched. -/
theorem lookup_watched_eq_some {ex : Executor σ} {type : AtomType} {action : String}
    {atom : Registered (Seen σ)} : ex.watched.registry.lookup type action = some atom ↔
      ∃ own, ex.registry.lookup type action = some own ∧ own.watched type action = atom := by
  rw [lookup_watched, Option.map_eq_some_iff]

/-- A watched executor matches the executor. -/
theorem matches_watched (ex : Executor σ) (mode : Mode) :
    Matches (fun r w => w.unwatched = r) mode mode ex ex.watched where
  sameVars := by
    rintro _ w rfl
    rfl
  sameId := by
    rintro _ w rfl
    rfl
  edited := by
    rintro edit _ w - rfl
    rfl
  reported := by
    rintro level message _ w rfl
    rfl
  notified := by
    rintro callback _ w rfl
    exact (Run.notify_watched ex.hooks callback w).1
  found type action := by
    rw [lookup_watched]
    cases ex.registry.lookup type action with
    | none => exact .none
    | some atom =>
      refine .some ⟨rfl, ?_⟩
      rintro index step params _ w rfl
      exact Task.invoke_watched ⟨index, step, atom⟩ mode w type action params

/-- **Watching changes nothing.** -/
theorem watched_execute (ex : Executor σ) (mode : Mode) (p : Pipeline) (r : Run σ) :
    (ex.watched.execute mode p r.watched).1 = (ex.execute mode p r).1 ∧
      (ex.watched.execute mode p r.watched).2.unwatched = (ex.execute mode p r).2 :=
  (ex.matches_watched mode).execute p (Run.unwatched_watched r)

end Executor

end Pipework
