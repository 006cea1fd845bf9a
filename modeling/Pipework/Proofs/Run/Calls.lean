import Pipework.Proofs.Registry
import Pipework.Proofs.Run.Data
import Pipework.Proofs.Run.Fold
import Pipework.Proofs.Run.Watched

/-!
# The calls of a run

With hooks that leave variables and data alone, it is settled when a step starts how its handler will
be called: with the parameters that its variables give, or not at all. `CallsOf` lists the cases. It
is called twice if the step is to be tried again and the first call fails, and then with the same
parameters; there is no call where there is no handler, where the parameters cannot be prepared, and
where the handler would have to be waited for and the run cannot.

The calls of a run are those of its steps in order, each made in the turn of its step
(`Executor.Account`). If no handler sets the data, they see the last value that a step before has
given.
-/

namespace Pipework

variable {σ : Type}

/-- The value that a step has put in the place of the data. -/
def Passage.value : Passage → Option Json
  | .completed value | .recovered _ value => value
  | .skipped _ | .stopped _ | .stoppedAgain _ _ => none

/-- The last value of these steps, or the data from before. -/
def latest (data : Json) (passages : List Passage) : Json :=
  passages.foldl (fun data passage => passage.value.getD data) data

/-- The handler leaves the data to the run. -/
def Handler.SetsNoData (handler : Handler σ) : Prop :=
  ∀ call, (handler.run call).memory.data = call.memory.data

namespace Executor

/-- The parameters for the handler of a step, from these variables: references resolved, declarations
applied. -/
def parameters (ex : Executor σ) (step : Step) (vars : Bindings) : Option Params := do
  let atom ← ex.registry.lookup step.atom.type step.atom.action
  let resolved ← (Lookup.resolveFields vars.get? step.atom.params).toOption
  (Params.normalize atom.info.params resolved).toOption

/-- The handler of the step would have to be waited for, and the run cannot. -/
def CannotWait (ex : Executor σ) (mode : Mode) (step : Step) : Prop :=
  mode = .blocking ∧ ∃ atom, ex.registry.lookup step.atom.type step.atom.action = some atom ∧
    atom.handler.isAsync = true

/-- What a call is answered. -/
def answer (ex : Executor σ) (s : Sighting σ) : Option (Except AtomError (Option Json)) :=
  (ex.registry.lookup s.type s.action).map fun atom => (atom.handler.run s.call).outcome

/-- The call fails. -/
def Fails (ex : Executor σ) (s : Sighting σ) : Prop :=
  ∃ e, ex.answer s = some (.error e)

/-- A call of the handler of the step, with the parameters from these variables. -/
structure CallOf (ex : Executor σ) (mode : Mode) (step : Step) (vars : Bindings) (s : Sighting σ) :
    Prop where
  possible : ¬ ex.CannotWait mode step
  type : s.type = step.atom.type
  action : s.action = step.atom.action
  params : ex.parameters step vars = some s.call.params

/-- A step whose last call is this one completes with its value if it succeeds, and else not. -/
def EndsWith (ex : Executor σ) (s : Sighting σ) (passage : Passage) : Prop :=
  (ex.Fails s ∧ ¬ passage.Completes) ∨
    ∃ value, ex.answer s = some (.ok value) ∧ passage.Completes ∧ passage.value = replacing value

/-- The calls of a step that starts with these variables and passes in this way. -/
inductive CallsOf (ex : Executor σ) (mode : Mode) (step : Step) (vars : Bindings) :
    Passage → List (Sighting σ) → Prop
  | none {passage : Passage}
      (impossible : ex.parameters step vars = none ∨ ex.CannotWait mode step)
      (fails : ¬ passage.Completes) : CallsOf ex mode step vars passage []
  | once {passage : Passage} {s : Sighting σ} (call : ex.CallOf mode step vars s)
      (final : step.onError = .retry → ¬ ex.Fails s) (ends : ex.EndsWith s passage) :
      CallsOf ex mode step vars passage [s]
  | twice {passage : Passage} {s s' : Sighting σ} (call : ex.CallOf mode step vars s)
      (fails : ex.Fails s) (policy : step.onError = .retry) (again : ex.CallOf mode step vars s')
      (ends : ex.EndsWith s' passage) : CallsOf ex mode step vars passage [s, s']

end Executor

/-! ## The calls of attempts -/

theorem Task.data_attempt_of_setsNoData {t : Task σ} (sets : t.atom.handler.SetsNoData) (mode : Mode)
    (prepared : Except PipelineError Params) (r : Run σ) :
    (t.attempt mode prepared r).2.context.data = r.context.data := by
  rw [Attempt.data_attempt ⟨t, prepared, r⟩ mode]
  unfold Attempt.left
  cases prepared with
  | error e => rfl
  | ok params =>
    simp only
    split
    · rfl
    · exact sets _

namespace Executor

/-- No handler sets the data. -/
def SetsNoData (ex : Executor σ) : Prop :=
  ∀ type action atom, ex.registry.lookup type action = some atom → atom.handler.SetsNoData

variable {ex : Executor σ} {mode : Mode} {index : Nat} {step : Step} {vars : Bindings}

/-- A handler is called only where its parameters resolve and the mode allows the call. -/
theorem CallOf.not_impossible {s : Sighting σ} (call : ex.CallOf mode step vars s) :
    ¬ (ex.parameters step vars = none ∨ ex.CannotWait mode step) := by
  rintro (none | waits)
  · rw [call.params] at none
    cases none
  · exact call.possible waits

/-- What an attempt prepares depends on the variables only. -/
theorem parameters_of_found (index : Nat) {atom : Registered σ} {c : Context}
    (found : ex.registry.lookup step.atom.type step.atom.action = some atom) (same : c.vars = vars) :
    ex.parameters step vars = ((Task.mk index step atom).prepare c).toOption := by
  subst same
  simp only [parameters, found, Task.prepare, Context.lookup, Option.bind_eq_bind,
    Option.bind_some]
  cases Lookup.resolveFields c.vars.get? step.atom.params with
  | error e => rfl
  | ok resolved =>
    show (Params.normalize atom.info.params resolved).toOption =
      ((Params.normalize atom.info.params resolved).mapError (Task.failure step)).toOption
    cases Params.normalize atom.info.params resolved <;> rfl

/-- The calls of an attempt that gives this. -/
inductive Asks (ex : Executor σ) (mode : Mode) (step : Step) (vars : Bindings) :
    Except PipelineError (Option Json) → List (Sighting σ) → Prop
  | none {e : PipelineError}
      (impossible : ex.parameters step vars = none ∨ ex.CannotWait mode step) :
      Asks ex mode step vars (.error e) []
  | failed {s : Sighting σ} {e : AtomError} (call : ex.CallOf mode step vars s)
      (answer : ex.answer s = some (.error e)) :
      Asks ex mode step vars (.error (Task.failure step e)) [s]
  | gave {s : Sighting σ} {value : Option Json} (call : ex.CallOf mode step vars s)
      (answer : ex.answer s = some (.ok value)) : Asks ex mode step vars (.ok value) [s]

/-- From the one watched run to the other these calls are added to those seen, and nothing else is
done to the data than what handlers do. -/
structure Shows (ex : Executor σ) (calls : List (Sighting σ)) (w w' : Run (Seen σ)) : Prop where
  seen : w'.state.2 = w.state.2 ++ calls
  sees : ex.SetsNoData → ∀ s ∈ calls, s.call.memory.data = w.context.data
  keeps : ex.SetsNoData → w'.context.data = w.context.data

theorem shows_of_eq {w w' : Run (Seen σ)} (seen : w'.state.2 = w.state.2)
    (data : w'.context.data = w.context.data) : ex.Shows [] w w' :=
  ⟨seen.trans (List.append_nil _).symm, fun _ => nofun, fun _ => data⟩

/-- What two stretches of a run show is shown one behind the other. -/
theorem Shows.trans {calls calls' : List (Sighting σ)} {w w' w'' : Run (Seen σ)}
    (first : ex.Shows calls w w') (second : ex.Shows calls' w' w'') :
    ex.Shows (calls ++ calls') w w'' := by
  refine ⟨?_, fun sets s mem => ?_, fun sets => (second.keeps sets).trans (first.keeps sets)⟩
  · rw [second.seen, first.seen, List.append_assoc]
  · rcases List.mem_append.mp mem with mem | mem
    · exact first.sees sets s mem
    · exact (second.sees sets s mem).trans (first.keeps sets)

/-- A handler that is called with the parameters from these variables, and its answer. -/
theorem asks_sighting (index : Nat) {atom : Registered σ} {params : Params}
    (found : ex.registry.lookup step.atom.type step.atom.action = some atom)
    (prompt : ¬ (atom.handler.isAsync && mode == .blocking) = true)
    (prepared : ex.parameters step vars = some params) (w : Run (Seen σ)) :
    let s := (Task.mk index step atom).sighting params w
    ex.Asks mode step vars ((atom.handler.run s.call).outcome.mapError (Task.failure step)) [s] := by
  intro s
  have call : ex.CallOf mode step vars s := by
    refine ⟨?_, rfl, rfl, prepared⟩
    rintro ⟨rfl, atom', found', async⟩
    rw [found] at found'
    cases found'
    rw [async] at prompt
    exact prompt rfl
  have answer : ex.answer s = some (atom.handler.run s.call).outcome := by
    simp only [Executor.answer, s, Task.sighting, found, Option.map_some]
  cases replied : (atom.handler.run s.call).outcome with
  | error e => exact .failed call (answer.trans (congrArg some replied))
  | ok value => exact .gave call (answer.trans (congrArg some replied))

/-- An attempt with the parameters from these variables. -/
theorem exists_asks {atom : Registered σ} {c : Context}
    (found : ex.registry.lookup step.atom.type step.atom.action = some atom) (same : c.vars = vars)
    {w w' : Run (Seen σ)} {outcome : Except PipelineError (Option Json)}
    (attempt : (Task.mk index step atom).watched.attempt mode
      ((Task.mk index step atom).prepare c) w = (outcome, w')) :
    ∃ calls, ex.Asks mode step vars outcome calls ∧ ex.Shows calls w w' := by
  have parameters := parameters_of_found index found same
  cases prepared : (Task.mk index step atom).prepare c with
  | error e =>
    rw [prepared] at parameters attempt
    cases attempt
    exact ⟨[], .none (.inl parameters), shows_of_eq rfl rfl⟩
  | ok params =>
    rw [prepared] at parameters attempt
    have keeps : ex.SetsNoData → w'.context.data = w.context.data := by
      intro sets
      have left := Task.data_attempt_of_setsNoData (t := (Task.mk index step atom).watched)
        (fun call => sets _ _ _ found ⟨call.params, call.domain, call.memory, call.state.1⟩) mode
        (.ok params) w
      rwa [attempt] at left
    have sameHandler : (Task.mk index step atom).watched.atom.handler.isAsync =
        atom.handler.isAsync := rfl
    simp only [Task.attempt, Task.invoke, sameHandler] at attempt
    split at attempt
    next waits =>
      -- The parameters were prepared, and still there is no call.
      cases attempt
      simp only [Bool.and_eq_true, beq_iff_eq] at waits
      have cannot : ex.CannotWait mode step := ⟨waits.2, atom, found, waits.1⟩
      exact ⟨[], .none (.inr cannot), shows_of_eq rfl rfl⟩
    next prompt =>
      have asks := asks_sighting index found prompt parameters w
      cases attempt
      exact ⟨_, asks, rfl, fun _ => List.forall_mem_singleton.mpr rfl, keeps⟩

/-! ## The calls of a step -/

namespace Asks

variable {passage : Passage} {calls calls' : List (Sighting σ)}

/-- One attempt, and it succeeds. -/
theorem callsOf_ok {value : Option Json} (asks : ex.Asks mode step vars (.ok value) calls) :
    ex.CallsOf mode step vars (.completed (replacing value)) calls := by
  cases asks with
  | gave call answer =>
    apply CallsOf.once call
    · rintro - ⟨e, fails⟩
      rw [answer] at fails
      cases fails
    · exact .inr ⟨value, answer, trivial, rfl⟩

/-- One attempt, and it fails. -/
theorem callsOf_error {e : PipelineError} (asks : ex.Asks mode step vars (.error e) calls)
    (final : e.isRecoverable = true → step.onError ≠ .retry) (fails : ¬ passage.Completes) :
    ex.CallsOf mode step vars passage calls := by
  cases asks with
  | none impossible => exact .none impossible fails
  | failed call answer =>
    exact .once call (fun policy => absurd policy (final rfl)) (.inl ⟨⟨_, answer⟩, fails⟩)

/-- Two attempts, and the second one succeeds. -/
theorem callsOf_error_ok {e : PipelineError} {value : Option Json}
    (asks : ex.Asks mode step vars (.error e) calls)
    (again : ex.Asks mode step vars (.ok value) calls') (policy : step.onError = .retry) :
    ex.CallsOf mode step vars (.recovered e (replacing value)) (calls ++ calls') := by
  cases again with
  | gave call' answer' =>
    cases asks with
    | none impossible => exact absurd impossible call'.not_impossible
    | failed call answer =>
      exact .twice call ⟨_, answer⟩ policy call' (.inr ⟨value, answer', trivial, rfl⟩)

/-- Two attempts, and both fail. -/
theorem callsOf_error_error {e e' : PipelineError} (asks : ex.Asks mode step vars (.error e) calls)
    (again : ex.Asks mode step vars (.error e') calls') (policy : step.onError = .retry)
    (fails : ¬ passage.Completes) : ex.CallsOf mode step vars passage (calls ++ calls') := by
  cases asks with
  | none impossible =>
    cases again with
    | none _ => exact .none impossible fails
    | failed call' _ => exact absurd impossible call'.not_impossible
  | failed call answer =>
    cases again with
    | none impossible => exact absurd impossible call.not_impossible
    | failed call' answer' =>
      exact .twice call ⟨_, answer⟩ policy call' (.inl ⟨⟨_, answer'⟩, fails⟩)

end Asks

/-- The turn of a step in a watched run: the calls that it adds to those seen, and the data. -/
structure Turn (ex : Executor σ) (mode : Mode) (step : Step) (passage : Passage)
    (calls : List (Sighting σ)) (before after : Run (Seen σ)) : Prop where
  made : ex.CallsOf mode step before.context.vars passage calls
  seen : after.state.2 = before.state.2 ++ calls
  sees : ex.SetsNoData → ∀ s ∈ calls, s.call.memory.data = before.context.data
  leaves : ex.SetsNoData → after.context.data = passage.value.getD before.context.data

section

variable (spare : ∀ hook ∈ ex.hooks, hook.SparesInputs)

include spare

/-- The hooks of a watched run leave the data and the variables alone. -/
theorem spares_watched : ∀ hook ∈ ex.watched.hooks, hook.SparesInputs := by
  intro hook mem
  obtain ⟨own, there, rfl⟩ := List.mem_map.mp mem
  exact fun callback c state => spare own there callback c state.1

theorem quiet_watched : ∀ hook ∈ ex.watched.hooks, hook.Quiet :=
  fun hook mem callback c state => (spares_watched spare hook mem callback c state).2

theorem shows_enter (index : Nat) (step : Step) (w : Run (Seen σ)) :
    ex.Shows [] w (ex.watched.enter index step w) := by
  apply shows_of_eq
  · exact (Run.notify_watched ex.hooks _ _).2
  · exact (ex.watched.byHooks_enter index step w).eq_of_quiet (quiet_watched spare)

variable {atom : Registered σ}
  (found : ex.registry.lookup step.atom.type step.atom.action = some atom)
  {w w₁ w₂ : Run (Seen σ)}

include found

/-- The first attempt at a step asks for what the step declares. -/
theorem exists_asks_first {outcome : Except PipelineError (Option Json)}
    (first : (Task.mk index step atom).watched.first mode (ex.watched.enter index step w) =
      (outcome, w₁)) :
    ∃ calls, ex.Asks mode step w.context.vars outcome calls ∧ ex.Shows calls w w₁ := by
  have vars := vars_enter (spares_watched spare) index step w
  obtain ⟨calls, asks, shown⟩ := exists_asks found vars first
  exact ⟨calls, asks, (shows_enter spare index step w).trans shown⟩

/-- So does the second one, of the data that the first has left. -/
theorem exists_asks_second {e : PipelineError} {outcome : Except PipelineError (Option Json)}
    (first : (Task.mk index step atom).watched.first mode (ex.watched.enter index step w) =
      (.error e, w₁))
    (second : (Task.mk index step atom).watched.second ex.watched.hooks mode
      (ex.watched.enter index step w) (w₁.recordFailure ex.watched.hooks index step e) =
        (outcome, w₂)) :
    ∃ calls, ex.Asks mode step w.context.vars outcome calls ∧ ex.Shows calls w₁ w₂ := by
  have vars := vars_enter (spares_watched spare) index step w
  have again := Task.second_eq _ (spares_watched spare) first
  have between : ex.Shows [] w₁
      ((w₁.recordFailure ex.watched.hooks index step e).announceRetry ex.watched.hooks index step) := by
    apply shows_of_eq
    · exact (Run.seen_announceRetry ex.hooks index step _).trans
        (Run.seen_recordFailure ex.hooks index step e w₁)
    · have told := (Run.byHooks_recordFailure ex.watched.hooks index step e w₁).trans
        (Run.byHooks_announceRetry ex.watched.hooks index step _)
      exact told.eq_of_quiet (quiet_watched spare)
  obtain ⟨calls, asks, shown⟩ := exists_asks found vars (again.symm.trans second)
  exact ⟨calls, asks, between.trans shown⟩

omit found

/-- Once its attempts are made, the step adds no calls, and puts its value in the place of the
data. -/
theorem Shows.turn {passage : Passage} {calls : List (Sighting σ)} {w' : Run (Seen σ)}
    (shown : ex.Shows calls w w₁) (made : ex.CallsOf mode step w.context.vars passage calls)
    (seen : w'.state.2 = w₁.state.2)
    (told : ByHooks ex.watched.hooks (passage.value.getD w₁.context.data) w'.context.data) :
    ex.Turn mode step passage calls w w' := by
  refine ⟨made, seen.trans shown.seen, shown.sees, fun sets => ?_⟩
  rw [told.eq_of_quiet (quiet_watched spare), shown.keeps sets]

/-- Every step has its turn. -/
theorem exists_turn {passage : Passage} {w' : Run (Seen σ)}
    (passes : ex.watched.Passes mode index step w passage w') :
    ∃ calls, ex.Turn mode step passage calls w w' := by
  cases passes with
  | unknown missing =>
    rw [lookup_watched, Option.map_eq_none_iff] at missing
    have none : ex.parameters step w.context.vars = none := by
      simp only [parameters, missing, Option.bind_eq_bind, Option.bind_none]
    have entered := shows_enter spare index step w
    exact ⟨[], entered.turn spare (.none (.inl none) id) (Run.seen_stopAt ex.hooks index step _ _)
      (Run.byHooks_stopAt _ index step _ _)⟩
  | completed found first =>
    obtain ⟨own, there, rfl⟩ := lookup_watched_eq_some.mp found
    obtain ⟨calls, asks, shown⟩ := exists_asks_first spare there first
    exact ⟨calls, shown.turn spare asks.callsOf_ok (Run.seen_complete ex.hooks index step _ _)
      (Run.byHooks_complete _ index step _ _)⟩
  | @stopped _ e _ found first final =>
    obtain ⟨own, there, rfl⟩ := lookup_watched_eq_some.mp found
    obtain ⟨calls, asks, shown⟩ := exists_asks_first spare there first
    have notAgain : e.isRecoverable = true → step.onError ≠ .retry := by
      rintro recoverable policy
      simp only [recoverable, policy, Bool.true_eq_false, reduceCtorEq, or_self] at final
    exact ⟨calls, shown.turn spare (asks.callsOf_error notAgain id)
      (Run.seen_stopAt ex.hooks index step _ _) (Run.byHooks_stopAt _ index step _ _)⟩
  | skipped found first recoverable policy =>
    obtain ⟨own, there, rfl⟩ := lookup_watched_eq_some.mp found
    obtain ⟨calls, asks, shown⟩ := exists_asks_first spare there first
    have notAgain : step.onError ≠ .retry := by rw [policy]; decide
    exact ⟨calls, shown.turn spare (asks.callsOf_error (fun _ => notAgain) id)
      (Run.seen_skipOver ex.hooks index step _ _) (Run.byHooks_skipOver _ index step _ _)⟩
  | recovered found first recoverable policy second =>
    obtain ⟨own, there, rfl⟩ := lookup_watched_eq_some.mp found
    obtain ⟨calls, asks, shown⟩ := exists_asks_first spare there first
    obtain ⟨calls', again, shown'⟩ := exists_asks_second spare there first second
    exact ⟨calls ++ calls', (shown.trans shown').turn spare (asks.callsOf_error_ok again policy)
      (Run.seen_complete ex.hooks index step _ _) (Run.byHooks_complete _ index step _ _)⟩
  | stoppedAgain found first recoverable policy second =>
    obtain ⟨own, there, rfl⟩ := lookup_watched_eq_some.mp found
    obtain ⟨calls, asks, shown⟩ := exists_asks_first spare there first
    obtain ⟨calls', again, shown'⟩ := exists_asks_second spare there first second
    exact ⟨calls ++ calls',
      (shown.trans shown').turn spare (asks.callsOf_error_error again policy id)
      (Run.seen_stopAt ex.hooks index step _ _) (Run.byHooks_stopAt _ index step _ _)⟩

end

/-! ## The calls of a run -/

/-- The watched run when so many of the steps have had their turn. -/
def reached (ex : Executor σ) (mode : Mode) (index : Nat) (steps : List Step) (w : Run (Seen σ))
    (i : Nat) : Run (Seen σ) :=
  (ex.watched.runSteps mode index (steps.take i) w).2

theorem reached_zero (ex : Executor σ) (mode : Mode) (index : Nat) (steps : List Step)
    (w : Run (Seen σ)) : ex.reached mode index steps w 0 = w := rfl

theorem reached_succ_of_error {w w₁ : Run (Seen σ)} {e : PipelineError}
    (ran : ex.watched.runStep mode index step w = (.error e, w₁)) (steps : List Step) (i : Nat) :
    ex.reached mode index (step :: steps) w (i + 1) = w₁ := by
  rw [reached, List.take_succ_cons, runSteps, ran]

theorem reached_succ_of_ok {w w₁ : Run (Seen σ)}
    (ran : ex.watched.runStep mode index step w = (.ok (), w₁)) (steps : List Step) (i : Nat) :
    ex.reached mode index (step :: steps) w (i + 1) = ex.reached mode (index + 1) steps w₁ i := by
  rw [reached, List.take_succ_cons, runSteps, ran, reached]

/-- The calls of a walk over these steps, each in the turn of its step. -/
structure Account (ex : Executor σ) (mode : Mode) (index : Nat) (steps : List Step)
    (w : Run (Seen σ)) (passages : List Passage) : Prop where
  walks : ex.watched.Walks mode index steps w passages (ex.watched.runSteps mode index steps w).1
    (ex.watched.runSteps mode index steps w).2
  turns : ∀ i passage, passages[i]? = some passage → ∃ step calls, steps[i]? = some step ∧
    ex.Turn mode step passage calls (ex.reached mode index steps w i)
      (ex.reached mode index steps w (i + 1))
  ends : (ex.watched.runSteps mode index steps w).2 = ex.reached mode index steps w passages.length

/-- A step that ends the run is the last to have its turn. -/
theorem account_stop {w w₁ : Run (Seen σ)} {passage : Passage} {calls : List (Sighting σ)}
    {e : PipelineError} (ran : ex.watched.runStep mode index step w = (.error e, w₁))
    (passes : ex.watched.Passes mode index step w passage w₁) (failure : passage.failure = some e)
    (turn : ex.Turn mode step passage calls w w₁) (steps : List Step) :
    ex.Account mode index (step :: steps) w [passage] := by
  have walked : ex.watched.runSteps mode index (step :: steps) w = (.error e, w₁) := by
    rw [runSteps, ran]
  refine ⟨?_, ?_, ?_⟩
  · rw [walked]
    exact .stop passes failure
  · intro i only there
    cases i with
    | zero =>
      obtain rfl := Option.some.inj there
      refine ⟨step, calls, rfl, ?_⟩
      rw [reached_zero, reached_succ_of_error ran]
      exact turn
    | succ i => cases there
  · rw [walked, List.length_singleton, reached_succ_of_error ran]

/-- After a step that does not end the run, the others have their turns. -/
theorem account_next {w w₁ : Run (Seen σ)} {passage : Passage} {calls : List (Sighting σ)}
    {steps : List Step} {passages : List Passage}
    (ran : ex.watched.runStep mode index step w = (.ok (), w₁))
    (passes : ex.watched.Passes mode index step w passage w₁) (failure : passage.failure = none)
    (turn : ex.Turn mode step passage calls w w₁)
    (account : ex.Account mode (index + 1) steps w₁ passages) :
    ex.Account mode index (step :: steps) w (passage :: passages) := by
  have walked : ex.watched.runSteps mode index (step :: steps) w =
      ex.watched.runSteps mode (index + 1) steps w₁ := by
    rw [runSteps, ran]
  refine ⟨?_, ?_, ?_⟩
  · rw [walked]
    exact .next passes failure account.walks
  · intro i next there
    cases i with
    | zero =>
      obtain rfl := Option.some.inj there
      refine ⟨step, calls, rfl, ?_⟩
      rw [reached_zero, reached_succ_of_ok ran]
      exact turn
    | succ i =>
      rw [reached_succ_of_ok ran, reached_succ_of_ok ran]
      exact account.turns i next there
  · rw [walked, List.length_cons, reached_succ_of_ok ran]
    exact account.ends

/-- Every run has an account: whatever its steps do, each call is one that the run was to make. -/
theorem exists_account (spare : ∀ hook ∈ ex.hooks, hook.SparesInputs) (mode : Mode) (index : Nat)
    (steps : List Step) (w : Run (Seen σ)) : ∃ passages, ex.Account mode index steps w passages := by
  induction steps generalizing index w with
  | nil => exact ⟨[], .done, nofun, rfl⟩
  | cons step steps ih =>
    obtain ⟨passage, passes, given⟩ := ex.watched.runStep_passes mode index step w
    obtain ⟨calls, turn⟩ := exists_turn spare passes
    rcases ran : ex.watched.runStep mode index step w with ⟨e | ⟨⟩, w₁⟩ <;>
      rw [ran] at passes given turn
    · exact ⟨[passage],
        account_stop ran passes (Passage.result_eq_error.mp given.symm) turn steps⟩
    · obtain ⟨passages, account⟩ := ih (index + 1) w₁
      exact ⟨passage :: passages,
        account_next ran passes (Passage.result_eq_ok.mp given.symm) turn account⟩

/-- Between turns the data are the last value given. -/
theorem Account.data {steps : List Step} {w : Run (Seen σ)} {passages : List Passage}
    (account : ex.Account mode index steps w passages) (sets : ex.SetsNoData) :
    ∀ i ≤ passages.length, (ex.reached mode index steps w i).context.data =
      latest w.context.data (passages.take i) := by
  intro i within
  induction i with
  | zero => rfl
  | succ i ih =>
    have there := List.getElem?_eq_getElem (Nat.lt_of_succ_le within)
    obtain ⟨step, calls, -, turn⟩ := account.turns i _ there
    rw [turn.leaves sets, ih (Nat.le_of_succ_le within), List.take_add_one, there, latest, latest,
      List.foldl_append]
    rfl

theorem data_start (spare : ∀ hook ∈ ex.hooks, hook.SparesInputs) (p : Pipeline) (r : Run σ) :
    (ex.start p r).context.data = r.context.data := by
  have told : ByHooks ex.hooks (declare p r.context).data (ex.start p r).context.data :=
    Run.byHooks_notify ex.hooks (.beforePipeline p)
      (Run.enter { r with context := declare p r.context } _)
  have quiet : ∀ hook ∈ ex.hooks, hook.Quiet :=
    fun hook mem callback c state => (spare hook mem callback c state).2
  rw [told.eq_of_quiet quiet, declare_eq]

/-- If no handler sets the data, they are the last value given at any time, also at the end. -/
theorem Account.execute_data {p : Pipeline} {r : Run σ} {passages : List Passage}
    (spare : ∀ hook ∈ ex.hooks, hook.SparesInputs) (sets : ex.SetsNoData)
    (account : ex.Account mode 0 p.steps (ex.watched.start p r.watched) passages) :
    (∀ i ≤ passages.length, (ex.reached mode 0 p.steps (ex.watched.start p r.watched) i).context.data =
      latest r.context.data (passages.take i)) ∧
    (ex.execute mode p r).2.context.data = latest r.context.data passages := by
  have began : (ex.watched.start p r.watched).context.data = r.context.data :=
    data_start (spares_watched spare) p r.watched
  have data := account.data sets
  rw [began] at data
  have last := data passages.length (Nat.le_refl _)
  rw [List.take_length, ← account.ends] at last
  have told : ByHooks ex.watched.hooks
      (ex.watched.runSteps mode 0 p.steps (ex.watched.start p r.watched)).2.context.data
      (ex.watched.execute mode p r.watched).2.context.data :=
    Run.byHooks_notify ex.watched.hooks (.afterPipeline p _) _
  have same : (ex.watched.execute mode p r.watched).2.context = (ex.execute mode p r).2.context :=
    congrArg Run.context (ex.watched_execute mode p r).2
  refine ⟨data, ?_⟩
  rw [← same, told.eq_of_quiet (quiet_watched spare), last]

/-- **The calls of a run.** With hooks that leave variables and data alone, a run is the fold of its
steps, each with its calls settled when it starts. Watched, it is the same run, and the calls seen
are those of the steps that it comes to, in order and each in the turn of its step. If no handler
sets the data, every call sees the last value of the steps before, or the data that the run began
with, and so it leaves them. -/
theorem run_makes_settled_calls (ex : Executor σ) (spare : ∀ hook ∈ ex.hooks, hook.SparesInputs)
    (mode : Mode) (p : Pipeline) (r : Run σ) :
    (ex.execute mode p r =
      let (result, r) := p.steps.zipIdx.foldl (ex.foldStep mode) (.ok (), ex.start p r)
      (result, r.notify ex.hooks (.afterPipeline p result))) ∧
    let w := ex.watched.start p r.watched
    let ended := ex.watched.execute mode p r.watched
    ended.1 = (ex.execute mode p r).1 ∧ ended.2.unwatched = (ex.execute mode p r).2 ∧
    w.state.2 = [] ∧
    ∃ passages, ex.Account mode 0 p.steps w passages ∧
      ended.2.state.2 = (ex.reached mode 0 p.steps w passages.length).state.2 ∧
      (ex.SetsNoData →
        (∀ i ≤ passages.length, (ex.reached mode 0 p.steps w i).context.data =
          latest r.context.data (passages.take i)) ∧
        (ex.execute mode p r).2.context.data = latest r.context.data passages) := by
  obtain ⟨result, run⟩ := ex.watched_execute mode p r
  obtain ⟨passages, account⟩ := exists_account spare mode 0 p.steps (ex.watched.start p r.watched)
  have none : (ex.watched.start p r.watched).state.2 = [] := (Run.notify_watched ex.hooks _ _).2
  refine ⟨execute_eq_foldl spare mode p r, result, run, none, passages, account, ?_, fun sets =>
    account.execute_data spare sets⟩
  rw [← account.ends]
  exact (Run.notify_watched ex.hooks _ _).2

/-- An executor whose one handler sets the variable `n` to the number of calls before, fails when it
is called first, and gives that number from then on. -/
def shifting : Executor Nat where
  hooks := [.logging, .events]
  registry := [((.source, "next"),
    { info := {}
      handler :=
        { isAsync := false
          run := fun call =>
            { outcome :=
                if call.state = 0 then .error ⟨"not yet"⟩ else .ok (some (.ofNat call.state))
              memory := { call.memory with vars := call.memory.vars.set "n" (.ofNat call.state) }
              notes := []
              state := call.state + 1 } } })]

/-- A step that is tried again and asks for the value of `n`, which is 7 to begin with. -/
def insisting : Pipeline where
  name := "insisting"
  vars := [("n", .ofNat 7)]
  steps := [{ atom := ⟨.source, "next", [("_arg0", .string "$n")]⟩, onError := .retry }]

/-- The second call has the parameters of the first, though that one has changed the variable. -/
theorem shifting_calls_are_alike :
    (∀ hook ∈ shifting.hooks, hook.SparesInputs) ∧ shifting.SetsNoData ∧
    (∃ passages, shifting.Account .blocking 0 insisting.steps
        (shifting.watched.start insisting (Run.watched ⟨{}, 0, []⟩)) passages ∧
      (shifting.execute .blocking insisting ⟨{}, 0, []⟩).2.context.data = latest .null passages) ∧
    (shifting.watched.execute .blocking insisting (Run.watched ⟨{}, 0, []⟩)).2.state.2.map
        (fun s => s.call.params) = [[("_arg0", .ofNat 7)], [("_arg0", .ofNat 7)]] ∧
    (shifting.execute .blocking insisting ⟨{}, 0, []⟩).2.context.data = .ofNat 1 := by
  have spare : ∀ hook ∈ shifting.hooks, hook.SparesInputs :=
    List.forall_mem_cons.mpr ⟨Hook.sparesInputs_ofLog _,
      List.forall_mem_singleton.mpr (Hook.sparesInputs_ofSignal _)⟩
  have sets : shifting.SetsNoData := by
    intro type action atom found
    cases List.mem_singleton.mp (Registry.mem_of_lookup found)
    exact fun call => rfl
  obtain ⟨-, -, -, -, passages, account, -, data⟩ :=
    run_makes_settled_calls shifting spare .blocking insisting ⟨{}, 0, []⟩
  exact ⟨spare, sets, ⟨passages, account, (data sets).2⟩, rfl, rfl⟩

/-- An executor whose one handler has to be waited for. -/
def awaiting : Executor Unit where
  registry := [((.source, "fetch"),
    { info := {}
      handler :=
        { isAsync := true
          run := fun call =>
            { outcome := .ok (some (.string "fetched"))
              memory := call.memory
              notes := []
              state := call.state } } })]

/-- A pipeline that comes to this handler. -/
def fetching : Pipeline where
  name := "fetching"
  steps := [{ atom := ⟨.source, "fetch", []⟩ }]

/-- A blocking run enters the step and does not call the handler, though there is one and its
parameters can be prepared. A waiting run calls it once. -/
theorem awaited_handler_is_not_called :
    (∀ hook ∈ awaiting.hooks, hook.SparesInputs) ∧
    (∀ step ∈ fetching.steps, awaiting.parameters step [] = some []) ∧
    (awaiting.execute .blocking fetching ⟨{}, (), []⟩).2.context.stepCount = 1 ∧
    (awaiting.watched.execute .blocking fetching (Run.watched ⟨{}, (), []⟩)).2.state.2 = [] ∧
    (awaiting.watched.execute .waiting fetching (Run.watched ⟨{}, (), []⟩)).2.state.2.length = 1 := by
  refine ⟨nofun, ?_, rfl, rfl, rfl⟩
  intro step mem
  cases List.mem_singleton.mp mem
  rfl

end Executor

end Pipework
