import Pipework.Proofs.Run.Passage

/-!
# What hooks are told

Each passage of a step has its block of callbacks, and a run tells the hooks of its beginning, of
the block of every step it comes to, and of its end, each callback to all hooks in their order.

A run grows its journal at one end only. So each helper of a run has one lemma here that says what
it adds to the notices; most add none. The block of a step is put together from these by the cases
of `Passes`, and the blocks of a run by induction on its steps.
-/

namespace Pipework

variable {σ : Type}

/-! ## Callbacks of a step -/

/-- The block of a step: what the hooks are told of it, in order. -/
def Passage.callbacks (index : Nat) (step : Step) : Passage → List Callback
  | .completed value => [.beforeStep index step, .afterStep index step value]
  | .skipped e => [.beforeStep index step, .onError index step e]
  | .recovered e value =>
    [.beforeStep index step, .onError index step e, .onRetry index step,
      .afterStep index step value]
  | .stopped e => [.beforeStep index step, .onError index step e]
  | .stoppedAgain e e' =>
    [.beforeStep index step, .onError index step e, .onRetry index step, .onError index step e']

/-- A block with which a run ends tells of the error it ends with last. -/
theorem Passage.getLast?_callbacks {passage : Passage} {e : PipelineError} (index : Nat)
    (step : Step) (failure : passage.failure = some e) :
    (passage.callbacks index step).getLast? = some (.onError index step e) := by
  cases passage <;> cases failure <;> rfl

/-- Callbacks as so many hooks hear them: each goes to all hooks before the next one. -/
def spread (hooks : Nat) (callbacks : List Callback) : List (Nat × Callback) :=
  callbacks.flatMap fun callback => (List.range hooks).map fun hook => (hook, callback)

@[simp] theorem spread_append (hooks : Nat) (these those : List Callback) :
    spread hooks (these ++ those) = spread hooks these ++ spread hooks those :=
  List.flatMap_append

/-! ## What the helpers of a run add -/

namespace Journal

@[simp] theorem notices_append (j k : Journal) : (j ++ k).notices = j.notices ++ k.notices :=
  List.filterMap_append

@[simp] theorem notices_cons_notice (hook : Nat) (callback : Callback) (j : Journal) :
    notices (.notice hook callback :: j) = (hook, callback) :: j.notices := rfl

/-- Signals are no notices. -/
theorem notices_signals {α : Type} (signal : α → Signal) (items : List α) :
    notices (items.map fun item => .signal (signal item)) = [] := by
  induction items with
  | nil => rfl
  | cons item items ih => exact ih

end Journal

namespace Run

/-- A hook that is told something is all that is added; its signals are no notices. -/
theorem notices_tell (r : Run σ) (callback : Callback) (hook : Hook σ × Nat) :
    (r.tell callback hook).journal.notices = r.journal.notices ++ [(hook.2, callback)] := by
  have silent (signals : List Signal) : Journal.notices (signals.map .signal) = [] :=
    Journal.notices_signals id signals
  simp only [tell, Journal.notices_append, Journal.notices_cons_notice, silent]

/-- The hooks are told in their order. -/
theorem notices_notify (hooks : List (Hook σ)) (callback : Callback) (r : Run σ) :
    (r.notify hooks callback).journal.notices =
      r.journal.notices ++ spread hooks.length [callback] := by
  have told : ∀ (pairs : List (Hook σ × Nat)) (r : Run σ),
      (pairs.foldl (fun r hook => r.tell callback hook) r).journal.notices =
        r.journal.notices ++ (pairs.map Prod.snd).map fun hook => (hook, callback) := by
    intro pairs
    induction pairs with
    | nil => intro r; exact (List.append_nil _).symm
    | cons pair pairs ih =>
      intro r
      rw [List.foldl_cons, ih, notices_tell, List.append_assoc]
      rfl
  rw [notify, told, List.zipIdx_map_snd, ← List.range_eq_range', spread, List.flatMap_singleton]

/-- Lines that are reported are no notices. -/
@[simp] theorem notices_enter_report (r : Run σ) (level : LogLevel) (message : String) :
    (r.enter (.report level message)).journal.notices = r.journal.notices := by
  rw [enter, Journal.notices_append]
  exact List.append_nil _

/-- Reporting what reading a script gave tells the hooks nothing. -/
@[simp] theorem notices_reportAll (r : Run σ) (lines : List Report) :
    (r.reportAll lines).journal.notices = r.journal.notices := by
  rw [reportAll, Journal.notices_append, Journal.notices_signals, List.append_nil]

/-- A failure is told once. -/
theorem notices_recordFailure (hooks : List (Hook σ)) (index : Nat) (step : Step)
    (e : PipelineError) (r : Run σ) :
    (r.recordFailure hooks index step e).journal.notices =
      r.journal.notices ++ spread hooks.length [.onError index step e] :=
  notices_notify hooks (.onError index step e) r

/-- Stopping at a step tells each hook of the error. -/
theorem notices_stopAt (hooks : List (Hook σ)) (index : Nat) (step : Step) (e : PipelineError)
    (r : Run σ) : (r.stopAt hooks index step e).2.journal.notices =
      r.journal.notices ++ spread hooks.length [.onError index step e] := by
  rw [stopAt, notices_enter_report, notices_recordFailure]

/-- So does skipping over it. -/
theorem notices_skipOver (hooks : List (Hook σ)) (index : Nat) (step : Step) (e : PipelineError)
    (r : Run σ) : (r.skipOver hooks index step e).2.journal.notices =
      r.journal.notices ++ spread hooks.length [.onError index step e] := by
  rw [skipOver, notices_enter_report, notices_recordFailure]

/-- A step that completes is told with whether it gave new data. -/
theorem notices_complete (hooks : List (Hook σ)) (index : Nat) (step : Step)
    (value : Option Json) (r : Run σ) : (r.complete hooks index step value).2.journal.notices =
      r.journal.notices ++ spread hooks.length [.afterStep index step (replacing value)] := by
  unfold complete
  exact notices_notify _ _ _

/-- A second attempt is told before it is made. -/
theorem notices_announceRetry (hooks : List (Hook σ)) (index : Nat) (step : Step) (r : Run σ) :
    (r.announceRetry hooks index step).journal.notices =
      r.journal.notices ++ spread hooks.length [.onRetry index step] := by
  rw [announceRetry, notices_notify, notices_enter_report]

end Run

namespace Task

/-- An attempt tells the hooks nothing, whatever its handler does. -/
theorem notices_attempt (t : Task σ) (mode : Mode) (prepared : Except PipelineError Params)
    (r : Run σ) : (t.attempt mode prepared r).2.journal.notices = r.journal.notices := by
  unfold attempt
  cases prepared with
  | error e => rfl
  | ok params =>
    simp only [invoke]
    split
    · rfl
    · rw [Journal.notices_append]
      exact List.append_nil _

/-- The first attempt itself tells nothing. -/
theorem notices_first (t : Task σ) (mode : Mode) (r : Run σ) :
    (t.first mode r).2.journal.notices = r.journal.notices :=
  t.notices_attempt mode _ r

theorem notices_second (t : Task σ) (hooks : List (Hook σ)) (mode : Mode) (start r : Run σ) :
    (t.second hooks mode start r).2.journal.notices =
      r.journal.notices ++ spread hooks.length [.onRetry t.index t.step] := by
  rw [second, notices_attempt, Run.notices_announceRetry]

end Task

namespace Executor

theorem notices_enterStep (ex : Executor σ) (index : Nat) (step : Step) (r : Run σ) :
    (ex.enter index step r).journal.notices =
      r.journal.notices ++ spread ex.hooks.length [.beforeStep index step] :=
  Run.notices_notify ex.hooks _ _

/-! ## One step -/

/-- A step adds its block to the notices, and nothing else. -/
theorem Passes.notices {ex : Executor σ} {mode : Mode} {index : Nat} {step : Step} {r r' : Run σ}
    {passage : Passage} (passes : ex.Passes mode index step r passage r') :
    r'.journal.notices =
      r.journal.notices ++ spread ex.hooks.length (passage.callbacks index step) := by
  have entered := ex.notices_enterStep index step r
  -- What a first attempt leaves has the announcement of the step and no more.
  have tried : ∀ {atom outcome} {r₁ : Run σ},
      (Task.mk index step atom).first mode (ex.enter index step r) = (outcome, r₁) →
        r₁.journal.notices =
          r.journal.notices ++ spread ex.hooks.length [.beforeStep index step] := by
    intro atom outcome r₁ first
    have kept := (Task.mk index step atom).notices_first mode (ex.enter index step r)
    rw [first] at kept
    rw [kept, entered]
  -- A second attempt adds what announces it.
  have again : ∀ {atom outcome} {e : PipelineError} {r₁ r₂ : Run σ},
      (Task.mk index step atom).first mode (ex.enter index step r) = (.error e, r₁) →
      (Task.mk index step atom).second ex.hooks mode (ex.enter index step r)
        (r₁.recordFailure ex.hooks index step e) = (outcome, r₂) →
      r₂.journal.notices = r.journal.notices ++ spread ex.hooks.length
        [.beforeStep index step, .onError index step e, .onRetry index step] := by
    intro atom outcome e r₁ r₂ first second
    have kept := (Task.mk index step atom).notices_second ex.hooks mode (ex.enter index step r)
      (r₁.recordFailure ex.hooks index step e)
    rw [second] at kept
    rw [kept, Run.notices_recordFailure, tried first, List.append_assoc, List.append_assoc,
      ← spread_append, ← spread_append]
    rfl
  cases passes with
  | unknown missing =>
    rw [Run.notices_stopAt, entered, List.append_assoc, ← spread_append]
    rfl
  | completed found first =>
    rw [Run.notices_complete, tried first, List.append_assoc, ← spread_append]
    rfl
  | stopped found first final =>
    rw [Run.notices_stopAt, tried first, List.append_assoc, ← spread_append]
    rfl
  | skipped found first recoverable policy =>
    rw [Run.notices_skipOver, tried first, List.append_assoc, ← spread_append]
    rfl
  | recovered found first recoverable policy second =>
    rw [Run.notices_complete, again first second, List.append_assoc, ← spread_append]
    rfl
  | stoppedAgain found first recoverable policy second =>
    rw [Run.notices_stopAt, again first second, List.append_assoc, ← spread_append]
    rfl

/-! ## All steps -/

/-- The blocks of steps, counted from an index. -/
def blocks (index : Nat) : List Step → List Passage → List Callback
  | step :: steps, passage :: passages =>
    passage.callbacks index step ++ blocks (index + 1) steps passages
  | _, _ => []

namespace Walks

variable {ex : Executor σ} {mode : Mode} {index : Nat} {steps : List Step} {r r' : Run σ}
  {passages : List Passage} {result : Except PipelineError Unit}

/-- A walk adds the blocks of its steps to the notices. -/
theorem notices (walks : ex.Walks mode index steps r passages result r') :
    r'.journal.notices =
      r.journal.notices ++ spread ex.hooks.length (blocks index steps passages) := by
  induction walks with
  | done => exact (List.append_nil _).symm
  | stop passes failure =>
    rw [passes.notices]
    simp only [blocks, List.append_nil]
  | next passes failure rest ih =>
    rw [ih, passes.notices, blocks, spread_append, List.append_assoc]

/-- The error of a walk is the one its hooks were told of last. -/
theorem getLast?_blocks (walks : ex.Walks mode index steps r passages result r')
    {e : PipelineError} (failed : result = .error e) :
    ∃ i step, (blocks index steps passages).getLast? = some (.onError i step e) := by
  induction walks with
  | done => cases failed
  | @stop i step _ passage _ _ _ passes failure =>
    cases failed
    refine ⟨i, step, ?_⟩
    simp only [blocks, List.append_nil]
    exact Passage.getLast?_callbacks i step failure
  | next passes failure rest ih =>
    obtain ⟨i, step, last⟩ := ih failed
    refine ⟨i, step, ?_⟩
    rw [blocks, List.getLast?_append, last, Option.some_or]

end Walks

/-! ## A whole run -/

/-- What a run of a pipeline says of itself: how its steps passed, and what its hooks were told. -/
structure Accounts (ex : Executor σ) (mode : Mode) (p : Pipeline) (r : Run σ)
    (passages : List Passage) (outcome : Except PipelineError Unit × Run σ) : Prop where
  walks : ∃ r', ex.Walks mode 0 p.steps (ex.start p r) passages outcome.1 r'
  told : outcome.2.journal.notices = r.journal.notices ++ spread ex.hooks.length
    (.beforePipeline p :: blocks 0 p.steps passages ++ [.afterPipeline p outcome.1])
  succeeded : outcome.1 = .ok () ↔
    passages.length = p.steps.length ∧ ∀ passage ∈ passages, passage.failure = none
  failed : ∀ e, outcome.1 = .error e ↔
    ∃ passage, passages.getLast? = some passage ∧ passage.failure = some e
  toldLast : ∀ e, outcome.1 = .error e →
    ∃ i step, (blocks 0 p.steps passages).getLast? = some (.onError i step e)

/-- A run of a pipeline has an account. -/
theorem execute_accounts (ex : Executor σ) (mode : Mode) (p : Pipeline) (r : Run σ) :
    ∃ passages, ex.Accounts mode p r passages (ex.execute mode p r) := by
  obtain ⟨passages, walks⟩ := ex.runSteps_walks mode 0 p.steps (ex.start p r)
  have begun : (ex.start p r).journal.notices =
      r.journal.notices ++ spread ex.hooks.length [.beforePipeline p] := by
    rw [start, Run.notices_notify, Run.notices_enter_report]
  refine ⟨passages, ⟨_, walks⟩, ?_, walks.result_eq_ok_iff, walks.result_eq_error_iff,
    fun _ => walks.getLast?_blocks⟩
  simp only [execute]
  rw [Run.notices_notify, walks.notices, begun, List.append_assoc, List.append_assoc,
    ← spread_append, ← spread_append]
  rfl

/-- **What hooks are told.** In either mode a run of a pipeline tells its hooks of its beginning,
then the block of each step it comes to, counted from 0 and without a gap, then of its end. It comes
to a further step exactly while no step has ended it; its result is that of the last step, with the
very error that the hooks were told of last. A script is run as its pipeline is; if it is not read,
its error is the result and the hooks are told nothing. -/
theorem hooks_are_told_each_block (ex : Executor σ) (mode : Mode) (r : Run σ) :
    (∀ p, ∃ passages, ex.Accounts mode p r passages (ex.execute mode p r)) ∧
    ∀ text,
      let read := Script.read ex.unknownTypes text
      let begun := r.reportAll read.reports
      begun.journal.notices = r.journal.notices ∧
      match read.result with
      | .ok p => ∃ passages, ex.Accounts mode p begun passages (ex.executeText mode text r)
      | .error e => ex.executeText mode text r = (.error e, begun) := by
  refine ⟨fun p => ex.execute_accounts mode p r, fun text => ⟨Run.notices_reportAll r _, ?_⟩⟩
  cases read : (Script.read ex.unknownTypes text).result with
  | error e => simp only [executeText, read]
  | ok p =>
    simp only [executeText, read]
    exact ex.execute_accounts mode p _

end Executor

end Pipework
