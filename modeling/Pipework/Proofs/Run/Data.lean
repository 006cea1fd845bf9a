import Pipework.Proofs.Run.Passage

/-!
# The data of a step that fails

An attempt touches the data through its handler only, and nothing puts the data back when the
handler fails: what the handler has set by then is what a skipped step hands on, what a second
attempt starts from, and what a run that stops leaves. Where the handler is not called, or sets no
data, this is the data that the step started with.

Hooks stand between an attempt and whatever comes next, and a hook may set the data whenever it is
told something. `ByHooks` keeps their part apart from everything else, so that no theorem here
needs to know what the hooks of an executor do.

An executor `Keeps` data when neither its hooks nor its handlers that fail set them. Only then does
a run leave the data of the last step that completed.
-/

namespace Pipework

variable {σ : Type}

/-! ## The part of hooks -/

/-- The data becomes this one while nothing happens but that hooks are told something. -/
inductive ByHooks (hooks : List (Hook σ)) (data : Json) : Json → Prop
  | none : ByHooks hooks data data
  | react {hook : Hook σ} {c : Context} (mem : hook ∈ hooks) (callback : Callback) (state : σ)
      (before : ByHooks hooks data c.data) :
      ByHooks hooks data (hook.react callback c state).context.data

namespace ByHooks

variable {hooks : List (Hook σ)} {data data' data'' : Json}

/-- What hooks do in turn, they do together. -/
theorem trans (first : ByHooks hooks data data') (second : ByHooks hooks data' data'') :
    ByHooks hooks data data'' := by
  induction second with
  | none => exact first
  | react mem callback state _ ih => exact .react mem callback state ih

end ByHooks

/-- The hook never sets the data. -/
def Hook.Quiet (hook : Hook σ) : Prop :=
  ∀ callback c state, (hook.react callback c state).context.data = c.data

/-- A hook that writes to the log of the context is quiet. -/
theorem Hook.quiet_ofLog (write : Callback → Context → Option (String × LogLevel)) :
    (ofLog write : Hook σ).Quiet := by
  intro callback c state
  simp only [ofLog]
  split <;> rfl

/-- A hook that sends signals is quiet. -/
theorem Hook.quiet_ofSignal (send : Callback → Context → Option Signal) :
    (ofSignal send : Hook σ).Quiet :=
  fun _ _ _ => rfl

/-- Quiet hooks leave the data as it is. -/
theorem ByHooks.eq_of_quiet {hooks : List (Hook σ)} {data data' : Json}
    (quiet : ∀ hook ∈ hooks, hook.Quiet) (byHooks : ByHooks hooks data data') : data' = data := by
  induction byHooks with
  | none => rfl
  | react mem callback state _ ih => rw [quiet _ mem, ih]

namespace Run

/-- When hooks are told something, they and only they may change the data. -/
theorem byHooks_notify (hooks : List (Hook σ)) (callback : Callback) (r : Run σ) :
    ByHooks hooks r.context.data (r.notify hooks callback).context.data := by
  have told : ∀ (pairs : List (Hook σ × Nat)) (r : Run σ), (∀ pair ∈ pairs, pair.1 ∈ hooks) →
      ByHooks hooks r.context.data
        (pairs.foldl (fun r hook => r.tell callback hook) r).context.data := by
    intro pairs
    induction pairs with
    | nil => exact fun r _ => .none
    | cons pair pairs ih =>
      intro r mem
      have first : ByHooks hooks r.context.data (r.tell callback pair).context.data :=
        .react (mem pair List.mem_cons_self) callback r.state .none
      exact first.trans (ih _ fun other h => mem other (List.mem_cons_of_mem _ h))
  exact told hooks.zipIdx r fun pair mem => List.fst_mem_of_mem_zipIdx mem

variable (hooks : List (Hook σ)) (index : Nat) (step : Step) (e : PipelineError) (r : Run σ)

/-- Recording a failure changes no data beyond what the hooks do. -/
theorem byHooks_recordFailure :
    ByHooks hooks r.context.data (r.recordFailure hooks index step e).context.data :=
  byHooks_notify hooks (.onError index step e) r

theorem byHooks_stopAt :
    ByHooks hooks r.context.data (r.stopAt hooks index step e).2.context.data :=
  byHooks_recordFailure hooks index step e r

theorem byHooks_skipOver :
    ByHooks hooks r.context.data (r.skipOver hooks index step e).2.context.data :=
  byHooks_recordFailure hooks index step e r

theorem byHooks_announceRetry :
    ByHooks hooks r.context.data (r.announceRetry hooks index step).context.data := by
  unfold announceRetry
  exact byHooks_notify hooks (.onRetry index step) (r.enter _)

/-- A step that completes sets the data to its value, if there is one to replace it. -/
theorem byHooks_complete (value : Option Json) :
    ByHooks hooks ((replacing value).getD r.context.data)
      (r.complete hooks index step value).2.context.data := by
  unfold complete
  refine (ByHooks.trans ?_ (byHooks_notify hooks _ _))
  unfold replacing
  cases value.filter fun v => !v.isNull <;> exact .none

end Run

/-! ## Attempts -/

/-- When the handler fails it has not set the data. -/
def Handler.SparesData (handler : Handler σ) : Prop :=
  ∀ call e, (handler.run call).outcome = .error e →
    (handler.run call).memory.data = call.memory.data

/-- Notes change no data. -/
theorem Context.data_absorb (c : Context) (memory : Memory) (notes : List Note) :
    (c.absorb memory notes).data = memory.data := by
  have written : ∀ (notes : List Note) (c : Context), (notes.foldl write c).data = c.data := by
    intro notes
    induction notes with
    | nil => exact fun _ => rfl
    | cons note notes ih =>
      intro c
      rw [List.foldl_cons, ih]
      cases note <;> rfl
  exact written notes _

/-- An attempt of a step: the task, its parameters if there are any, and the run it is made in. -/
structure Attempt (σ : Type) where
  task : Task σ
  prepared : Except PipelineError Params
  start : Run σ

namespace Attempt

/-- What the attempt gives. -/
def outcome (a : Attempt σ) (mode : Mode) : Except PipelineError (Option Json) :=
  (a.task.attempt mode a.prepared a.start).1

/-- The data that the attempt leaves: that of the memory that the handler leaves, if the handler is
called, and else that which there is. -/
def left (a : Attempt σ) (mode : Mode) : Json :=
  match a.prepared with
  | .error _ => a.start.context.data
  | .ok params =>
    if a.task.atom.handler.isAsync && mode == .blocking then a.start.context.data
    else
      (a.task.atom.handler.run
        ⟨params, a.start.context.domain, a.start.context.toMemory, a.start.state⟩).memory.data

/-- An attempt leaves the data to its handler, whether it succeeds or fails. -/
theorem data_attempt (a : Attempt σ) (mode : Mode) :
    (a.task.attempt mode a.prepared a.start).2.context.data = a.left mode := by
  unfold Task.attempt left
  cases a.prepared with
  | error e => rfl
  | ok params =>
    simp only [Task.invoke]
    split
    · rfl
    · exact Context.data_absorb _ _ _

/-- An attempt that fails leaves the data it began with, if its handler spares them. -/
theorem left_of_error {a : Attempt σ} {mode : Mode} {e : PipelineError}
    (spares : a.task.atom.handler.SparesData) (failed : a.outcome mode = .error e) :
    a.left mode = a.start.context.data := by
  unfold outcome Task.attempt at failed
  unfold left
  cases prepared : a.prepared with
  | error e => rfl
  | ok params =>
    simp only [prepared, Task.invoke] at failed ⊢
    split at failed
    next waits => rw [if_pos waits]
    next called =>
      rw [if_neg called]
      cases given : (a.task.atom.handler.run
          ⟨params, a.start.context.domain, a.start.context.toMemory, a.start.state⟩).outcome with
      | error e' => exact spares _ e' given
      | ok value => rw [given] at failed; cases failed

end Attempt

namespace Executor

/-- The attempt is made at this step, begins with the data as hooks have left them, and gives
this. -/
structure Tried (ex : Executor σ) (mode : Mode) (index : Nat) (step : Step) (data : Json)
    (a : Attempt σ) (outcome : Except PipelineError (Option Json)) : Prop where
  found : ex.registry.lookup step.atom.type step.atom.action = some a.task.atom
  task : a.task = ⟨index, step, a.task.atom⟩
  started : ByHooks ex.hooks data a.start.context.data
  gave : a.outcome mode = outcome

/-- The way of the data through a step, from the attempt or attempts to what the step hands on. -/
inductive HandsOn (ex : Executor σ) (mode : Mode) (index : Nat) (step : Step) (data : Json) :
    Passage → Json → Prop
  | unknown {data' : Json} {e : PipelineError}
      (missing : ex.registry.lookup step.atom.type step.atom.action = none)
      (kept : ByHooks ex.hooks data data') : HandsOn ex mode index step data (.stopped e) data'
  | completed {a : Attempt σ} {value : Option Json} {data' : Json}
      (tried : ex.Tried mode index step data a (.ok value))
      (kept : ByHooks ex.hooks ((replacing value).getD (a.left mode)) data') :
      HandsOn ex mode index step data (.completed (replacing value)) data'
  | stopped {a : Attempt σ} {e : PipelineError} {data' : Json}
      (tried : ex.Tried mode index step data a (.error e))
      (kept : ByHooks ex.hooks (a.left mode) data') :
      HandsOn ex mode index step data (.stopped e) data'
  | skipped {a : Attempt σ} {e : PipelineError} {data' : Json}
      (tried : ex.Tried mode index step data a (.error e))
      (kept : ByHooks ex.hooks (a.left mode) data') :
      HandsOn ex mode index step data (.skipped e) data'
  | recovered {a b : Attempt σ} {e : PipelineError} {value : Option Json} {data' : Json}
      (tried : ex.Tried mode index step data a (.error e))
      (again : ex.Tried mode index step (a.left mode) b (.ok value))
      (kept : ByHooks ex.hooks ((replacing value).getD (b.left mode)) data') :
      HandsOn ex mode index step data (.recovered e (replacing value)) data'
  | stoppedAgain {a b : Attempt σ} {e e' : PipelineError} {data' : Json}
      (tried : ex.Tried mode index step data a (.error e))
      (again : ex.Tried mode index step (a.left mode) b (.error e'))
      (kept : ByHooks ex.hooks (b.left mode) data') :
      HandsOn ex mode index step data (.stoppedAgain e e') data'

theorem byHooks_enter (ex : Executor σ) (index : Nat) (step : Step) (r : Run σ) :
    ByHooks ex.hooks r.context.data (ex.enter index step r).context.data :=
  Run.byHooks_notify ex.hooks (.beforeStep index step) { r with context := r.context.enterStep }

/-- The first attempt of a step begins with the data that the step starts with. -/
theorem exists_tried_first {ex : Executor σ} {mode : Mode} {index : Nat} {step : Step}
    {r r₁ : Run σ} {atom : Registered σ} {outcome : Except PipelineError (Option Json)}
    (found : ex.registry.lookup step.atom.type step.atom.action = some atom)
    (first : (Task.mk index step atom).first mode (ex.enter index step r) = (outcome, r₁)) :
    ∃ a, ex.Tried mode index step r.context.data a outcome ∧ r₁.context.data = a.left mode := by
  let a : Attempt σ :=
    ⟨⟨index, step, atom⟩, Task.prepare ⟨index, step, atom⟩ (ex.enter index step r).context,
      ex.enter index step r⟩
  have made : a.task.attempt mode a.prepared a.start = (outcome, r₁) := first
  have left := a.data_attempt mode
  rw [made] at left
  exact ⟨a, ⟨found, rfl, ex.byHooks_enter index step r, congrArg Prod.fst made⟩, left⟩

/-- The second attempt of a step begins with the data that the first one left. -/
theorem exists_tried_second {ex : Executor σ} {mode : Mode} {index : Nat} {step : Step}
    {e : PipelineError} {start r₁ r₂ : Run σ} {atom : Registered σ}
    {outcome : Except PipelineError (Option Json)}
    (found : ex.registry.lookup step.atom.type step.atom.action = some atom)
    (second : (Task.mk index step atom).second ex.hooks mode start
      (r₁.recordFailure ex.hooks index step e) = (outcome, r₂)) :
    ∃ b, ex.Tried mode index step r₁.context.data b outcome ∧ r₂.context.data = b.left mode := by
  let announced := (r₁.recordFailure ex.hooks index step e).announceRetry ex.hooks index step
  let t : Task σ := ⟨index, step, atom⟩
  let b : Attempt σ := ⟨t, t.preparedOr (t.prepare start.context) announced.context, announced⟩
  have made : b.task.attempt mode b.prepared b.start = (outcome, r₂) := second
  have left := b.data_attempt mode
  rw [made] at left
  have between : ByHooks ex.hooks r₁.context.data announced.context.data :=
    (Run.byHooks_recordFailure ex.hooks index step e r₁).trans
      (Run.byHooks_announceRetry ex.hooks index step _)
  exact ⟨b, ⟨found, rfl, between, congrArg Prod.fst made⟩, left⟩

/-- However a step passes, its data go this way. -/
theorem Passes.handsOn {ex : Executor σ} {mode : Mode} {index : Nat} {step : Step} {r r' : Run σ}
    {passage : Passage} (passes : ex.Passes mode index step r passage r') :
    ex.HandsOn mode index step r.context.data passage r'.context.data := by
  cases passes with
  | unknown missing =>
    exact .unknown missing
      ((ex.byHooks_enter index step r).trans (Run.byHooks_stopAt ex.hooks index step _ _))
  | completed found first =>
    obtain ⟨a, tried, left⟩ := exists_tried_first found first
    exact .completed tried (left ▸ Run.byHooks_complete ex.hooks index step _ _)
  | stopped found first final =>
    obtain ⟨a, tried, left⟩ := exists_tried_first found first
    exact .stopped tried (left ▸ Run.byHooks_stopAt ex.hooks index step _ _)
  | skipped found first recoverable policy =>
    obtain ⟨a, tried, left⟩ := exists_tried_first found first
    exact .skipped tried (left ▸ Run.byHooks_skipOver ex.hooks index step _ _)
  | recovered found first recoverable policy second =>
    obtain ⟨a, tried, left⟩ := exists_tried_first found first
    obtain ⟨b, again, left'⟩ := exists_tried_second found second
    exact .recovered tried (left ▸ again) (left' ▸ Run.byHooks_complete ex.hooks index step _ _)
  | stoppedAgain found first recoverable policy second =>
    obtain ⟨a, tried, left⟩ := exists_tried_first found first
    obtain ⟨b, again, left'⟩ := exists_tried_second found second
    exact .stoppedAgain tried (left ▸ again)
      (left' ▸ Run.byHooks_stopAt ex.hooks index step _ _)

/-- A run that fails has passed the steps before the one that it fails at. -/
theorem runSteps_eq_error {ex : Executor σ} {mode : Mode} {index : Nat} {steps : List Step}
    {r r' : Run σ} {e : PipelineError} (failed : ex.runSteps mode index steps r = (.error e, r')) :
    ∃ i step start, steps[i]? = some step ∧
      ex.runSteps mode index (steps.take i) r = (.ok (), start) ∧
      ex.runStep mode (index + i) step start = (.error e, r') := by
  induction steps generalizing index r with
  | nil => cases failed
  | cons step steps ih =>
    rw [runSteps] at failed
    rcases ran : ex.runStep mode index step r with ⟨e' | ⟨⟩, r₁⟩ <;> rw [ran] at failed
    · cases failed
      exact ⟨0, step, r, rfl, rfl, ran⟩
    · obtain ⟨i, last, start, there, before, stopped⟩ := ih failed
      refine ⟨i + 1, last, start, there, ?_, ?_⟩
      · rw [List.take_succ_cons, runSteps, ran]
        exact before
      · rw [← Nat.add_assoc, Nat.add_right_comm]
        exact stopped

/-- A run that fails leaves what the step handed on that it failed at, and hooks may change it when
they are told of the end. -/
theorem execute_eq_error {ex : Executor σ} {mode : Mode} {p : Pipeline} {r : Run σ}
    {e : PipelineError} (failed : (ex.execute mode p r).1 = .error e) :
    ∃ i step start passage data, p.steps[i]? = some step ∧
      ex.runSteps mode 0 (p.steps.take i) (ex.start p r) = (.ok (), start) ∧
      passage.failure = some e ∧ ex.HandsOn mode i step start.context.data passage data ∧
      ByHooks ex.hooks data (ex.execute mode p r).2.context.data := by
  simp only [execute] at failed ⊢
  rcases ran : ex.runSteps mode 0 p.steps (ex.start p r) with ⟨result, r'⟩
  rw [ran] at failed
  obtain rfl : result = .error e := failed
  obtain ⟨i, step, start, there, before, stopped⟩ := runSteps_eq_error ran
  obtain ⟨passage, passes, given⟩ := ex.runStep_passes mode (0 + i) step start
  rw [Nat.zero_add] at stopped passes given
  rw [stopped] at passes given
  exact ⟨i, step, start, passage, r'.context.data, there, before,
    Passage.result_eq_error.mp given.symm, passes.handsOn, Run.byHooks_notify ex.hooks _ _⟩

/-! ## Where nothing sets the data of a step that fails -/

/-- Neither a hook nor a handler that fails sets the data. -/
structure Keeps (ex : Executor σ) : Prop where
  hooks : ∀ hook ∈ ex.hooks, hook.Quiet
  handlers : ∀ type action atom, ex.registry.lookup type action = some atom →
    atom.handler.SparesData

namespace Keeps

variable {ex : Executor σ} {mode : Mode} {index : Nat}

/-- An attempt that fails leaves the data that the step started with. -/
theorem left_eq {step : Step} {data : Json} {a : Attempt σ} {e : PipelineError} (keeps : ex.Keeps)
    (tried : ex.Tried mode index step data a (.error e)) : a.left mode = data := by
  have started := tried.started.eq_of_quiet keeps.hooks
  have spares := keeps.handlers _ _ _ tried.found
  rw [← started]
  exact a.left_of_error spares tried.gave

/-- A step that fails hands on the data that it started with. -/
theorem data_eq {step : Step} {data data' : Json} {passage : Passage} (keeps : ex.Keeps)
    (handsOn : ex.HandsOn mode index step data passage data') (fails : ¬ passage.Completes) :
    data' = data := by
  cases handsOn with
  | unknown missing kept => exact kept.eq_of_quiet keeps.hooks
  | completed tried kept => exact absurd trivial fails
  | stopped tried kept => exact (kept.eq_of_quiet keeps.hooks).trans (keeps.left_eq tried)
  | skipped tried kept => exact (kept.eq_of_quiet keeps.hooks).trans (keeps.left_eq tried)
  | recovered tried again kept => exact absurd trivial fails
  | stoppedAgain tried again kept =>
    exact (kept.eq_of_quiet keeps.hooks).trans ((keeps.left_eq again).trans (keeps.left_eq tried))

end Keeps

/-- These are the data that the last step to complete left, in a walk over these steps, or those
that the walk began with. -/
def LastCompleted (ex : Executor σ) (mode : Mode) (index : Nat) (steps : List Step) (r : Run σ)
    (passages : List Passage) (data : Json) : Prop :=
  ∃ before after start, passages = before ++ after ∧
    ex.Walks mode index (steps.take before.length) r before (.ok ()) start ∧
    (∀ passage, before.getLast? = some passage → passage.Completes) ∧
    (∀ passage ∈ after, ¬ passage.Completes) ∧ data = start.context.data

/-- A walk leaves the data of the last step that completed. -/
theorem Keeps.lastCompleted {ex : Executor σ} {mode : Mode} {index : Nat} {steps : List Step}
    {r r' : Run σ} {passages : List Passage} {result : Except PipelineError Unit} (keeps : ex.Keeps)
    (walks : ex.Walks mode index steps r passages result r') :
    ex.LastCompleted mode index steps r passages r'.context.data := by
  induction walks with
  | done => exact ⟨[], [], _, rfl, .done, nofun, nofun, rfl⟩
  | @stop index step steps passage e r r' passes failure =>
    have fails := Passage.not_completes_of_failure failure
    refine ⟨[], [passage], r, rfl, .done, nofun, ?_, keeps.data_eq passes.handsOn fails⟩
    exact List.forall_mem_singleton.mpr fails
  | @next index step steps passage passages result r r₁ r' passes failure rest ih =>
    obtain ⟨before, after, start, rfl, walked, last, others, left⟩ := ih
    cases before with
    | cons next before =>
      refine ⟨passage :: next :: before, after, start, rfl, .next passes failure walked, ?_, others,
        left⟩
      rw [List.getLast?_cons_cons]
      exact last
    | nil =>
      -- No later step completes, so it is this one that counts, or none does.
      obtain rfl : r₁ = start := by cases walked; rfl
      by_cases completes : passage.Completes
      · refine ⟨[passage], after, r₁, rfl, .next passes failure .done, ?_, others, left⟩
        rintro _ ⟨⟩
        exact completes
      · refine ⟨[], passage :: after, r, rfl, .done, nofun, ?_, ?_⟩
        · exact List.forall_mem_cons.mpr ⟨completes, others⟩
        · rw [left]
          exact keeps.data_eq passes.handsOn completes

/-- A run leaves the data of the last step that completed. -/
theorem Keeps.execute {ex : Executor σ} (keeps : ex.Keeps) (mode : Mode) (p : Pipeline) (r : Run σ) :
    ∃ passages r', ex.Walks mode 0 p.steps (ex.start p r) passages (ex.execute mode p r).1 r' ∧
      ex.LastCompleted mode 0 p.steps (ex.start p r) passages
        (ex.execute mode p r).2.context.data := by
  obtain ⟨passages, walks⟩ := ex.runSteps_walks mode 0 p.steps (ex.start p r)
  have told : (ex.execute mode p r).2.context.data =
      (ex.runSteps mode 0 p.steps (ex.start p r)).2.context.data :=
    (Run.byHooks_notify ex.hooks
      (.afterPipeline p (ex.runSteps mode 0 p.steps (ex.start p r)).1)
      (ex.runSteps mode 0 p.steps (ex.start p r)).2).eq_of_quiet keeps.hooks
  rw [told]
  exact ⟨passages, _, walks, keeps.lastCompleted walks⟩

/-- **The data of a step that fails.** The data of every step go from hand to hand: between what an
attempt leaves and what comes next, which may be the next step, a second attempt or the end of the
run, only hooks may change them, and nothing takes back what a handler has set before it failed. A
run that fails leaves what the attempt left that it failed with. Where neither hooks nor handlers
that fail set the data, every attempt that fails leaves the data that its step started with, so does
the step if it does not complete, and a run leaves the data of the last step that completed. -/
theorem failed_attempts_are_not_undone (ex : Executor σ) (mode : Mode) :
    (∀ a : Attempt σ, (a.task.attempt mode a.prepared a.start).2.context.data = a.left mode) ∧
    (∀ index step r, ∃ passage,
      ex.Passes mode index step r passage (ex.runStep mode index step r).2 ∧
      ex.HandsOn mode index step r.context.data passage
        (ex.runStep mode index step r).2.context.data) ∧
    (∀ p r e, (ex.execute mode p r).1 = .error e →
      ∃ i step start passage data, p.steps[i]? = some step ∧
        ex.runSteps mode 0 (p.steps.take i) (ex.start p r) = (.ok (), start) ∧
        passage.failure = some e ∧
        ex.HandsOn mode i step start.context.data passage data ∧
        ByHooks ex.hooks data (ex.execute mode p r).2.context.data) ∧
    (ex.Keeps →
      (∀ index step data a e, ex.Tried mode index step data a (.error e) → a.left mode = data) ∧
      (∀ index step data passage data', ex.HandsOn mode index step data passage data' →
        ¬ passage.Completes → data' = data) ∧
      ∀ p r, ∃ passages r',
        ex.Walks mode 0 p.steps (ex.start p r) passages (ex.execute mode p r).1 r' ∧
        ex.LastCompleted mode 0 p.steps (ex.start p r) passages
          (ex.execute mode p r).2.context.data) := by
  refine ⟨fun a => a.data_attempt mode, fun index step r => ?_, fun _ _ _ => execute_eq_error,
    fun keeps => ⟨fun _ _ _ _ _ => keeps.left_eq, fun _ _ _ _ _ => keeps.data_eq,
      keeps.execute mode⟩⟩
  obtain ⟨passage, passes, -⟩ := ex.runStep_passes mode index step r
  exact ⟨passage, passes, passes.handsOn⟩

/-- An executor whose one handler notes the data it finds, sets the data and fails. -/
def spoiling : Executor (List Json) where
  registry := [((.alert, "mark"),
    { info := {}
      handler :=
        { isAsync := false
          run := fun call =>
            { outcome := .error ⟨"out of order"⟩
              memory := { call.memory with data := .string "partial" }
              notes := []
              state := call.state ++ [call.memory.data] } } })]

/-- A run of the one step of `spoiling`, from given data. -/
def spoil (policy : Policy) : Except PipelineError Unit × Run (List Json) :=
  spoiling.execute .blocking
    { name := "spoiled", steps := [{ atom := ⟨.alert, "mark", []⟩, onError := policy }] }
    ⟨{ data := .string "previous" }, [], []⟩

/-- The data that a handler sets before it fails are not taken back: a skipped step hands them on, a
second attempt finds them, and a run that stops leaves them. -/
theorem spoiled_data_stay :
    (spoil .skip).1 = .ok () ∧ (spoil .skip).2.context.data = .string "partial" ∧
    (spoil .retry).2.state = [.string "previous", .string "partial"] ∧
    (spoil .stop).2.context.data = .string "partial" := by
  refine ⟨?_, ?_, ?_, ?_⟩ <;> rfl

end Executor

end Pipework
