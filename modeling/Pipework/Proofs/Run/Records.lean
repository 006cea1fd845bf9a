import Mathlib.Data.List.Forall2
import Pipework.Proofs.Registry
import Pipework.Proofs.Run.Passage

/-!
# What a run records

A run counts the steps it enters, and records every error that a step meets: that there is no
handler for it, or that an attempt failed, in preparing the parameters, in the handler, the first
time or the second. `Context.Adds` says that one context comes after another with so many steps
entered and so many failures recorded, and nothing else; it composes, so each helper of a run has
one lemma here, the step one case for each way to pass, and the run an induction.

Hooks and handlers may record errors of their own, and hooks may turn the counter. What a run
records is seen from outside only where they do not, which is what `SoleRecorder` says.
-/

namespace Pipework

variable {σ : Type}

/-! ## Failures and their records -/

/-- An error that a step meets, when so many steps have been entered. -/
structure StepFailure where
  error : PipelineError
  step : Step
  entered : Nat

/-- The record tells of the failure: the wording and the kind of its error, the step in script form,
and the step counter at that moment. -/
structure StepFailure.Recorded (f : StepFailure) (record : ErrorRecord) : Prop where
  message : record.message = f.error.message
  kind : record.kind = f.error.kind
  step : record.step = f.step.identifier
  stepIndex : record.stepIndex = f.entered

/-- The errors that a step meets, in order: that it has no handler, or those of the attempts that
fail. -/
def Passage.errors : Passage → List PipelineError
  | .completed _ => []
  | .skipped e | .recovered e _ | .stopped e => [e]
  | .stoppedAgain e e' => [e, e']

/-- The error that ends a run is the last that its step meets. -/
theorem Passage.getLast?_errors {passage : Passage} {e : PipelineError}
    (failure : passage.failure = some e) : passage.errors.getLast? = some e := by
  cases passage <;> cases failure <;> rfl

theorem Passage.failure_eq_none {passage : Passage} (none : passage.errors = []) :
    passage.failure = .none := by
  cases passage <;> first | rfl | cases none

/-- The failures of the `n`-th step to be entered. -/
def Passage.failures (n : Nat) (step : Step) (passage : Passage) : List StepFailure :=
  passage.errors.map fun e => ⟨e, step, n⟩

/-- The failures of steps, where `n` steps have been entered before them. -/
def failures (n : Nat) : List Step → List Passage → List StepFailure
  | step :: steps, passage :: passages =>
    passage.failures (n + 1) step ++ failures (n + 1) steps passages
  | _, _ => []

/-- From the one context to the other so many steps are entered, and these failures are recorded in
order. -/
structure Context.Adds (steps : Nat) (fs : List StepFailure) (c c' : Context) : Prop where
  stepCount : c'.stepCount = c.stepCount + steps
  errors : ∃ records, c'.errors = c.errors ++ records ∧ List.Forall₂ StepFailure.Recorded fs records

namespace Context

variable {c c' c'' : Context}

theorem adds_of_eq (stepCount : c'.stepCount = c.stepCount) (errors : c'.errors = c.errors) :
    Adds 0 [] c c' :=
  ⟨stepCount, [], by rw [errors, List.append_nil], .nil⟩

/-- What two stretches of a run add to the records is added one behind the other. -/
theorem Adds.trans {steps steps' : Nat} {fs fs' : List StepFailure} (first : Adds steps fs c c')
    (second : Adds steps' fs' c' c'') : Adds (steps + steps') (fs ++ fs') c c'' := by
  obtain ⟨records, errors, told⟩ := first.errors
  obtain ⟨records', errors', told'⟩ := second.errors
  refine ⟨?_, records ++ records', ?_, List.rel_append told told'⟩
  · rw [second.stepCount, first.stepCount, Nat.add_assoc]
  · rw [errors', errors, List.append_assoc]

theorem adds_enterStep (c : Context) : Adds 1 [] c c.enterStep :=
  ⟨rfl, [], (List.append_nil _).symm, .nil⟩

/-- A failure is recorded once, with the number of the step it belongs to. -/
theorem adds_recordFailure {n : Nat} (e : PipelineError) (step : Step) (counted : c.stepCount = n) :
    Adds 0 [⟨e, step, n⟩] c (c.recordFailure e step.identifier) := by
  subst counted
  exact ⟨rfl, _, rfl, .cons ⟨rfl, rfl, rfl, rfl⟩ .nil⟩

/-- Log lines are no records. -/
theorem adds_absorb (c : Context) (memory : Memory) {notes : List Note}
    (lines : ∀ message step, Note.error message step ∉ notes) :
    Adds 0 [] c (c.absorb memory notes) := by
  have written : ∀ (notes : List Note) (c : Context),
      (∀ message step, Note.error message step ∉ notes) → Adds 0 [] c (notes.foldl write c) := by
    intro notes
    induction notes with
    | nil => exact fun c _ => adds_of_eq rfl rfl
    | cons note notes ih =>
      intro c lines
      have others : ∀ message step, Note.error message step ∉ notes :=
        fun message step mem => lines message step (List.mem_cons_of_mem _ mem)
      cases note with
      | log message level =>
        have line : Adds 0 [] c (c.log message level) := adds_of_eq rfl rfl
        exact line.trans (ih _ others)
      | error message step => exact absurd List.mem_cons_self (lines message step)
  have kept : Adds 0 [] c { c with toMemory := memory } := adds_of_eq rfl rfl
  exact kept.trans (written notes _ lines)

/-- What a pipeline declares leaves records and counter alone. -/
theorem adds_declare (p : Pipeline) (c : Context) : Adds 0 [] c (Executor.declare p c) := by
  rw [Executor.declare_eq]
  exact adds_of_eq rfl rfl

/-- Where nothing was recorded before, there are errors if there were failures. -/
theorem Adds.hasErrors_eq_false_iff {steps : Nat} {fs : List StepFailure} (adds : Adds steps fs c c')
    (fresh : c.errors = []) : c'.hasErrors = false ↔ fs = [] := by
  obtain ⟨records, errors, told⟩ := adds.errors
  rw [fresh, List.nil_append] at errors
  rw [hasErrors, errors, Bool.not_eq_false', List.isEmpty_iff]
  constructor
  · rintro rfl
    exact List.forall₂_nil_right_iff.mp told
  · rintro rfl
    exact List.forall₂_nil_left_iff.mp told

/-- The last record tells of the last failure. -/
theorem Adds.getLast?_errors {steps : Nat} {fs : List StepFailure} {f : StepFailure}
    (adds : Adds steps fs c c') (last : fs.getLast? = some f) :
    ∃ record, c'.errors.getLast? = some record ∧ f.Recorded record := by
  obtain ⟨records, errors, told⟩ := adds.errors
  obtain ⟨earlier, rfl⟩ := List.getLast?_eq_some_iff.mp last
  have reversed := List.rel_reverse told
  rw [List.reverse_append, List.reverse_singleton, List.singleton_append] at reversed
  obtain ⟨record, others, recorded, -, split⟩ := List.forall₂_cons_left_iff.mp reversed
  refine ⟨record, ?_, recorded⟩
  rw [errors, List.getLast?_append, List.getLast?_eq_head?_reverse, split, List.head?_cons,
    Option.some_or]

end Context

/-! ## Hooks and handlers that leave the records to the run -/

/-- The hook touches neither the error records nor the step counter. -/
def Hook.SparesRecords (hook : Hook σ) : Prop :=
  ∀ callback c state, (hook.react callback c state).context.errors = c.errors ∧
    (hook.react callback c state).context.stepCount = c.stepCount

/-- A hook that logs adds no record of its own. -/
theorem Hook.sparesRecords_ofLog (write : Callback → Context → Option (String × LogLevel)) :
    (ofLog write : Hook σ).SparesRecords := by
  intro callback c state
  simp only [ofLog]
  split <;> exact ⟨rfl, rfl⟩

theorem Hook.sparesRecords_ofSignal (send : Callback → Context → Option Signal) :
    (ofSignal send : Hook σ).SparesRecords :=
  fun _ _ _ => ⟨rfl, rfl⟩

/-- The handler records no errors itself. -/
def Handler.RecordsNothing (handler : Handler σ) : Prop :=
  ∀ call message step, Note.error message step ∉ (handler.run call).notes

/-- Only the run itself records errors and counts steps. -/
structure Executor.SoleRecorder (ex : Executor σ) : Prop where
  hooks : ∀ hook ∈ ex.hooks, hook.SparesRecords
  handlers : ∀ type action atom, ex.registry.lookup type action = some atom →
    atom.handler.RecordsNothing

namespace Run

variable {hooks : List (Hook σ)} (spare : ∀ hook ∈ hooks, hook.SparesRecords)

include spare

/-- Telling the hooks adds nothing. -/
theorem adds_notify (callback : Callback) (r : Run σ) :
    Context.Adds 0 [] r.context (r.notify hooks callback).context := by
  apply notify_preserves (P := fun r' => Context.Adds 0 [] r.context r'.context)
  · intro hook mem place r' before
    obtain ⟨errors, stepCount⟩ := spare hook mem callback r'.context r'.state
    have told : Context.Adds 0 [] r'.context (r'.tell callback (hook, place)).context :=
      Context.adds_of_eq stepCount errors
    exact before.trans told
  · exact Context.adds_of_eq rfl rfl

variable (index : Nat) (step : Step) {r : Run σ} {n : Nat}

/-- A failure is recorded once. -/
theorem adds_recordFailure (e : PipelineError) (counted : r.context.stepCount = n) :
    Context.Adds 0 [⟨e, step, n⟩] r.context (r.recordFailure hooks index step e).context := by
  have told := adds_notify spare (.onError index step e) r
  have still : (r.notify hooks (.onError index step e)).context.stepCount = n := by
    rw [told.stepCount, counted, Nat.add_zero]
  exact told.trans (Context.adds_recordFailure e step still)

theorem adds_stopAt (e : PipelineError) (counted : r.context.stepCount = n) :
    Context.Adds 0 [⟨e, step, n⟩] r.context (r.stopAt hooks index step e).2.context :=
  adds_recordFailure spare index step e counted

theorem adds_skipOver (e : PipelineError) (counted : r.context.stepCount = n) :
    Context.Adds 0 [⟨e, step, n⟩] r.context (r.skipOver hooks index step e).2.context :=
  adds_recordFailure spare index step e counted

theorem adds_announceRetry (r : Run σ) :
    Context.Adds 0 [] r.context (r.announceRetry hooks index step).context := by
  unfold announceRetry
  exact adds_notify spare _ (r.enter _)

theorem adds_complete (value : Option Json) (r : Run σ) :
    Context.Adds 0 [] r.context (r.complete hooks index step value).2.context := by
  unfold complete
  cases value.filter fun v => !v.isNull with
  | none => exact adds_notify spare _ _
  | some data =>
    have replaced : Context.Adds 0 [] r.context (r.context.setData data) :=
      Context.adds_of_eq rfl rfl
    exact replaced.trans
      (adds_notify spare (.afterStep index step (some data))
        { r with context := r.context.setData data })

end Run

/-- An attempt records nothing, whether it succeeds or fails. -/
theorem Task.adds_attempt {t : Task σ} (silent : t.atom.handler.RecordsNothing) (mode : Mode)
    (prepared : Except PipelineError Params) (r : Run σ) :
    Context.Adds 0 [] r.context (t.attempt mode prepared r).2.context := by
  unfold attempt
  cases prepared with
  | error e => exact Context.adds_of_eq rfl rfl
  | ok params =>
    simp only [invoke]
    split
    · exact Context.adds_of_eq rfl rfl
    · exact Context.adds_absorb _ _ fun message step => silent _ message step

/-! ## Steps and runs -/

namespace Executor

variable {ex : Executor σ} {mode : Mode} {index : Nat}

/-- A step is counted once, however often it is tried, and its failures are recorded. -/
theorem Passes.adds {step : Step} {r r' : Run σ} {passage : Passage} (sole : ex.SoleRecorder)
    (passes : ex.Passes mode index step r passage r') :
    Context.Adds 1 (passage.failures (r.context.stepCount + 1) step) r.context r'.context := by
  have entered : Context.Adds 1 [] r.context (ex.enter index step r).context :=
    (Context.adds_enterStep r.context).trans
      (Run.adds_notify sole.hooks (.beforeStep index step)
        { r with context := r.context.enterStep })
  have tried : ∀ {atom outcome} {r₁ : Run σ},
      ex.registry.lookup step.atom.type step.atom.action = some atom →
      (Task.mk index step atom).first mode (ex.enter index step r) = (outcome, r₁) →
        Context.Adds 1 [] r.context r₁.context := by
    intro atom outcome r₁ found first
    have silent := sole.handlers _ _ _ found
    have made := Task.adds_attempt (t := ⟨index, step, atom⟩) silent mode
      (Task.prepare ⟨index, step, atom⟩ (ex.enter index step r).context) (ex.enter index step r)
    unfold Task.first at first
    rw [first] at made
    exact entered.trans made
  -- A second attempt comes after the record of the first, and leaves nothing but that.
  have again : ∀ {atom outcome} {e : PipelineError} {r₁ r₂ : Run σ},
      ex.registry.lookup step.atom.type step.atom.action = some atom →
      (Task.mk index step atom).first mode (ex.enter index step r) = (.error e, r₁) →
      (Task.mk index step atom).second ex.hooks mode (ex.enter index step r)
        (r₁.recordFailure ex.hooks index step e) = (outcome, r₂) →
      Context.Adds 1 [⟨e, step, r.context.stepCount + 1⟩] r.context r₂.context := by
    intro atom outcome e r₁ r₂ found first second
    have silent := sole.handlers _ _ _ found
    have before := tried found first
    have recorded := Run.adds_recordFailure sole.hooks index step e before.stepCount
    have announced := Run.adds_announceRetry sole.hooks index step
      (r₁.recordFailure ex.hooks index step e)
    have made := Task.adds_attempt (t := ⟨index, step, atom⟩) silent mode
      (Task.preparedOr ⟨index, step, atom⟩
        (Task.prepare ⟨index, step, atom⟩ (ex.enter index step r).context)
        ((r₁.recordFailure ex.hooks index step e).announceRetry ex.hooks index step).context)
      ((r₁.recordFailure ex.hooks index step e).announceRetry ex.hooks index step)
    unfold Task.second at second
    rw [second] at made
    exact ((before.trans recorded).trans announced).trans made
  cases passes with
  | unknown missing =>
    exact entered.trans (Run.adds_stopAt sole.hooks index step _ entered.stepCount)
  | completed found first =>
    exact (tried found first).trans (Run.adds_complete sole.hooks index step _ _)
  | stopped found first final =>
    have before := tried found first
    exact before.trans (Run.adds_stopAt sole.hooks index step _ before.stepCount)
  | skipped found first recoverable policy =>
    have before := tried found first
    exact before.trans (Run.adds_skipOver sole.hooks index step _ before.stepCount)
  | recovered found first recoverable policy second =>
    exact (again found first second).trans (Run.adds_complete sole.hooks index step _ _)
  | stoppedAgain found first recoverable policy second =>
    have before := again found first second
    exact before.trans (Run.adds_stopAt sole.hooks index step _ before.stepCount)

namespace Walks

variable {steps : List Step} {r r' : Run σ} {passages : List Passage}
  {result : Except PipelineError Unit}

/-- A walk counts the steps it comes to and records their failures. -/
theorem adds (sole : ex.SoleRecorder) (walks : ex.Walks mode index steps r passages result r') :
    Context.Adds passages.length (failures r.context.stepCount steps passages) r.context
      r'.context := by
  induction walks with
  | done => exact Context.adds_of_eq rfl rfl
  | stop passes failure =>
    simp only [failures, List.append_nil, List.length_singleton]
    exact passes.adds sole
  | next passes failure rest ih =>
    have first := passes.adds sole
    rw [first.stepCount] at ih
    rw [failures, List.length_cons, Nat.add_comm]
    exact first.trans ih

/-- Nothing failed exactly when no step met an error. -/
theorem failures_eq_nil_iff (walks : ex.Walks mode index steps r passages result r') (n : Nat) :
    failures n steps passages = [] ↔ ∀ passage ∈ passages, passage.errors = [] := by
  induction walks generalizing n with
  | done => simp only [failures, List.not_mem_nil, false_imp_iff, implies_true]
  | stop passes failure =>
    simp only [failures, Passage.failures, List.append_nil, List.map_eq_nil_iff,
      List.mem_singleton, forall_eq]
  | next passes failure rest ih =>
    simp only [failures, Passage.failures, List.append_eq_nil_iff, List.map_eq_nil_iff, ih,
      List.forall_mem_cons]

/-- The error of a walk is that of its last failure. -/
theorem getLast?_failures (walks : ex.Walks mode index steps r passages result r') (n : Nat)
    {e : PipelineError} (failed : result = .error e) :
    ∃ f, (failures n steps passages).getLast? = some f ∧ f.error = e := by
  induction walks generalizing n with
  | done => cases failed
  | @stop index step _ passage _ _ _ passes failure =>
    cases failed
    refine ⟨⟨e, step, n + 1⟩, ?_, rfl⟩
    simp only [failures, Passage.failures, List.append_nil, List.getLast?_map,
      Passage.getLast?_errors failure, Option.map_some]
  | next passes failure rest ih =>
    obtain ⟨f, last, same⟩ := ih (n + 1) failed
    refine ⟨f, ?_, same⟩
    rw [failures, List.getLast?_append, last, Option.some_or]

/-- A walk fails exactly when one of its steps ends the run. -/
theorem exists_failure_iff (walks : ex.Walks mode index steps r passages result r') :
    (∃ passage ∈ passages, passage.failure ≠ none) ↔ ∃ e, result = .error e := by
  induction walks with
  | done => simp only [List.not_mem_nil, false_and, exists_false, reduceCtorEq]
  | stop passes failure =>
    simp only [List.mem_singleton, exists_eq_left, failure, ne_eq, reduceCtorEq, not_false_eq_true,
      Except.error.injEq, exists_eq']
  | next passes failure rest ih =>
    simp only [List.mem_cons, exists_eq_or_imp, failure, ne_eq, not_true_eq_false, false_or] at ih ⊢
    exact ih

/-- How a run stands, by its steps, in a context that has errors if they met any. -/
theorem status_iff (walks : ex.Walks mode index steps r passages result r') {c : Context}
    (told : c.hasErrors = false ↔ ∀ passage ∈ passages, passage.errors = []) :
    (Status.ofOutcome result c = .completed ↔ ∀ passage ∈ passages, passage.errors = []) ∧
    (Status.ofOutcome result c = .completedWithErrors ↔
      (∃ passage ∈ passages, passage.errors ≠ []) ∧
        ∀ passage ∈ passages, passage.failure = none) ∧
    (Status.ofOutcome result c = .failed ↔ ∃ passage ∈ passages, passage.failure ≠ none) := by
  have ended := walks.exists_failure_iff
  cases result with
  | error e =>
    obtain ⟨passage, mem, failure⟩ := ended.mpr ⟨e, rfl⟩
    have met : ¬ ∀ passage ∈ passages, passage.errors = [] :=
      fun none => failure (Passage.failure_eq_none (none passage mem))
    simp only [Status.ofOutcome, reduceCtorEq, met, false_iff, true_iff, not_and, not_forall]
    exact ⟨trivial, fun _ => ⟨passage, mem, failure⟩, passage, mem, failure⟩
  | ok _ =>
    have none : ∀ passage ∈ passages, passage.failure = none := by
      intro passage mem
      by_contra failure
      obtain ⟨e, failed⟩ := ended.mp ⟨passage, mem, failure⟩
      cases failed
    have never : ¬ ∃ passage ∈ passages, passage.failure ≠ .none :=
      fun ⟨passage, mem, failure⟩ => failure (none passage mem)
    cases met : c.hasErrors with
    | false =>
      have all := told.mp met
      simp only [Status.ofOutcome, met, Bool.false_eq_true, if_false, reduceCtorEq, false_iff,
        true_iff, not_and]
      exact ⟨all, fun ⟨passage, mem, errors⟩ => absurd (all passage mem) errors, never⟩
    | true =>
      have some : ¬ ∀ passage ∈ passages, passage.errors = [] := by
        rw [← told, met]
        decide
      simp only [Status.ofOutcome, met, if_true, reduceCtorEq, false_iff, true_iff]
      refine ⟨some, ⟨?_, none⟩, never⟩
      simpa only [not_forall, exists_prop] using some

end Walks

/-- What a run of a pipeline has recorded when it ends: how its steps passed, what it added, and how
it stands. -/
structure Ledger (ex : Executor σ) (mode : Mode) (p : Pipeline) (r : Run σ)
    (passages : List Passage) (outcome : Except PipelineError Unit × Run σ) : Prop where
  walks : ∃ r', ex.Walks mode 0 p.steps (ex.start p r) passages outcome.1 r'
  adds : Context.Adds passages.length (failures r.context.stepCount p.steps passages) r.context
    outcome.2.context
  entered : outcome.1 = .ok () → passages.length = p.steps.length
  last : ∀ e, outcome.1 = .error e → ∃ f record, f.error = e ∧ f.Recorded record ∧
    (failures r.context.stepCount p.steps passages).getLast? = some f ∧
    outcome.2.context.errors.getLast? = some record
  completed : r.context.errors = [] →
    (Status.ofOutcome outcome.1 outcome.2.context = .completed ↔
      ∀ passage ∈ passages, passage.errors = [])
  completedWithErrors : r.context.errors = [] →
    (Status.ofOutcome outcome.1 outcome.2.context = .completedWithErrors ↔
      (∃ passage ∈ passages, passage.errors ≠ []) ∧ ∀ passage ∈ passages, passage.failure = none)
  failed : r.context.errors = [] →
    (Status.ofOutcome outcome.1 outcome.2.context = .failed ↔
      ∃ passage ∈ passages, passage.failure ≠ none)

theorem execute_ledger {ex : Executor σ} (sole : ex.SoleRecorder) (mode : Mode) (p : Pipeline)
    (r : Run σ) : ∃ passages, ex.Ledger mode p r passages (ex.execute mode p r) := by
  obtain ⟨passages, walks⟩ := ex.runSteps_walks mode 0 p.steps (ex.start p r)
  have begun : Context.Adds 0 [] r.context (ex.start p r).context := by
    have told : Context.Adds 0 [] (declare p r.context) (ex.start p r).context :=
      Run.adds_notify sole.hooks (.beforePipeline p)
        (Run.enter { r with context := declare p r.context } _)
    exact (Context.adds_declare p r.context).trans told
  have walked := walks.adds sole
  rw [begun.stepCount, Nat.add_zero] at walked
  have adds : Context.Adds passages.length (failures r.context.stepCount p.steps passages)
      r.context (ex.execute mode p r).2.context := by
    have told : Context.Adds 0 [] (ex.runSteps mode 0 p.steps (ex.start p r)).2.context
        (ex.execute mode p r).2.context :=
      Run.adds_notify sole.hooks (.afterPipeline p (ex.runSteps mode 0 p.steps (ex.start p r)).1) _
    simpa only [Nat.zero_add, Nat.add_zero, List.nil_append, List.append_nil] using
      (begun.trans walked).trans told
  have status := fun fresh => walks.status_iff
    ((adds.hasErrors_eq_false_iff fresh).trans (walks.failures_eq_nil_iff r.context.stepCount))
  refine ⟨passages, ⟨_, walks⟩, adds, fun ok => (walks.result_eq_ok_iff.mp ok).1, ?_,
    fun fresh => (status fresh).1, fun fresh => (status fresh).2.1, fun fresh => (status fresh).2.2⟩
  intro e failed
  obtain ⟨f, last, same⟩ := walks.getLast?_failures r.context.stepCount failed
  obtain ⟨record, there, recorded⟩ := adds.getLast?_errors last
  exact ⟨f, record, same, recorded, last, there⟩

/-- **Each failure is recorded.** Where only the run itself records errors and counts steps, a run of
a pipeline in either mode counts every step it enters once, and adds one record for each error that
a step meets, in order and no other: of a missing handler, and of each attempt that fails, also of a
step that is skipped or recovers. A run that fails has its error in the last record, one that
succeeds has entered every step, and from a context without errors the status tells whether no step
met an error, some did and none ended the run, or one ended it. A script is run as its pipeline is;
one that is not read leaves the context as it was. -/
theorem each_failure_is_recorded (ex : Executor σ) (sole : ex.SoleRecorder) (mode : Mode)
    (r : Run σ) :
    (∀ p, ∃ passages, ex.Ledger mode p r passages (ex.execute mode p r)) ∧
    ∀ text,
      let read := Script.read ex.unknownTypes text
      let begun := r.reportAll read.reports
      begun.context = r.context ∧
      match read.result with
      | .ok p => ∃ passages, ex.Ledger mode p begun passages (ex.executeText mode text r)
      | .error e => ex.executeText mode text r = (.error e, begun) := by
  refine ⟨fun p => execute_ledger sole mode p r, fun text => ⟨rfl, ?_⟩⟩
  cases read : (Script.read ex.unknownTypes text).result with
  | error e => simp only [executeText, read]
  | ok p =>
    simp only [executeText, read]
    exact execute_ledger sole mode p _

/-- An executor with two hooks and one handler, which fails every other time. -/
def faltering : Executor Nat where
  hooks := [.logging, .events]
  registry := [((.data, "load"),
    { info := {}
      handler :=
        { isAsync := false
          run := fun call =>
            { outcome := if call.state % 2 = 0 then .error ⟨"try again"⟩ else .ok none
              memory := call.memory
              notes := [.log "asked" .info]
              state := call.state + 1 } } })]

/-- One step that recovers, one that is skipped, one that completes, and one without a handler. -/
def stumbling : Pipeline where
  name := "stumbling"
  steps := [{ atom := ⟨.data, "load", []⟩, onError := .retry },
    { atom := ⟨.data, "load", []⟩, onError := .skip }, { atom := ⟨.data, "load", []⟩ },
    { atom := ⟨.report, "none", []⟩, onError := .skip }]

/-- The first step recovers with its second attempt, and the next is skipped; both failures are
recorded, under the steps that met them. The handler that is missing for the last step is recorded
although that step is to be skipped, and ends the run. -/
theorem stumbling_is_recorded :
    faltering.SoleRecorder ∧
    (∃ passages, faltering.Ledger .blocking stumbling ⟨{}, 0, []⟩ passages
      (faltering.execute .blocking stumbling ⟨{}, 0, []⟩)) ∧
    (faltering.execute .blocking stumbling ⟨{}, 0, []⟩).2.context.errors.map
        (fun record => (record.kind, record.step, record.stepIndex)) =
      [(.handler, "data.load()", 1), (.handler, "data.load()", 2),
        (.unknownAtom, "report.none()", 4)] := by
  have sole : faltering.SoleRecorder := by
    constructor
    · intro hook mem
      rcases List.mem_pair.mp mem with rfl | rfl
      · exact Hook.sparesRecords_ofLog _
      · exact Hook.sparesRecords_ofSignal _
    · intro type action atom found call message step mem
      cases List.mem_singleton.mp (Registry.mem_of_lookup found)
      cases List.mem_singleton.mp mem
  exact ⟨sole, (each_failure_is_recorded faltering sole .blocking _).1 stumbling, by decide⟩

end Executor

end Pipework
