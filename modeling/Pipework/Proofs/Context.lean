import Mathlib.Data.List.NodupEquivFin
import Mathlib.Data.List.Pairwise
import Pipework.Context

/-!
# What a context writes down

The records and the log of a context tell of the same run: whatever is done to a context from its
beginning on, in whatever order, neither of the two names a step later than the last one entered, both
go on in the order of steps, and each record has an error line of its own in the log that repeats it.
Lines that were logged freely may look the same; the lines of the records are found among them in
order.

`Accounted` is the invariant. It is kept by each `Act`, mostly because an act leaves alone what it
does not write, and so by any sequence of them. A clone is a context at its beginning.
-/

namespace Pipework

/-- The entry repeats the record as an error line. -/
structure LogEntry.Repeats (entry : LogEntry) (record : ErrorRecord) : Prop where
  level : entry.level = .error
  message : entry.message = "ERROR: " ++ record.message
  step : entry.step = record.stepIndex

namespace Context

/-- A context at the beginning of a run, with the inputs of the run. -/
def beginning (memory : Memory) (id : Uuid) (domain user organization : Option String)
    (now : Instant) : Context :=
  { toMemory := memory, id, domain, user, organization, startedAt := now, now }

/-- What can be done to a context, by a run or by a handler. -/
inductive Act where
  | setVariable (name : String) (value : Json)
  | setMetadata (name : String) (value : Json)
  | setData (data : Json)
  | enterStep
  | log (message : String) (level : LogLevel)
  | recordError (message : String) (kind : ErrorKind) (step : Option String)
  /-- What a handler logs, or reports as an error. -/
  | write (note : Note)
  | recordFailure (error : PipelineError) (step : String)
  /-- The time is read. -/
  | readTime (now : Instant)

/-- The context after an act. -/
def perform (c : Context) : Act → Context
  | .setVariable name value => c.setVariable name value
  | .setMetadata name value => c.setMetadata name value
  | .setData data => c.setData data
  | .enterStep => c.enterStep
  | .log message level => c.log message level
  | .recordError message kind step => c.recordError message kind step
  | .write note => c.write note
  | .recordFailure error step => c.recordFailure error step
  | .readTime now => { c with now }

/-- The context after several acts. -/
def after (c : Context) (acts : List Act) : Context :=
  acts.foldl perform c

/-- Neither the records nor the log go back in steps, or beyond those that were entered. -/
structure InStep (c : Context) : Prop where
  records_ascend : c.errors.Pairwise fun r r' => r.stepIndex ≤ r'.stepIndex
  records_within : ∀ r ∈ c.errors, r.stepIndex ≤ c.stepCount
  lines_ascend : c.logs.Pairwise fun e e' => e.step ≤ e'.step
  lines_within : ∀ e ∈ c.logs, e.step ≤ c.stepCount

/-- Each record has an entry of its own in the log that repeats it, and these entries stand in the
order of the records. -/
def HasLines (c : Context) : Prop :=
  ∃ line : Fin c.errors.length ↪o Fin c.logs.length,
    ∀ i, (c.logs.get (line i)).Repeats (c.errors.get i)

/-- The log accounts for the records: among its entries are the lines of the records, in order. -/
structure Accounted (c : Context) : Prop extends InStep c where
  lines : ∃ lines, List.Forall₂ LogEntry.Repeats lines c.errors ∧ lines.Sublist c.logs

variable {c : Context}

theorem accounted_beginning (memory : Memory) (id : Uuid) (domain user organization : Option String)
    (now : Instant) : (beginning memory id domain user organization now).Accounted where
  records_ascend := .nil
  records_within := nofun
  lines_ascend := .nil
  lines_within := nofun
  lines := ⟨[], .nil, .slnil⟩

/-- What writes nothing and counts no step back keeps the account. -/
theorem Accounted.of_same {c' : Context} (accounted : c.Accounted) (errors : c'.errors = c.errors)
    (logs : c'.logs = c.logs) (count : c.stepCount ≤ c'.stepCount) : c'.Accounted where
  records_ascend := errors ▸ accounted.records_ascend
  records_within := errors ▸ fun r mem => Nat.le_trans (accounted.records_within r mem) count
  lines_ascend := logs ▸ accounted.lines_ascend
  lines_within := logs ▸ fun e mem => Nat.le_trans (accounted.lines_within e mem) count
  lines := errors ▸ logs ▸ accounted.lines

/-- What is written at the end ascends, if nothing before it is later. -/
theorem pairwise_concat {α : Type} {step : α → Nat} {as : List α} {a : α}
    (ascend : as.Pairwise fun b b' => step b ≤ step b') (last : ∀ b ∈ as, step b ≤ step a) :
    (as ++ [a]).Pairwise fun b b' => step b ≤ step b' := by
  refine List.pairwise_append.mpr ⟨ascend, List.pairwise_singleton _ _, fun b mem b' mem' => ?_⟩
  rw [List.mem_singleton.mp mem']
  exact last b mem

/-- A line more in the log repeats no record. -/
theorem Accounted.log (accounted : c.Accounted) (message : String) (level : LogLevel) :
    (c.log message level).Accounted where
  records_ascend := accounted.records_ascend
  records_within := accounted.records_within
  lines_ascend := pairwise_concat accounted.lines_ascend accounted.lines_within
  lines_within := by
    refine List.forall_mem_append.mpr ⟨accounted.lines_within, fun e mem => ?_⟩
    rw [List.mem_singleton.mp mem]
    exact Nat.le_refl _
  lines := by
    obtain ⟨lines, repeated, sub⟩ := accounted.lines
    exact ⟨lines, repeated, sub.trans (List.sublist_append_left _ _)⟩

/-- A record brings its own line. -/
theorem Accounted.recordError (accounted : c.Accounted) (message : String) (kind : ErrorKind)
    (step : Option String) : (c.recordError message kind step).Accounted where
  records_ascend := pairwise_concat accounted.records_ascend accounted.records_within
  records_within := by
    refine List.forall_mem_append.mpr ⟨accounted.records_within, fun r mem => ?_⟩
    rw [List.mem_singleton.mp mem]
    exact Nat.le_refl _
  lines_ascend := pairwise_concat accounted.lines_ascend accounted.lines_within
  lines_within := by
    refine List.forall_mem_append.mpr ⟨accounted.lines_within, fun e mem => ?_⟩
    rw [List.mem_singleton.mp mem]
    exact Nat.le_refl _
  lines := by
    obtain ⟨lines, repeated, sub⟩ := accounted.lines
    let line : LogEntry := ⟨.error, "ERROR: " ++ message, c.now, c.stepCount⟩
    refine ⟨lines ++ [line], List.rel_append repeated (.cons ?_ .nil), sub.append (.refl _)⟩
    exact ⟨rfl, rfl, rfl⟩

/-- Each act keeps the account. -/
theorem Accounted.perform (accounted : c.Accounted) (act : Act) : (c.perform act).Accounted := by
  cases act with
  | setVariable name value => exact accounted.of_same rfl rfl (Nat.le_refl _)
  | setMetadata name value => exact accounted.of_same rfl rfl (Nat.le_refl _)
  | setData data => exact accounted.of_same rfl rfl (Nat.le_refl _)
  | enterStep => exact accounted.of_same rfl rfl (Nat.le_succ _)
  | log message level => exact accounted.log message level
  | recordError message kind step => exact accounted.recordError message kind step
  | write note =>
    cases note with
    | log message level => exact accounted.log message level
    | error message step => exact accounted.recordError message .handler step
  | recordFailure error step => exact accounted.recordError error.message error.kind (some step)
  | readTime now => exact accounted.of_same rfl rfl (Nat.le_refl _)

/-- Acts keep the account. -/
theorem Accounted.after (accounted : c.Accounted) (acts : List Act) : (c.after acts).Accounted := by
  induction acts generalizing c with
  | nil => exact accounted
  | cons act acts ih => exact ih (accounted.perform act)

/-- Where the log accounts for the records, each has its line. -/
theorem Accounted.hasLines (accounted : c.Accounted) : c.HasLines := by
  obtain ⟨lines, repeated, sub⟩ := accounted.lines
  obtain ⟨place, same⟩ := List.sublist_iff_exists_fin_orderEmbedding_get_eq.mp sub
  obtain ⟨length, each⟩ := List.forall₂_iff_get.mp repeated
  refine ⟨(Fin.castOrderIso length.symm).toOrderEmbedding.trans place, fun i => ?_⟩
  have entry := each i (i.isLt.trans_eq length.symm) i.isLt
  rwa [same] at entry

/-- **Each record has its line.** From the beginning of a run on, whatever is done to a context in
whatever order, the steps that its records and its log name do not go back nor beyond the last one
entered, and each record has its own error line in the log, in order. A clone made at any point has
the inputs of the context and nothing else, and the same is true of it from there on. -/
theorem each_record_has_its_line (memory : Memory) (id : Uuid)
    (domain user organization : Option String) (now : Instant) (acts : List Act) :
    let c := (beginning memory id domain user organization now).after acts
    c.InStep ∧ c.HasLines ∧ ∀ id',
      let clone := c.cloneForRun id'
      clone.toMemory = c.toMemory ∧ clone.domain = c.domain ∧ clone.user = c.user ∧
        clone.organization = c.organization ∧
      clone.errors = [] ∧ clone.logs = [] ∧ clone.stepCount = 0 ∧
      ∀ acts', (clone.after acts').InStep ∧ (clone.after acts').HasLines := by
  intro c
  have accounted : c.Accounted := (accounted_beginning ..).after acts
  refine ⟨accounted.toInStep, accounted.hasLines, fun id' => ?_⟩
  refine ⟨rfl, rfl, rfl, rfl, rfl, rfl, rfl, fun acts' => ?_⟩
  -- A clone is a beginning with the inputs of the context.
  have again : ((c.cloneForRun id').after acts').Accounted := (accounted_beginning ..).after acts'
  exact ⟨again.toInStep, again.hasLines⟩

end Context

end Pipework
