import Pipework.Proofs.Run.Data
import Pipework.Proofs.Run.Entries
import Pipework.Proofs.Run.Modes

/-!
# The provided hooks are transparent

The three provided hooks follow a run without taking part in it. They are handed the whole context
and could change it, and the handlers read and write that same context between any two of their
turns; but all they do to it is to write lines to its log, which no handler gets to see. So two runs
that differ in provided hooks only are the same run: the same result, the same calls, the same states
of the handlers and the same context, but for the log. Of the two logs nothing is said in general.
Where the one run has no hooks at all, its log is a part of the other.

Two runs do not take place at the same time. Times are read off the clock, and are left out of what is
compared.
-/

namespace Pipework

variable {σ : Type}

/-- One of the three hooks that are provided. -/
inductive Hook.Provided : Hook σ → Prop
  | logging : Provided .logging
  | tracing : Provided .tracing
  | events : Provided .events

/-- A provided hook never sets the data. -/
theorem Hook.Provided.quiet {hook : Hook σ} (provided : hook.Provided) : hook.Quiet := by
  cases provided with
  | logging => exact quiet_ofLog logLine
  | tracing => exact quiet_ofSignal _
  | events => exact quiet_ofSignal _

/-! ## What two runs have in common -/

def ErrorRecord.timeless (record : ErrorRecord) : ErrorRecord := { record with timestamp := ⟨0⟩ }

def LogEntry.timeless (line : LogEntry) : LogEntry := { line with timestamp := ⟨0⟩ }

namespace Context

/-- The context without its log, and without any time. -/
def unlogged (c : Context) : Context :=
  { c with
    errors := c.errors.map ErrorRecord.timeless
    logs := []
    startedAt := ⟨0⟩
    now := ⟨0⟩ }

/-- The lines of the log, without their times. -/
def lines (c : Context) : List LogEntry :=
  c.logs.map LogEntry.timeless

/-- The context with one more error record, of that time. -/
def withRecord (c : Context) (message : String) (kind : ErrorKind) (step : Option String)
    (time : Instant) : Context :=
  { c with errors := c.errors ++ [⟨message, kind, step.getD ("step_" ++ toString c.stepCount),
      c.stepCount, time⟩] }

/-- The context with another memory. -/
def withMemory (c : Context) (memory : Memory) : Context :=
  { c with toMemory := memory }

/-- Both contexts are the same, but for times and log lines. If the first is of a run without hooks,
its log lines are among those of the second, in order. -/
structure Agrees (alone : Prop) (c c' : Context) : Prop where
  unlogged : c'.unlogged = c.unlogged
  lines : alone → c.lines.Sublist c'.lines

namespace Agrees

variable {alone : Prop} {c c' : Context}

/-- The same number of steps has been entered. -/
theorem stepCount_eq (agrees : Agrees alone c c') : c'.stepCount = c.stepCount := by
  show c'.unlogged.stepCount = c.unlogged.stepCount
  rw [agrees.unlogged]

/-- Handlers see the same memory. -/
theorem toMemory_eq (agrees : Agrees alone c c') : c'.toMemory = c.toMemory := by
  show c'.unlogged.toMemory = c.unlogged.toMemory
  rw [agrees.unlogged]

/-- Handlers see the same domain. -/
theorem domain_eq (agrees : Agrees alone c c') : c'.domain = c.domain := by
  show c'.unlogged.domain = c.unlogged.domain
  rw [agrees.unlogged]

/-- The runs have one identifier. -/
theorem id_eq (agrees : Agrees alone c c') : c'.id = c.id := by
  show c'.unlogged.id = c.unlogged.id
  rw [agrees.unlogged]

/-- A change to the context that leaves its log alone and does not look at it. -/
theorem change (agrees : Agrees alone c c') {f g : Context → Context}
    (blind : ∀ c, (f c).unlogged = g c.unlogged) (silent : ∀ c, (f c).logs = c.logs) :
    Agrees alone (f c) (f c') := by
  refine ⟨?_, fun none => ?_⟩
  · rw [blind, blind, agrees.unlogged]
  · simp only [Context.lines, silent]
    exact agrees.lines none

/-- A line that both write. -/
theorem log (agrees : Agrees alone c c') (message : String) (level : LogLevel) :
    Agrees alone (c.log message level) (c'.log message level) := by
  refine ⟨agrees.unlogged, fun none => ?_⟩
  have line (c : Context) : (c.log message level).lines =
      c.lines ++ [⟨level, message, ⟨0⟩, c.stepCount⟩] := List.map_append
  rw [line, line, agrees.stepCount_eq]
  exact (agrees.lines none).append_right _

/-- A line that only the second writes. -/
theorem log_right (agrees : Agrees alone c c') (message : String) (level : LogLevel) :
    Agrees alone c (c'.log message level) := by
  refine ⟨agrees.unlogged, fun none => ?_⟩
  have line : (c'.log message level).lines =
      c'.lines ++ [⟨level, message, ⟨0⟩, c'.stepCount⟩] := List.map_append
  rw [line]
  exact (agrees.lines none).trans (List.sublist_append_left _ _)

/-- A line that only the first writes, which then has a hook. -/
theorem log_left (agrees : Agrees alone c c') (heard : ¬ alone) (message : String)
    (level : LogLevel) : Agrees alone (c.log message level) c' :=
  ⟨agrees.unlogged, fun none => absurd none heard⟩

/-- Both record the error, each at its time. -/
theorem recordError (agrees : Agrees alone c c') (message : String) (kind : ErrorKind)
    (step : Option String) :
    Agrees alone (c.recordError message kind step) (c'.recordError message kind step) := by
  unfold Context.recordError
  apply log
  apply agrees.change (f := fun c => c.withRecord message kind step c.now)
    (g := fun c => c.withRecord message kind step ⟨0⟩)
  · intro c
    simp only [withRecord, Context.unlogged, List.map_append]
    rfl
  · intro c
    rfl

/-- Both write a note down. -/
theorem write (agrees : Agrees alone c c') (note : Note) :
    Agrees alone (c.write note) (c'.write note) := by
  cases note with
  | log message level => exact agrees.log message level
  | error message step => exact agrees.recordError message .handler step

/-- Both take over what a handler leaves. -/
theorem absorb (agrees : Agrees alone c c') (memory : Memory) (notes : List Note) :
    Agrees alone (c.absorb memory notes) (c'.absorb memory notes) := by
  have written : ∀ (notes : List Note) (c c' : Context), Agrees alone c c' →
      Agrees alone (notes.foldl Context.write c) (notes.foldl Context.write c') := by
    intro notes
    induction notes with
    | nil => exact fun _ _ agrees => agrees
    | cons note notes ih => exact fun _ _ agrees => ih _ _ (agrees.write note)
  apply written
  exact agrees.change (f := (withMemory · memory)) (g := (withMemory · memory)) (fun _ => rfl)
    (fun _ => rfl)

/-- Whatever a run does to its context, it does to both. -/
theorem edit (agrees : Agrees alone c c') {edit : Context → Context} (edits : Edit edit) :
    Agrees alone (edit c) (edit c') := by
  cases edits with
  | declare p =>
    apply agrees.change (g := Executor.declare p)
    · intro c
      simp only [Executor.declare_eq]
      rfl
    · intro c
      rw [Executor.declare_eq]
  | enterStep => exact agrees.change (g := Context.enterStep) (fun _ => rfl) (fun _ => rfl)
  | setData data =>
    exact agrees.change (f := (setData · data)) (g := (setData · data)) (fun _ => rfl) (fun _ => rfl)
  | recordFailure e step => exact agrees.recordError e.message e.kind (some step)

end Agrees

end Context

/-! ## Runs that go hand in hand -/

namespace Run

/-- Both runs have come to the same, but for times and logs. -/
structure Agrees (alone : Prop) (r r' : Run σ) : Prop where
  context : r.context.Agrees alone r'.context
  state : r'.state = r.state
  calls : r'.journal.calls = r.journal.calls

namespace Agrees

variable {alone : Prop} {r r' : Run σ}

/-- The contexts may be changed if the new ones agree. -/
theorem change (agrees : Agrees alone r r') {c c' : Context} (contexts : c.Agrees alone c') :
    Agrees alone { r with context := c } { r' with context := c' } :=
  ⟨contexts, agrees.state, agrees.calls⟩

/-- Both report the line. -/
theorem report (agrees : Agrees alone r r') (level : LogLevel) (message : String) :
    Agrees alone (r.enter (.report level message)) (r'.enter (.report level message)) :=
  ⟨agrees.context, agrees.state, by rw [calls_enter_report, calls_enter_report, agrees.calls]⟩

/-- What a provided hook is told it may write to the log, and that is all it does. -/
theorem exists_tell {hook : Hook σ} (provided : hook.Provided) (callback : Callback) (place : Nat)
    (r : Run σ) : (r.tell callback (hook, place)).state = r.state ∧
      ((r.tell callback (hook, place)).context = r.context ∨
        ∃ message level, (r.tell callback (hook, place)).context = r.context.log message level) := by
  cases provided with
  | logging =>
    simp only [tell, Hook.logging, Hook.ofLog]
    cases Hook.logLine callback r.context with
    | none => exact ⟨rfl, .inl rfl⟩
    | some line => exact ⟨rfl, .inr ⟨line.1, line.2, rfl⟩⟩
  | tracing => exact ⟨rfl, .inl rfl⟩
  | events => exact ⟨rfl, .inl rfl⟩

/-- Provided hooks of the second run may be told something. -/
theorem notify_right (agrees : Agrees alone r r') {hooks : List (Hook σ)}
    (provided : ∀ hook ∈ hooks, hook.Provided) (callback : Callback) :
    Agrees alone r (r'.notify hooks callback) := by
  apply notify_preserves _ agrees
  intro hook mem place told agrees
  obtain ⟨state, context⟩ := exists_tell (provided hook mem) callback place told
  refine ⟨?_, state.trans agrees.state, (calls_tell told callback _).trans agrees.calls⟩
  rcases context with same | ⟨message, level, logged⟩
  · exact same ▸ agrees.context
  · exact logged ▸ agrees.context.log_right message level

/-- Provided hooks of the first run may be told something, if it has any. -/
theorem notify_left (agrees : Agrees alone r r') {hooks : List (Hook σ)} (heard : ¬ alone)
    (provided : ∀ hook ∈ hooks, hook.Provided) (callback : Callback) :
    Agrees alone (r.notify hooks callback) r' := by
  apply notify_preserves (P := fun told => Agrees alone told r') _ agrees
  intro hook mem place told agrees
  obtain ⟨state, context⟩ := exists_tell (provided hook mem) callback place told
  refine ⟨?_, agrees.state.trans state.symm, agrees.calls.trans (calls_tell told callback _).symm⟩
  rcases context with same | ⟨message, level, logged⟩
  · exact same ▸ agrees.context
  · exact logged ▸ agrees.context.log_left heard message level

end Agrees

/-- The run with the clock at another time. -/
def atTime (r : Run σ) (time : Instant) : Run σ :=
  { r with context := { r.context with now := time } }

end Run

namespace Executor

variable {hooks hooks' : List (Hook σ)}

/-- Executors that differ in provided hooks match. -/
theorem matches_of_provided (ex : Executor σ) (mode : Mode)
    (provided : ∀ hook ∈ hooks, hook.Provided) (provided' : ∀ hook ∈ hooks', hook.Provided) :
    Matches (Run.Agrees (hooks = [])) mode mode { ex with hooks } { ex with hooks := hooks' } where
  sameVars _ _ agrees := congrArg Memory.vars agrees.context.toMemory_eq
  sameId _ _ agrees := agrees.context.id_eq
  edited _ _ _ edits agrees := agrees.change (agrees.context.edit edits)
  reported level message _ _ agrees := agrees.report level message
  notified callback r r' agrees := by
    have told := agrees.notify_right provided' callback
    by_cases none : hooks = []
    · subst none
      exact told
    · exact told.notify_left none provided callback
  found type action := by
    show Option.Rel _ (ex.registry.lookup type action) (ex.registry.lookup type action)
    cases ex.registry.lookup type action with
    | none => exact .none
    | some atom =>
      refine .some ⟨rfl, fun index step params r r' agrees => ?_⟩
      -- The handler sees the memory, the domain and its state, and they are the same.
      simp only [Task.invoke]
      split
      · exact ⟨rfl, agrees⟩
      · rw [agrees.context.toMemory_eq, agrees.context.domain_eq, agrees.state]
        refine ⟨rfl, agrees.context.absorb _ _, rfl, ?_⟩
        rw [Journal.calls_append, Journal.calls_append, agrees.calls]

/-- **The provided hooks are transparent.** A pipeline or a script that is run with some of the
provided hooks, and run again with others at any other time, has the same result both times, calls the
same handlers with the same parameters and leaves them in the same states, and the contexts in which
the runs end are the same but for times and log lines. The log of a run without hooks is part of the
log of the other. -/
theorem provided_hooks_are_transparent (ex : Executor σ) (mode : Mode)
    (provided : ∀ hook ∈ hooks, hook.Provided) (provided' : ∀ hook ∈ hooks', hook.Provided)
    (r : Run σ) (time : Instant) :
    let ex₁ : Executor σ := { ex with hooks }
    let ex₂ : Executor σ := { ex with hooks := hooks' }
    (∀ p, Side (Run.Agrees (hooks = [])) (ex₁.execute mode p r)
      (ex₂.execute mode p (r.atTime time))) ∧
    ∀ text, Side (Run.Agrees (hooks = [])) (ex₁.executeText mode text r)
      (ex₂.executeText mode text (r.atTime time)) := by
  intro ex₁ ex₂
  have alike := ex.matches_of_provided mode provided provided'
  have began : Run.Agrees (hooks = []) r (r.atTime time) :=
    ⟨⟨rfl, fun _ => List.Sublist.refl _⟩, rfl, rfl⟩
  exact ⟨fun p => alike.execute p began, fun text => alike.executeText rfl text began⟩

/-- Provided hooks, one of them twice. -/
def followers : List (Hook Nat) := [.logging, .events, .logging, .tracing]

/-- Counting, through a failure and a second attempt, is the same for those who follow it. It writes
four lines to the log and each of the logging hooks five. -/
theorem counting_is_followed :
    (∀ hook ∈ ([] : List (Hook Nat)), hook.Provided) ∧ (∀ hook ∈ followers, hook.Provided) ∧
    let alone := { counting with hooks := [] }.execute .blocking countTwice ⟨{}, 0, []⟩
    let followed := { counting with hooks := followers }.execute .blocking countTwice
      (Run.atTime ⟨{}, 0, []⟩ ⟨1000000⟩)
    Side (Run.Agrees ([] = ([] : List (Hook Nat)))) alone followed ∧
    alone.2.context.lines.Sublist followed.2.context.lines ∧
    alone.2.context.lines.length = 4 ∧ followed.2.context.lines.length = 14 := by
  have none : ∀ hook ∈ ([] : List (Hook Nat)), hook.Provided := nofun
  have provided : ∀ hook ∈ followers, hook.Provided := by
    simp only [followers, List.forall_mem_cons]
    exact ⟨.logging, .events, .logging, .tracing, nofun⟩
  have both := (provided_hooks_are_transparent counting .blocking none provided ⟨{}, 0, []⟩
    ⟨1000000⟩).1 countTwice
  exact ⟨none, provided, both, both.2.context.lines rfl, rfl, rfl⟩

end Executor

end Pipework
