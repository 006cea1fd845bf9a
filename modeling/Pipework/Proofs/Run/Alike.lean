import Pipework.Proofs.Run.Transparent

/-!
# Runs that are alike

Two runs of the same pipeline do not have one identifier and do not take place at one time. Neither
is seen by handlers, and a run does nothing with them but write them down. So where the hooks do not
make anything of them either, such runs are alike: aside from identifiers and times, everything that
one leaves the other leaves too.

How much of a context is compared is a `View` of it. Of journals only the calls are: the lines that
two runs report may differ even where their contexts are equal.
-/

namespace Pipework

variable {σ : Type}

namespace Context

/-- The context without its identifier, and without any time. -/
def anonymous (c : Context) : Context :=
  { c with
    id := .nil
    errors := c.errors.map ErrorRecord.timeless
    logs := c.logs.map LogEntry.timeless
    startedAt := ⟨0⟩
    now := ⟨0⟩ }

/-! ## Everything that is done to a context -/

/-- A log line is written alike, whatever the time. -/
theorem anonymous_log (c : Context) (message : String) (level : LogLevel) :
    (c.log message level).anonymous = c.anonymous.log message level := by
  simp only [log, anonymous, List.map_append]
  rfl

/-- An error is recorded alike, whatever the time. -/
theorem anonymous_recordError (c : Context) (message : String) (kind : ErrorKind)
    (step : Option String) :
    (c.recordError message kind step).anonymous = c.anonymous.recordError message kind step := by
  simp only [recordError, anonymous_log]
  simp only [anonymous, List.map_append]
  rfl

/-- A note of a handler is written down alike. -/
theorem anonymous_write (c : Context) (note : Note) :
    (c.write note).anonymous = c.anonymous.write note := by
  cases note with
  | log message level => exact c.anonymous_log message level
  | error message step => exact c.anonymous_recordError message .handler step

/-- What a handler leaves is taken over alike. -/
theorem anonymous_absorb (c : Context) (memory : Memory) (notes : List Note) :
    (c.absorb memory notes).anonymous = c.anonymous.absorb memory notes := by
  have written : ∀ c : Context,
      (notes.foldl write c).anonymous = notes.foldl write c.anonymous := by
    induction notes with
    | nil => exact fun _ => rfl
    | cons note notes ih =>
      intro c
      rw [List.foldl_cons, ih, anonymous_write]
      rfl
  exact written { c with toMemory := memory }

/-- Nothing that a run does to its context depends on the identifier or on a time. -/
theorem anonymous_edit {edit : Context → Context} (edits : Edit edit) (c : Context) :
    (edit c).anonymous = edit c.anonymous := by
  cases edits with
  | declare p =>
    simp only [Executor.declare_eq]
    rfl
  | enterStep => rfl
  | setData data => rfl
  | recordFailure e step => exact c.anonymous_recordError e.message e.kind (some step)

/-- A part of the context that runs change by itself, and that has all that handlers see. -/
structure View (view : Context → Context) : Prop where
  edit : ∀ edit c, Edit edit → view (edit c) = edit (view c)
  absorb : ∀ c memory notes, view (c.absorb memory notes) = (view c).absorb memory notes
  toMemory : ∀ c, (view c).toMemory = c.toMemory
  domain : ∀ c, (view c).domain = c.domain

/-- The context without identifier and times is a view. -/
theorem view_anonymous : View anonymous where
  edit _ c edits := anonymous_edit edits c
  absorb := anonymous_absorb
  toMemory _ := rfl
  domain _ := rfl

/-- The whole context is a view. -/
theorem view_self : View fun c => c where
  edit _ _ _ := rfl
  absorb _ _ _ := rfl
  toMemory _ := rfl
  domain _ := rfl

end Context

/-! ## Runs -/

/-- A hook that changes the view of a context by what the view shows. What it sends may tell of
everything. -/
def Hook.Blind (view : Context → Context) (hook : Hook σ) : Prop :=
  ∀ callback (c c' : Context) state, view c' = view c →
    view (hook.react callback c' state).context = view (hook.react callback c state).context ∧
      (hook.react callback c' state).state = (hook.react callback c state).state

/-- A hook that only sends signals changes nothing. -/
theorem Hook.blind_ofSignal (view : Context → Context)
    (send : Callback → Context → Option Signal) : (ofSignal send : Hook σ).Blind view :=
  fun _ _ _ _ same => ⟨same, rfl⟩

/-- The runs have come to the same, in this view of their contexts. -/
structure Run.Alike (view : Context → Context) (r r' : Run σ) : Prop where
  context : view r'.context = view r.context
  state : r'.state = r.state
  calls : r'.journal.calls = r.journal.calls

namespace Run.Alike

variable {view : Context → Context} {r r' : Run σ}

/-- A run is like itself. -/
theorem refl (view : Context → Context) (r : Run σ) : Alike view r r :=
  ⟨rfl, rfl, rfl⟩

/-- Runs that are like one run are alike. -/
theorem trans {r'' : Run σ} (first : Alike view r r') (second : Alike view r' r'') :
    Alike view r r'' :=
  ⟨second.context.trans first.context, second.state.trans first.state,
    second.calls.trans first.calls⟩

/-- Handlers see the same memory in runs that are alike. -/
theorem toMemory_eq (sees : Context.View view) (alike : Alike view r r') :
    r'.context.toMemory = r.context.toMemory := by
  rw [← sees.toMemory r'.context, alike.context, sees.toMemory]

/-- Handlers see the same domain in runs that are alike. -/
theorem domain_eq (sees : Context.View view) (alike : Alike view r r') :
    r'.context.domain = r.context.domain := by
  rw [← sees.domain r'.context, alike.context, sees.domain]

/-- The lines that are reported may differ. -/
theorem report (alike : Alike view r r') (level level' : LogLevel) (message message' : String) :
    Alike view (r.enter (.report level message)) (r'.enter (.report level' message')) :=
  ⟨alike.context, alike.state, by rw [calls_enter_report, calls_enter_report, alike.calls]⟩

/-- A blind hook does the same in both runs. -/
theorem tell {hook : Hook σ} (blind : hook.Blind view) (callback : Callback) (place : Nat)
    (alike : Alike view r r') :
    Alike view (r.tell callback (hook, place)) (r'.tell callback (hook, place)) := by
  obtain ⟨context, state⟩ := blind callback r.context r'.context r.state alike.context
  have calls := (calls_tell r' callback (hook, place)).trans
    (alike.calls.trans (calls_tell r callback (hook, place)).symm)
  refine ⟨?_, ?_, calls⟩
  · simpa only [Run.tell, alike.state] using context
  · simpa only [Run.tell, alike.state] using state

/-- The clock of a run may show any time. -/
theorem atTime (r : Run σ) (time : Instant) : Alike Context.anonymous r (r.atTime time) :=
  ⟨rfl, rfl, rfl⟩

end Run.Alike

/-- **Runs that are alike stay alike**, whatever the executor does, if its hooks are blind. -/
theorem Executor.follows_of_blind (ex : Executor σ) (mode : Mode) {view : Context → Context}
    (sees : Context.View view) (blind : ∀ hook ∈ ex.hooks, hook.Blind view) :
    Follows (Run.Alike view) mode mode ex ex where
  sameVars _ _ alike := congrArg Memory.vars (alike.toMemory_eq sees)
  edited edit r r' edits alike :=
    ⟨by rw [sees.edit _ _ edits, sees.edit _ _ edits, alike.context], alike.state, alike.calls⟩
  announced _ _ _ alike := alike.report _ _ _ _
  reported _ _ _ _ alike := alike.report _ _ _ _
  notified callback _ _ :=
    Run.notify_related fun hook mem place _ _ alike => alike.tell (blind hook mem) callback place
  found type action := by
    cases ex.registry.lookup type action with
    | none => exact .none
    | some atom =>
      refine .some ⟨rfl, fun index step params r r' alike => ?_⟩
      -- A handler sees the memory, the domain and its state, and they are the same.
      simp only [Task.invoke]
      split
      · exact ⟨rfl, alike⟩
      · rw [alike.toMemory_eq sees, alike.domain_eq sees, alike.state]
        refine ⟨rfl, ?_, rfl, ?_⟩
        · simp only [sees.absorb, alike.context]
        · rw [Journal.calls_append, Journal.calls_append, alike.calls]

end Pipework
