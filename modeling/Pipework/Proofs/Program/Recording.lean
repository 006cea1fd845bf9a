import Pipework.Program.Perform
import Pipework.Proofs.History.Rows
import Pipework.Proofs.Program.Actions
import Pipework.Proofs.Run.Missing
import Pipework.Proofs.Run.Transparent
import Pipework.Proofs.Script.Reading

/-!
# What a command records

The command that runs a pipeline file saves its run in the history twice, under one identifier: as
running before it begins, and as it ended. Everything that can go wrong before goes wrong without a
trace in the history, and what goes wrong in the run does not keep the second summary from replacing
the first. So a history has one entry of the run when the command is over, and that entry is not of
a running one.

The command is followed action by action, by what each `Does`. That both summaries are of one run
rests on the executor, which gives a context back under the identifier it had.
-/

namespace Pipework

/-! ## A summary saved in a table -/

namespace Table

variable (table : Table) (run : RunSummary)

/-- Of two summaries of a run the one saved last is kept. -/
theorem save_save {first : RunSummary} (same : first.id = run.id) :
    (table.save first).save run = table.save run := by
  have ids : (Row.ofSummary first).id = (Row.ofSummary run).id := congrArg Uuid.text same
  simp only [save, insert, List.filter_cons, ids, ne_eq, not_true_eq_false, decide_false,
    Bool.false_eq_true, if_false, List.filter_filter, Bool.and_self]

/-- A table has one row of a run that is saved in it. -/
theorem filter_save : (table.save run).filter (·.id = run.id.text) = [.ofSummary run] := by
  have self : (Row.ofSummary run).id = run.id.text := rfl
  have none : (table.filter (·.id ≠ run.id.text)).filter (·.id = run.id.text) = [] := by
    simp only [List.filter_eq_nil_iff, List.mem_filter, decide_eq_true_eq]
    exact fun row ⟨_, other⟩ => other
  simp only [save, insert, List.filter_cons, self, decide_true, if_true]
  exact congrArg _ none

/-- The other rows stay as they are. -/
theorem filter_save_other :
    (table.save run).filter (·.id ≠ run.id.text) = table.filter (·.id ≠ run.id.text) := by
  have self : (Row.ofSummary run).id = run.id.text := rfl
  simp only [save, insert, List.filter_cons, self, ne_eq, not_true_eq_false, decide_false,
    Bool.false_eq_true, if_false, List.filter_filter, Bool.and_self]

/-- What is saved is loaded. -/
theorem load?_save : (table.save run).load? run.id = .ok (some run) := by
  have self : (Row.ofSummary run).id = run.id.text := rfl
  simp only [load?, save, insert, List.find?_cons, self, decide_true, Row.toSummary_ofSummary]
  rfl

end Table

/-! ## A run keeps its identifier -/

section

variable {σ : Type}

theorem Context.id_absorb (c : Context) (memory : Memory) (notes : List Note) :
    (c.absorb memory notes).id = c.id := by
  have written : ∀ (notes : List Note) (c : Context), (notes.foldl write c).id = c.id := by
    intro notes
    induction notes with
    | nil => exact fun _ => rfl
    | cons note notes ih =>
      intro c
      rw [List.foldl_cons, ih]
      cases note <;> rfl
  exact written notes _

/-- Nothing that a run does to its context changes its id. -/
theorem Context.id_edit {edit : Context → Context} (edits : Edit edit) (c : Context) :
    (edit c).id = c.id := by
  cases edits with
  | declare p => rw [Executor.declare_eq]
  | enterStep | setData | recordFailure => rfl

/-- The provided hooks write to the log and send signals, which changes no identifier. -/
theorem Run.id_notify {hooks : List (Hook σ)} (provided : ∀ hook ∈ hooks, hook.Provided)
    (callback : Callback) (r : Run σ) :
    (r.notify hooks callback).context.id = r.context.id := by
  apply notify_preserves (P := fun told => told.context.id = r.context.id) _ rfl
  intro hook mem place told same
  obtain ⟨-, kept | ⟨message, level, logged⟩⟩ :=
    Agrees.exists_tell (provided hook mem) callback place told
  · rw [kept, same]
  · rw [logged]
    exact same

/-- The context of a run has the same identifier from beginning to end. -/
theorem Executor.id_execute {ex : Executor σ} (provided : ∀ hook ∈ ex.hooks, hook.Provided)
    (mode : Mode) (p : Pipeline) (r : Run σ) :
    (ex.execute mode p r).2.context.id = r.context.id := by
  -- A run goes hand in hand with itself, and the identifier stays what it was.
  have follows : Follows (fun s s' : Run σ => s' = s ∧ s.context.id = r.context.id) mode mode ex ex :=
    { sameVars := by
        rintro s _ ⟨rfl, -⟩
        rfl
      edited := by
        rintro edit s _ edits ⟨rfl, same⟩
        exact ⟨rfl, (Context.id_edit edits _).trans same⟩
      announced := by
        rintro p s _ ⟨rfl, same⟩
        exact ⟨rfl, same⟩
      reported := by
        rintro level message s _ ⟨rfl, same⟩
        exact ⟨rfl, same⟩
      notified := by
        rintro callback s _ ⟨rfl, same⟩
        exact ⟨rfl, (Run.id_notify provided callback _).trans same⟩
      found := by
        intro type action
        cases ex.registry.lookup type action with
        | none => exact .none
        | some atom =>
          refine .some ⟨rfl, ?_⟩
          rintro index step params s _ ⟨rfl, same⟩
          refine ⟨rfl, rfl, ?_⟩
          simp only [Task.invoke]
          split
          · exact same
          · exact (Context.id_absorb _ _ _).trans same }
  exact (follows.execute p ⟨rfl, rfl⟩).2.2

end

/-! ## What a command finds -/

/-- The pipeline of a file, if it loads. -/
def Host.pipeline? (host : Host) (unknown : Script.UnknownTypes) (path : String) : Option Pipeline :=
  (host.file path).toOption.bind fun text =>
    (Pipeline.read (.ofPath path) unknown text).result.toOption

/-- The settings of the file at a path, or the defaults. -/
def Host.config? (host : Host) : Option String → Option Config
  | none => some {}
  | some path => (host.file path).toOption.bind fun text => (Config.ofYamlText text).toOption

/-- The context that a run begins with, if the data given for it are JSON. -/
def Setup.context? (setup : Setup) (host : Host) : Option Context :=
  let c : Context := { id := host.id, startedAt := host.now, now := host.now, domain := setup.domain }
  match setup.data with
  | none => some c
  | some text => (Json.parse text).toOption.map c.setData

/-- How the run of a pipeline ends that a command makes. -/
def Config.outcome (config : Config) (verbose : Bool) (p : Pipeline) (c : Context) :
    Except PipelineError Unit × Run Unit :=
  (Action.executorOf config verbose).execute .waiting p { context := c, state := () }

/-- The summary of a run that has ended. -/
def Config.ended (config : Config) (verbose : Bool) (p : Pipeline) (c : Context) : RunSummary :=
  let (result, r) := config.outcome verbose p c
  .ofContext p r.context (.ofOutcome result r.context)

namespace Action

variable {host : Host} {stores : Stores}

/-- Reading a file touches no history. -/
theorem does_readFile (what path : String) :
    Does host stores (readFile what path) (host.file path).toOption stores :=
  does_read.bind (does_orFail _ _)

/-- Neither does loading a pipeline. -/
theorem does_loadPipeline (unknown : Script.UnknownTypes) (path : String) :
    Does host stores (loadPipeline unknown path) (host.pipeline? unknown path) stores := by
  have text : Does host stores (readFile "pipeline" path) _ stores := does_readFile _ _
  unfold loadPipeline Host.pipeline?
  cases read : (host.file path).toOption with
  | none =>
    rw [read] at text
    exact text.stop
  | some text' =>
    rw [read] at text
    exact text.bind ((does_report _).bind (does_orFail _ _))

theorem does_loadConfig (path : Option String) :
    Does host stores (loadConfig path) (host.config? path) stores := by
  cases path with
  | none => exact does_pure _
  | some path =>
    have text : Does host stores (readFile "config" path) _ stores := does_readFile _ _
    unfold loadConfig Host.config?
    cases read : (host.file path).toOption with
    | none =>
      simp only [read] at text ⊢
      exact text.stop
    | some text' =>
      simp only [read] at text ⊢
      exact text.bind (does_orFail _ _)

theorem does_applyOverrides (p : Pipeline) (overrides : List Assignment) (talk : Bool) :
    Does host stores (applyOverrides p overrides talk) (some (p.override overrides)) stores := by
  unfold applyOverrides
  cases talk with
  | false => exact does_pure _
  | true =>
    have said (a : Assignment) : Does host stores
        (do
          note .info ("Variable override: " ++ (← styled .cyan a.name) ++ " = " ++
            (← styled .dim a.value))
          pure (ForInStep.yield PUnit.unit)) (some (.yield ⟨⟩)) stores :=
      (does_styled _ _).bind ((does_styled _ _).bind ((does_note _ _).bind (does_pure _)))
    exact (does_forIn said overrides).bind (does_pure _)

theorem does_newContext (setup : Setup) :
    Does host stores (newContext setup) (setup.context? host) stores := by
  unfold newContext Setup.context?
  apply does_read.bind
  cases setup.data with
  | none => exact does_pure _
  | some text =>
    have data : Does host stores (dataOf text) (Json.parse text).toOption stores := does_orFail _ _
    cases parsed : (Json.parse text).toOption with
    | none =>
      simp only [parsed] at data ⊢
      exact data.stop
    | some value =>
      simp only [parsed] at data ⊢
      exact data.bind (does_pure _)

theorem does_showOutcome (status : Status) (c : Context) (verbose json : Bool) :
    Does host stores (showOutcome status c verbose json) (some ()) stores := by
  unfold showOutcome
  cases json with
  | true => exact does_say _
  | false =>
    apply does_read.bind
    apply (does_say _).bind
    apply (does_say _).bind
    cases verbose with
    | false => exact does_pure _
    | true =>
      apply (does_say _).bind
      have line (entry : LogEntry) : Does host stores
          (do
            say (host.display.logLine entry)
            pure (ForInStep.yield PUnit.unit)) (some (.yield ⟨⟩)) stores :=
        (does_say _).bind (does_pure _)
      exact (does_forIn line c.logs).bind (does_pure _)

/-- Running a pipeline gives the summary of its last context and saves nothing itself. -/
theorem does_runPipeline (p : Pipeline) (c : Context) (config : Config) (verbose json : Bool) :
    Does host stores (runPipeline p c config verbose json) (some (config.ended verbose p c))
      stores := by
  unfold runPipeline Config.ended Config.outcome
  rcases (executorOf config verbose).execute .waiting p { context := c, state := () } with
    ⟨result, r⟩
  have shown (json : Bool) : Does host stores
      (do
        showOutcome (.ofOutcome result r.context) r.context verbose json
        return RunSummary.ofContext p r.context (.ofOutcome result r.context))
      (some (.ofContext p r.context (.ofOutcome result r.context))) stores :=
    (does_showOutcome _ _ _ _).bind (does_pure _)
  have progress (lines : List String) : Does host stores
      (modify fun s : Session => { s with progress := s.progress ++ lines } : Action Unit)
      (some ()) stores :=
    fun _ here => ⟨rfl, here⟩
  apply does_read.bind
  apply (does_report _).bind
  apply (progress _).bind
  cases result with
  | error e => exact (does_report _).bind (shown json)
  | ok => exact shown json

theorem does_finishRun (run : RunSummary) (talk : Bool) :
    Does host stores (finishRun run talk) (if run.status.isSuccess then some () else none)
      stores := by
  have told (name text : String) (symbol : Symbol) : Does host stores
      (if talk then say ("\n" ++ symbol.text ++ " " ++ name ++ " " ++ text) else pure ())
      (some ()) stores := by
    cases talk with
    | false => exact does_pure _
    | true => exact does_say _
  unfold finishRun
  apply (does_styled _ _).bind
  cases run.status with
  | completed => exact (does_styled _ _).bind (told _ _ _)
  | completedWithErrors => exact (does_styled _ _).bind (told _ _ _)
  | failed => exact (does_styled _ _).bind ((told _ _ _).bind (does_throw _))
  | running => exact (does_styled _ _).bind ((told _ _ _).bind (does_throw _))

/-! ## The command -/

/-- What is left of the command when the history is open, if it is wanted. -/
def conclude (path : Option String) (p : Pipeline) (c : Context) (config : Config)
    (verbose json : Bool) : Action Unit := do
  saveRun path (.ofContext p c .running)
  let run ← runPipeline p c config verbose json
  saveRun path run
  if path.isSome && !json then
    note .info ("Run saved to history (ID: " ++ (← styled .dim run.id.short) ++ ")")
  finishRun run (!json)

/-- What is left of it when the pipeline and the context are there. -/
def recordOf (p : Pipeline) (c : Context) (record : Bool) (config : Config)
    (verbose json : Bool) : Action Unit := do
  let path ← if record && config.history then some <$> openHistory config else pure none
  conclude path p c config verbose json

variable {p : Pipeline} {c : Context} {config : Config} {verbose json : Bool}

/-- A recorded run saves two summaries: one before it begins and one when it has ended. -/
theorem does_conclude_recording (path : String) :
    Does host stores (conclude (some path) p c config verbose json)
      (if (config.ended verbose p c).status.isSuccess then some () else none)
      ((stores.save path (.ofContext p c .running)).save path (config.ended verbose p c)) := by
  apply (does_saveRun _ _).bind
  apply (does_runPipeline _ _ _ _ _).bind
  apply (does_saveRun _ _).bind
  cases json with
  | true => exact does_finishRun _ _
  | false => exact (does_styled _ _).bind ((does_note _ _).bind (does_finishRun _ _))

theorem does_conclude :
    Does host stores (conclude none p c config verbose json)
      (if (config.ended verbose p c).status.isSuccess then some () else none) stores := by
  apply (does_saveRun_none _).bind
  apply (does_runPipeline _ _ _ _ _).bind
  apply (does_saveRun_none _).bind
  exact does_finishRun _ _

/-- A run that is not to be recorded leaves the histories alone. -/
theorem does_recordOf_unwanted {record : Bool} (unwanted : (record && config.history) = false) :
    Does host stores (recordOf p c record config verbose json)
      (if (config.ended verbose p c).status.isSuccess then some () else none) stores := by
  unfold recordOf
  rw [unwanted]
  exact (does_pure none).bind does_conclude

/-- A run that is to be recorded is saved twice in the history that is opened for it. -/
theorem does_recordOf {record : Bool} {path : String} (wanted : (record && config.history) = true)
    (named : config.historyPath.getD host.historyPath = path) (free : host.locked path = none) :
    Does host stores (recordOf p c record config verbose json)
      (if (config.ended verbose p c).status.isSuccess then some () else none)
      (((stores.opened path).save path (.ofContext p c .running)).save path
        (config.ended verbose p c)) := by
  unfold recordOf
  rw [wanted]
  exact ((does_openHistory named free).map some).bind (does_conclude_recording path)

theorem does_loading {file : String} {found : Option Pipeline}
    (loads : host.pipeline? config.unknownTypes file = found) :
    Does host stores (context "Failed to load pipeline" (loadPipeline config.unknownTypes file))
      found stores := by
  rw [← loads]
  exact (does_loadPipeline _ _).context _

/-- A command whose pipeline has loaded goes on with its context. -/
theorem does_runFile_of_loads {file : String} {setup : Setup} {record : Bool}
    {given : Option Unit} {after : Stores}
    (loads : host.pipeline? config.unknownTypes file = some p)
    (rest : Does host stores
      (newContext setup >>= fun c =>
        recordOf (p.override setup.overrides) c record config verbose setup.json) given after) :
    Does host stores (runFile file setup record config verbose) given after := by
  have overridden (talk : Bool) : Does host stores
      (applyOverrides p setup.overrides talk >>= fun p => newContext setup >>= fun c =>
        recordOf p c record config verbose setup.json) given after :=
    (does_applyOverrides p setup.overrides talk).bind rest
  unfold runFile
  apply (does_loading loads).bind
  cases quiet : setup.json <;> rw [quiet] at overridden
  · exact (does_styled _ _).bind ((does_note _ _).bind (overridden true))
  · exact overridden false

/-- A command that has its context as well goes on to record and to run. -/
theorem does_runFile_of_begins {file : String} {setup : Setup} {record : Bool}
    {given : Option Unit} {after : Stores}
    (loads : host.pipeline? config.unknownTypes file = some p)
    (begins : setup.context? host = some c)
    (rest : Does host stores
      (recordOf (p.override setup.overrides) c record config verbose setup.json) given after) :
    Does host stores (runFile file setup record config verbose) given after := by
  have began : Does host stores (newContext setup) _ stores := does_newContext setup
  rw [begins] at began
  exact does_runFile_of_loads loads (began.bind rest)

/-- Without a pipeline or a context the command stops, and leaves the histories alone. -/
theorem does_runFile_of_lacking {file : String} {setup : Setup} {record : Bool}
    (lacking : host.pipeline? config.unknownTypes file = none ∨ setup.context? host = none) :
    Does host stores (runFile file setup record config verbose) none stores := by
  cases loads : host.pipeline? config.unknownTypes file with
  | none => exact (does_loading loads).stop
  | some p =>
    have noContext := lacking.resolve_left (by rw [loads]; exact nofun)
    have began : Does host stores (newContext setup) _ stores := does_newContext setup
    rw [noContext] at began
    exact does_runFile_of_loads loads began.stop

end Action

/-! ## What a run leaves in the history -/

/-- The hooks of the program are those that are provided. -/
theorem Config.provided_hooks (config : Config) (verbose : Bool) :
    ∀ hook ∈ (Action.executorOf config verbose).hooks, hook.Provided := by
  have logging : ∀ hook ∈ (config.executor (σ := Unit) Builtin.registry).hooks, hook.Provided := by
    intro hook mem
    simp only [Config.executor] at mem
    split at mem
    · exact List.mem_singleton.mp mem ▸ .logging
    · cases mem
  have events : ∀ hook ∈ ((config.executor (σ := Unit) Builtin.registry).withHook .events).hooks,
      hook.Provided := by
    intro hook mem
    rcases List.mem_append.mp mem with mem | mem
    · exact logging hook mem
    · exact List.mem_singleton.mp mem ▸ .events
  intro hook mem
  cases verbose with
  | false => exact events hook mem
  | true =>
    rcases List.mem_append.mp mem with mem | mem
    · exact events hook mem
    · exact List.mem_singleton.mp mem ▸ .tracing

/-- In the runs of a command nothing sets the data of a step that fails: the hooks are quiet, and a
built-in handler hands back the memory that it was given. -/
theorem Config.keeps (config : Config) (verbose : Bool) :
    (Action.executorOf config verbose).Keeps where
  hooks hook mem := (config.provided_hooks verbose hook mem).quiet
  handlers type action atom found := by
    have builtin : (Action.executorOf config verbose).registry = Builtin.registry := by
      cases verbose <;> rfl
    obtain ⟨note, compute, computes⟩ := Builtin.exists_notedHandler (builtin ▸ found)
    rw [computes]
    exact fun _ _ _ => rfl

/-- **The data that a command ends with.** Whatever fails in its run, and under whichever policy, the
run leaves the data of the last step that completed, or those that it began with. -/
theorem Config.lastCompleted (config : Config) (verbose : Bool) (p : Pipeline) (c : Context) :
    let ex := Action.executorOf config verbose
    let started := ex.start p { context := c, state := () }
    let done := config.outcome verbose p c
    ∃ passages last, ex.Walks .waiting 0 p.steps started passages done.1 last ∧
      ex.LastCompleted .waiting 0 p.steps started passages done.2.context.data :=
  (config.keeps verbose).execute .waiting p { context := c, state := () }

theorem Config.id_ended (config : Config) (verbose : Bool) (p : Pipeline) (c : Context) :
    (config.ended verbose p c).id = c.id :=
  Executor.id_execute (config.provided_hooks verbose) .waiting p { context := c, state := () }

/-- A run that has come to an outcome is not running. -/
theorem Status.ofOutcome_ne_running (result : Except PipelineError Unit) (c : Context) :
    ofOutcome result c ≠ .running := by
  cases result with
  | error e => exact nofun
  | ok =>
    simp only [ofOutcome]
    split <;> exact nofun

/-- A new context is that of the host's next run, and nothing has happened in it. -/
theorem Setup.fresh_context {setup : Setup} {host : Host} {c : Context}
    (begins : setup.context? host = some c) : c.id = host.id ∧ c.stepCount = 0 ∧ c.errors = [] := by
  unfold Setup.context? at begins
  cases data : setup.data with
  | none =>
    simp only [data, Option.some.injEq] at begins
    subst begins
    exact ⟨rfl, rfl, rfl⟩
  | some text =>
    simp only [data, Option.map_eq_some_iff] at begins
    obtain ⟨value, -, rfl⟩ := begins
    exact ⟨rfl, rfl, rfl⟩

namespace Invocation

variable {v : Invocation} {host : Host} {histories : List (String × Table)}

/-- What a command does is seen in what comes of it. -/
theorem perform_does {given : Option Unit} {after : Stores}
    (does : Action.Does host ⟨histories, []⟩ v.action given after) :
    (v.perform host histories).session.stores = after ∧
      (v.perform host histories).exitStatus = if given.isSome then 0 else 1 := by
  have done := does { histories } rfl
  have same : v.perform host histories =
      match v.action.outcome host { histories } with
      | (.ok (), session) => { session, stop := none }
      | (.error stop, session) => { session, stop := some stop } := rfl
  rw [same]
  rcases ran : v.action.outcome host { histories } with ⟨stop | ⟨⟩, session⟩ <;>
    rw [ran] at done <;> obtain ⟨rfl, leaves⟩ := done <;> exact ⟨leaves, rfl⟩

/-- With its settings, a command to run a file does what `runFile` does. -/
theorem does_action {file : String} {setup : Setup} {record : Bool} {config : Config}
    (command : v.command = .run file setup record)
    (settings : host.config? v.config = some config) {stores : Stores} {given : Option Unit}
    {after : Stores}
    (does : Action.Does host stores (Action.runFile file setup record config v.verbose) given
      after) : Action.Does host stores v.action given after := by
  have configured : Action.Does host stores (Action.loadConfig v.config) _ stores :=
    Action.does_loadConfig v.config
  rw [settings] at configured
  unfold action
  rw [command]
  exact configured.bind does

end Invocation

/-- The history at a path when a command is over. -/
def Performance.history (done : Performance) (path : String) : Table :=
  done.session.stores.history path

/-- The command has recorded a run that came to this outcome in a history that was this before: as
running, and then as it ended. -/
structure Performance.Records (done : Performance) (host : Host) (path : String) (before : Table)
    (outcome : Except PipelineError Unit × Run Unit) (first last : RunSummary) : Prop where
  saves : done.session.saves = [(path, first), (path, last)]
  ids : first.id = host.id ∧ last.id = host.id
  running : first.status = .running ∧ first.completedAt = none ∧ first.steps = 0 ∧ first.errors = 0
  status : last.status = .ofOutcome outcome.1 outcome.2.context ∧ last.status ≠ .running
  completed : last.completedAt.isSome
  counts : last.steps = UInt64.ofNat outcome.2.context.stepCount ∧
    last.errors = UInt64.ofNat outcome.2.context.errors.length
  /-- Of the run the history has one entry, and that is the summary saved last. -/
  entry : (done.history path).filter (·.id = host.id.text) = [.ofSummary last]
  loaded : (done.history path).load? host.id = .ok (some last)
  others : (done.history path).filter (·.id ≠ host.id.text) = before
  exit : done.exitStatus = if last.status.isSuccess then 0 else 1

/-- Saving both summaries of a run, in a history that has none of it, records the run. -/
theorem Performance.records_of_saved {done : Performance} {host : Host} {path : String}
    {opened : Stores} {p : Pipeline} {c : Context} {config : Config} {verbose : Bool}
    (begun : c.id = host.id ∧ c.stepCount = 0 ∧ c.errors = [])
    (fresh : ∀ row ∈ opened.history path, row.id ≠ host.id.text) (unsaved : opened.saves = [])
    (stores : done.session.stores =
      (opened.save path (.ofContext p c .running)).save path (config.ended verbose p c))
    (exit : done.exitStatus = if (config.ended verbose p c).status.isSuccess then 0 else 1) :
    done.Records host path (opened.history path) (config.outcome verbose p c)
      (.ofContext p c .running) (config.ended verbose p c) := by
  obtain ⟨id, steps, errors⟩ := begun
  have ended : (config.ended verbose p c).id = host.id := (config.id_ended verbose p c).trans id
  have table : done.history path = (opened.history path).save (config.ended verbose p c) := by
    rw [Performance.history, stores, Stores.history_save, Stores.history_save, Table.save_save]
    exact (config.id_ended verbose p c).symm
  have notRunning : (config.ended verbose p c).status ≠ .running := Status.ofOutcome_ne_running _ _
  exact {
    saves := by
      have saves : done.session.saves = _ := congrArg Stores.saves stores
      simpa only [Stores.save, unsaved, List.nil_append, List.singleton_append] using saves
    ids := ⟨id, ended⟩
    running := by
      refine ⟨rfl, rfl, ?_, ?_⟩
      · exact congrArg UInt64.ofNat steps
      · exact congrArg (fun errors => UInt64.ofNat errors.length) errors
    status := ⟨rfl, notRunning⟩
    completed := by
      show (if (config.ended verbose p c).status = .running then none else some _).isSome = true
      rw [if_neg notRunning]
      rfl
    counts := ⟨rfl, rfl⟩
    entry := by
      rw [table, ← ended]
      exact Table.filter_save _ _
    loaded := by
      rw [table, ← ended]
      exact Table.load?_save _ _
    others := by
      rw [table, ← ended, Table.filter_save_other]
      apply List.filter_eq_self.mpr
      intro row mem
      rw [ended]
      exact decide_eq_true (fresh row mem)
    exit := exit }

/-- **A command to run a file leaves one entry of its run.** If the pipeline does not load or the data
are not JSON, the histories are as they were, and so they are if the run is not to be recorded. A run
that is recorded is saved twice, and whatever came of it, the history then has the second summary and
otherwise what it had before. -/
theorem run_command_leaves_one_entry (v : Invocation) (host : Host)
    (histories : List (String × Table)) {file : String} {setup : Setup} {record : Bool}
    {config : Config} (command : v.command = .run file setup record)
    (settings : host.config? v.config = some config) :
    let done := v.perform host histories
    let path := config.historyPath.getD host.historyPath
    let before := if path.isEmpty then [] else (histories.lookup path).getD []
    (host.pipeline? config.unknownTypes file = none ∨ setup.context? host = none →
      done.session.histories = histories ∧ done.session.saves = [] ∧ done.exitStatus = 1) ∧
    ∀ p c, host.pipeline? config.unknownTypes file = some p → setup.context? host = some c →
      ((record && config.history) = false →
        done.session.histories = histories ∧ done.session.saves = []) ∧
      ((record && config.history) = true → host.locked path = none →
        (∀ row ∈ before, row.id ≠ host.id.text) →
        let q := p.override setup.overrides
        done.Records host path before (config.outcome v.verbose q c) (.ofContext q c .running)
            (config.ended v.verbose q c) ∧
          ∀ other ≠ path, done.history other = (histories.lookup other).getD []) := by
  intro done path before
  have does {given : Option Unit} {after : Stores}
      (runs : Action.Does host ⟨histories, []⟩
        (Action.runFile file setup record config v.verbose) given after) :
      done.session.stores = after ∧ done.exitStatus = if given.isSome then 0 else 1 :=
    Invocation.perform_does (Invocation.does_action command settings runs)
  refine ⟨fun lacking => ?_, fun p c loads begins =>
    ⟨fun unwanted => ?_, fun wanted free fresh => ?_⟩⟩
  · obtain ⟨stores, exit⟩ := does (Action.does_runFile_of_lacking lacking)
    exact ⟨congrArg Stores.histories stores, congrArg Stores.saves stores, exit⟩
  · obtain ⟨stores, -⟩ := does
      (Action.does_runFile_of_begins loads begins (Action.does_recordOf_unwanted unwanted))
    exact ⟨congrArg Stores.histories stores, congrArg Stores.saves stores⟩
  · obtain ⟨stores, exit⟩ := does
      (Action.does_runFile_of_begins loads begins (Action.does_recordOf wanted rfl free))
    have there : (Stores.opened ⟨histories, []⟩ path).history path = before :=
      Stores.history_opened _ _
    have unsaved : (Stores.opened ⟨histories, []⟩ path).saves = [] := Stores.saves_opened _ _
    refine ⟨?_, fun other apart => ?_⟩
    · rw [← there] at fresh ⊢
      refine Performance.records_of_saved (Setup.fresh_context begins) fresh unsaved stores ?_
      rw [exit]
      split <;> rfl
    · rw [Performance.history, stores, Stores.history_save_other _ _ apart,
        Stores.history_save_other _ _ apart, Stores.history_opened_other _ apart]
      rfl

/-- Surroundings in which every file has a script that calls no atom there is. -/
def Host.unserved : Host where
  file _ := .ok "data.nope()"
  input := .ok ""
  historyPath := "runs"
  id := ⟨7⟩
  now := ⟨5⟩
  display := ⟨false⟩

/-- The pipeline of that script. -/
def Pipeline.unserved : Pipeline where
  name := Pipeline.defaultName
  steps := [{ atom := ⟨.data, "nope", []⟩ }]

/-- An entry of another run. -/
def Row.earlier : Row :=
  .ofSummary { id := ⟨2⟩, pipeline := "sales", status := .running, startedAt := ⟨1⟩, steps := 0
               errors := 0 }

/-- Running that script fails at its first step. The run is recorded as failed, and the entry of the
other run stays. -/
theorem failing_run_is_recorded :
    let v : Invocation := { command := .run "nightly.pipe" {} true }
    let c : Context := { id := ⟨7⟩, startedAt := ⟨5⟩, now := ⟨5⟩ }
    let done := v.perform .unserved [("runs", [.earlier])]
    let last := Config.ended {} false .unserved c
    Host.unserved.config? none = some {} ∧
    Host.unserved.pipeline? (.substitute .data) "nightly.pipe" = some .unserved ∧
    Setup.context? {} Host.unserved = some c ∧ Host.unserved.locked "runs" = none ∧
    Row.earlier.id ≠ Host.unserved.id.text ∧
    done.Records .unserved "runs" [.earlier] (Config.outcome {} false .unserved c)
      (.ofContext .unserved c .running) last ∧
    last.status = .failed ∧ last.steps = 1 ∧ last.errors = 1 ∧ done.exitStatus = 1 := by
  intro v c done last
  have loads : Host.unserved.pipeline? (.substitute .data) "nightly.pipe" = some .unserved := by
    have scanned : Script.tokenize "data.nope()" = .ok
        [⟨.word "data", .start⟩, ⟨.mark .dot, ⟨4, 1, 5⟩⟩, ⟨.word "nope", ⟨5, 1, 6⟩⟩,
          ⟨.mark .leftParen, ⟨9, 1, 10⟩⟩, ⟨.mark .rightParen, ⟨10, 1, 11⟩⟩, ⟨.finish, ⟨11, 1, 12⟩⟩] := by
      decide +kernel
    show (Script.parse _ "data.nope()").toOption = _
    rw [Script.parse_of_tokenize scanned]
    rfl
  have begins : Setup.context? {} Host.unserved = some c := rfl
  have other : Row.earlier.id ≠ Host.unserved.id.text := by decide
  have fresh : ∀ row ∈ [Row.earlier], row.id ≠ Host.unserved.id.text := by
    intro row mem
    exact List.mem_singleton.mp mem ▸ other
  obtain ⟨-, runs⟩ := run_command_leaves_one_entry v .unserved [("runs", [.earlier])] rfl rfl
  obtain ⟨records, -⟩ := (runs .unserved c loads begins).2 rfl rfl fresh
  exact ⟨rfl, loads, begins, rfl, other, records, rfl, rfl, rfl, records.exit⟩

end Pipework
