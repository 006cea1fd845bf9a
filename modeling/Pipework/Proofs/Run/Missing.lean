import Pipework.Builtin.Atoms
import Pipework.Proofs.Outcome
import Pipework.Proofs.Run.Entries
import Pipework.Proofs.Run.Modes

/-!
# Missing handlers

`Registry.missing` lists the calls of a pipeline for which there is no handler, without running it. A
run finds out step by step, and between steps there are failures, policies and hooks. Both agree:

* if no handler is missing, and none has to be waited for, a run ends with nothing but errors that a
  step's policy may act on, and with none at all if every step is to be skipped when it fails;
* if a handler is missing, the run gets as far as the steps before the first call without one, and it
  never succeeds.

The built-in registry has no handler that has to be waited for, so this is all there is to say of a
pipeline that is checked against it.
-/

namespace Pipework

variable {σ : Type}

/-! ## Errors that a policy may act on -/

/-- The two errors that a policy may act on: a reference to a variable without a value, and the
failure of a handler or of its parameters. -/
theorem PipelineError.isRecoverable_iff {e : PipelineError} :
    e.isRecoverable = true ↔
      (∃ reference, e = .undefinedVariable reference) ∨ ∃ atom message, e = .handler atom message := by
  cases e <;> simp [isRecoverable]

namespace Lookup

variable {lookup : Lookup} {e : PipelineError}

/-- That a name is not bound is an error that a step may be skipped for. -/
theorem isRecoverable_of_follow {r : Reference} (failed : lookup.follow r = .error e) :
    e.isRecoverable = true := by
  unfold follow at failed
  split at failed <;> cases failed
  rfl

theorem isRecoverable_of_interpolate {cs : List Char} (failed : lookup.interpolate cs = .error e) :
    e.isRecoverable = true := by
  fun_induction interpolate lookup cs with
  | case1 => cases failed
  | case2 c cs _ ih => exact ih (Outcome.map_eq_error.mp failed)
  | case3 c cs r _ ih =>
    rcases Outcome.bind_eq_error.mp failed with failed | ⟨v, -, failed⟩
    · exact isRecoverable_of_follow failed
    · rcases Outcome.bind_eq_error.mp failed with failed | ⟨rest, -, failed⟩
      · exact ih failed
      · cases failed

theorem isRecoverable_of_resolveText {s : String} (failed : lookup.resolveText s = .error e) :
    e.isRecoverable = true := by
  unfold resolveText at failed
  split at failed
  · exact isRecoverable_of_follow failed
  · exact isRecoverable_of_interpolate (Outcome.map_eq_error.mp failed)

mutual

/-- So are all errors that a value has by its references, however deep they stand in it. -/
theorem isRecoverable_of_resolve (v : Json) (failed : lookup.resolve v = .error e) :
    e.isRecoverable = true := by
  cases v with
  | string s => exact isRecoverable_of_resolveText failed
  | array items =>
    rcases Outcome.bind_eq_error.mp failed with failed | ⟨_, -, failed⟩
    · exact isRecoverable_of_resolveItems items failed
    · cases failed
  | object fields =>
    rcases Outcome.bind_eq_error.mp failed with failed | ⟨_, -, failed⟩
    · exact isRecoverable_of_resolveFields fields failed
    · cases failed
  | _ => cases failed
termination_by structural v

theorem isRecoverable_of_resolveItems (items : List Json)
    (failed : lookup.resolveItems items = .error e) : e.isRecoverable = true := by
  cases items with
  | nil => cases failed
  | cons v vs =>
    rcases Outcome.bind_eq_error.mp failed with failed | ⟨_, -, failed⟩
    · exact isRecoverable_of_resolve v failed
    · rcases Outcome.bind_eq_error.mp failed with failed | ⟨_, -, failed⟩
      · exact isRecoverable_of_resolveItems vs failed
      · cases failed
termination_by structural items

theorem isRecoverable_of_resolveFields (fields : List (String × Json))
    (failed : lookup.resolveFields fields = .error e) : e.isRecoverable = true := by
  cases fields with
  | nil => cases failed
  | cons field fields =>
    rcases Outcome.bind_eq_error.mp failed with failed | ⟨_, -, failed⟩
    · exact isRecoverable_of_resolve field.2 failed
    · rcases Outcome.bind_eq_error.mp failed with failed | ⟨_, -, failed⟩
      · exact isRecoverable_of_resolveFields fields failed
      · cases failed
termination_by structural fields

end

end Lookup

namespace Task

variable {t : Task σ} {mode : Mode} {e : PipelineError}

/-- Preparing parameters resolves references and checks declarations. Both fail recoverably. -/
theorem isRecoverable_of_prepare {c : Context} (failed : t.prepare c = .error e) :
    e.isRecoverable = true := by
  rcases Outcome.bind_eq_error.mp failed with failed | ⟨_, -, failed⟩
  · exact Lookup.isRecoverable_of_resolveFields _ failed
  · obtain ⟨_, -, rfl⟩ := Outcome.mapError_eq_error.mp failed
    rfl

/-- A handler that does not have to be waited for is called, and fails recoverably. -/
theorem isRecoverable_of_attempt (prompt : t.atom.handler.isAsync = false)
    {prepared : Except PipelineError Params} (refused : ∀ e, prepared = .error e → e.isRecoverable = true)
    {r r' : Run σ} (failed : t.attempt mode prepared r = (.error e, r')) :
    e.isRecoverable = true := by
  cases prepared with
  | error e' =>
    cases failed
    exact refused _ rfl
  | ok params =>
    simp only [attempt, invoke, prompt, Bool.false_and, Bool.false_eq_true, if_false] at failed
    obtain ⟨_, -, rfl⟩ := Outcome.mapError_eq_error.mp (congrArg Prod.fst failed)
    rfl

theorem isRecoverable_of_first (prompt : t.atom.handler.isAsync = false) {r r' : Run σ}
    (failed : t.first mode r = (.error e, r')) : e.isRecoverable = true :=
  isRecoverable_of_attempt prompt (fun _ => isRecoverable_of_prepare) failed

theorem isRecoverable_of_second (prompt : t.atom.handler.isAsync = false) {hooks : List (Hook σ)}
    {start r r' : Run σ} (failed : t.second hooks mode start r = (.error e, r')) :
    e.isRecoverable = true := by
  apply isRecoverable_of_attempt prompt _ failed
  intro e' refused
  unfold preparedOr at refused
  split at refused
  · cases refused
  · exact isRecoverable_of_prepare refused

end Task

/-! ## Runs without a missing handler -/

namespace Registry

/-- The check finds an atom where the run would find one. -/
theorem contains_eq_true {registry : Registry σ} {type : AtomType} {action : String} :
    registry.contains type action = true ↔ ∃ atom, registry.lookup type action = some atom :=
  Option.isSome_iff_exists

theorem contains_eq_false {registry : Registry σ} {type : AtomType} {action : String} :
    registry.contains type action = false ↔ registry.lookup type action = none := by
  rw [contains, Option.isSome_eq_false_iff, Option.isNone_iff_eq_none]

/-- There is a handler for the step. -/
def Serves (registry : Registry σ) (step : Step) : Prop :=
  registry.contains step.atom.type step.atom.action = true

/-- The missing calls begin with the first step that there is no handler for. -/
theorem missing_eq_cons {registry : Registry σ} {p : Pipeline} {atom : Atom} {others : List Atom}
    (missing : registry.missing p = atom :: others) :
    ∃ before step after, p.steps = before ++ step :: after ∧ step.atom = atom ∧
      ¬ registry.Serves step ∧ ∀ s ∈ before, registry.Serves s := by
  unfold Registry.missing Pipeline.atoms at missing
  rw [List.filter_map] at missing
  obtain ⟨step, steps, found, rfl, -⟩ := List.map_eq_cons_iff.mp missing
  obtain ⟨before, after, split, served, lacking, -⟩ := List.filter_eq_cons_iff.mp found
  refine ⟨before, step, after, split, rfl, ?_, ?_⟩
  · simpa [Serves] using lacking
  · intro s mem
    simpa [Serves] using served s mem

/-- Nothing is missing exactly when every step is served. -/
theorem missing_eq_nil {registry : Registry σ} {p : Pipeline} :
    registry.missing p = [] ↔ ∀ step ∈ p.steps, registry.Serves step := by
  simp [missing, Pipeline.atoms, Serves, List.filter_eq_nil_iff]

end Registry

namespace Executor

variable {ex : Executor σ} {mode : Mode}

/-- Where there is a handler that does not have to be waited for, a step ends a run with nothing but
an error that its policy may act on, and only if the policy is not to skip it. -/
theorem Passes.failure_of_serves {index : Nat} {step : Step} {r r' : Run σ} {passage : Passage}
    {e : PipelineError} (passes : ex.Passes mode index step r passage r')
    (serves : ex.registry.Serves step) (prompt : ex.registry.Prompt)
    (failure : passage.failure = some e) : e.isRecoverable = true ∧ step.onError ≠ .skip := by
  cases passes with
  | unknown missing =>
    obtain ⟨atom, found⟩ := Registry.contains_eq_true.mp serves
    rw [missing] at found
    cases found
  | stopped found first final =>
    cases failure
    have recoverable := Task.isRecoverable_of_first (prompt _ _ _ found) first
    refine ⟨recoverable, ?_⟩
    rcases final with final | policy
    · rw [recoverable] at final
      cases final
    · rw [policy]
      decide
  | stoppedAgain found first recoverable policy second =>
    cases failure
    refine ⟨Task.isRecoverable_of_second (prompt _ _ _ found) second, ?_⟩
    rw [policy]
    decide
  | _ => cases failure

/-- Where every step is served, a run stops only with an error that a step may be skipped for, and
only at a step that does not skip. -/
theorem Walks.error_of_serves {index : Nat} {steps : List Step} {r r' : Run σ}
    {passages : List Passage} {result : Except PipelineError Unit} {e : PipelineError}
    (walks : ex.Walks mode index steps r passages result r')
    (serves : ∀ step ∈ steps, ex.registry.Serves step) (prompt : ex.registry.Prompt)
    (failed : result = .error e) : e.isRecoverable = true ∧ ∃ step ∈ steps, step.onError ≠ .skip := by
  induction walks with
  | done => cases failed
  | stop passes failure =>
    cases failed
    obtain ⟨recoverable, policy⟩ :=
      passes.failure_of_serves (serves _ List.mem_cons_self) prompt failure
    exact ⟨recoverable, _, List.mem_cons_self, policy⟩
  | next passes failure rest ih =>
    obtain ⟨recoverable, step, mem, policy⟩ :=
      ih (fun step mem => serves step (List.mem_cons_of_mem _ mem)) failed
    exact ⟨recoverable, step, List.mem_cons_of_mem _ mem, policy⟩

/-- If no handler is missing and none has to be waited for, a run fails with nothing but errors that a
policy may act on, and not at all if all policies are to skip. -/
theorem error_of_missing_eq_nil {p : Pipeline} (none : ex.registry.missing p = [])
    (prompt : ex.registry.Prompt) (mode : Mode) (r : Run σ) {e : PipelineError}
    (failed : (ex.execute mode p r).1 = .error e) :
    e.isRecoverable = true ∧ ∃ step ∈ p.steps, step.onError ≠ .skip := by
  obtain ⟨passages, walks⟩ := ex.runSteps_walks mode 0 p.steps (ex.start p r)
  exact walks.error_of_serves (Registry.missing_eq_nil.mp none) prompt failed

/-! ## Runs that come to a missing handler -/

/-- Steps in front are run first, and the others if none of these ends the run. -/
theorem runSteps_append (ex : Executor σ) (mode : Mode) (index : Nat) (before after : List Step)
    (r : Run σ) :
    ex.runSteps mode index (before ++ after) r =
      match ex.runSteps mode index before r with
      | (.ok (), r') => ex.runSteps mode (index + before.length) after r'
      | (.error e, r') => (.error e, r') := by
  induction before generalizing index r with
  | nil => rfl
  | cons step before ih =>
    rw [List.cons_append, runSteps, runSteps]
    rcases ex.runStep mode index step r with ⟨e | ⟨⟩, r₁⟩
    · rfl
    · simp only [ih, List.length_cons, Nat.add_assoc, Nat.add_comm 1]

/-- A run does not get past a step without a handler. It ends there, or before, and the only handlers
called are those of the steps before. -/
theorem execute_of_not_serves {p : Pipeline} {before after : List Step} {step : Step}
    (split : p.steps = before ++ step :: after) (lacking : ¬ ex.registry.Serves step) (mode : Mode)
    (r : Run σ) :
    let ran := ex.runSteps mode 0 before (ex.start p r)
    (ex.execute mode p r).1 =
      (ran.1 >>= fun _ => .error (.unknownAtom step.atom.type.name step.atom.action)) ∧
    (ex.execute mode p r).2.journal.calls = ran.2.journal.calls := by
  have missing := Registry.contains_eq_false.mp (Bool.eq_false_iff.mpr lacking)
  simp only [execute, Run.calls_notify]
  rw [split, runSteps_append]
  rcases ex.runSteps mode 0 before (ex.start p r) with ⟨e | ⟨⟩, r₁⟩
  · exact ⟨rfl, rfl⟩
  · simp only [runSteps, runStep_of_missing missing]
    refine ⟨rfl, ?_⟩
    show (Run.stopAt ex.hooks _ step _ (ex.enter _ step r₁)).2.journal.calls = _
    rw [Run.calls_stopAt, calls_enter]

end Executor

/-! ## The built-in registry -/

/-- Every built-in handler computes its value from the parameters and the data. -/
theorem Builtin.exists_notedHandler {type : AtomType} {action : String} {atom : Registered σ}
    (found : (Builtin.registry : Registry σ).lookup type action = some atom) :
    ∃ note compute, atom.handler = notedHandler note compute := by
  have noted (note : Params → Option String) (compute : Params → Json → Except AtomError Json) :
      ∃ note' compute', (notedHandler note compute : Handler σ) = notedHandler note' compute' :=
    ⟨note, compute, rfl⟩
  have computes : ∀ entry ∈ (Builtin.entries : List ((AtomType × String) × Registered σ)),
      ∃ note compute, entry.2.handler = notedHandler note compute := by
    simp [entries, entry, handler, noted]
  rcases Registry.mem_registerAll (Registry.mem_of_lookup found) with mem | mem
  · cases mem
  · exact computes _ mem

/-- No built-in handler has to be waited for. -/
theorem Builtin.prompt_registry : (Builtin.registry : Registry σ).Prompt := by
  intro type action atom found
  obtain ⟨note, compute, computes⟩ := exists_notedHandler found
  rw [computes]
  rfl

namespace Executor

/-- **Checking agrees with running**, for the built-in handlers, in either mode and with any hooks. If
no handler is missing, a run fails with nothing but undefined variables and failures of handlers, and
not at all if every step is to be skipped when it fails. If some are, no run succeeds: it ends at the
first call without a handler at the latest, and calls the handlers of the steps before it and no
others. -/
theorem checking_agrees_with_running (ex : Executor σ) (builtin : ex.registry = Builtin.registry)
    (mode : Mode) (p : Pipeline) (r : Run σ) :
    (ex.registry.missing p = [] →
      (∀ e, (ex.execute mode p r).1 = .error e →
        (∃ reference, e = .undefinedVariable reference) ∨ ∃ atom message, e = .handler atom message) ∧
      ((∀ step ∈ p.steps, step.onError = .skip) → (ex.execute mode p r).1 = .ok ())) ∧
    ∀ atom others, ex.registry.missing p = atom :: others →
      (ex.execute mode p r).1 ≠ .ok () ∧
      ∃ before step after, p.steps = before ++ step :: after ∧ step.atom = atom ∧
        (∀ s ∈ before, ex.registry.Serves s) ∧
        let ran := ex.runSteps mode 0 before (ex.start p r)
        (ex.execute mode p r).1 =
          (ran.1 >>= fun _ => .error (.unknownAtom atom.type.name atom.action)) ∧
        (ex.execute mode p r).2.journal.calls = ran.2.journal.calls := by
  have prompt : ex.registry.Prompt := builtin ▸ Builtin.prompt_registry
  constructor
  · intro none
    refine ⟨fun e failed => ?_, fun skips => ?_⟩
    · exact PipelineError.isRecoverable_iff.mp (error_of_missing_eq_nil none prompt mode r failed).1
    · rcases result : (ex.execute mode p r).1 with e | ⟨⟩
      · obtain ⟨-, step, mem, policy⟩ := error_of_missing_eq_nil none prompt mode r result
        exact absurd (skips step mem) policy
      · rfl
  · intro atom others missing
    obtain ⟨before, step, after, split, rfl, lacking, served⟩ := Registry.missing_eq_cons missing
    have ended := execute_of_not_serves split lacking mode r
    refine ⟨?_, before, step, after, split, rfl, served, ended⟩
    intro succeeded
    rw [ended.1] at succeeded
    obtain ⟨_, -, impossible⟩ := Outcome.bind_eq_ok.mp succeeded
    cases impossible

/-- The built-in handlers, and hooks that follow. -/
def builtins : Executor Unit where
  registry := Builtin.registry
  hooks := [.logging, .events]

/-- A pipeline that refers to a variable without a value, and skips what fails. -/
def unbound : Pipeline where
  name := "unbound"
  steps := [{ atom := ⟨.metrics, "sum", [("_arg0", .string "$field")]⟩, onError := .skip },
    { atom := ⟨.metrics, "count", []⟩, onError := .skip }]

/-- The same, with a call in between for which there is no handler. -/
def unserved : Pipeline where
  name := "unserved"
  steps := [{ atom := ⟨.metrics, "sum", [("_arg0", .string "$field")]⟩, onError := .skip },
    { atom := ⟨.report, "write", []⟩, onError := .skip },
    { atom := ⟨.metrics, "count", []⟩, onError := .skip }]

/-- Skipping gets a run past the undefined variable, and not past the missing handler. -/
theorem skipping_passes_served_steps_only :
    builtins.registry = Builtin.registry ∧
    builtins.registry.missing unbound = [] ∧
    (builtins.execute .blocking unbound ⟨{}, (), []⟩).1 = .ok () ∧
    builtins.registry.missing unserved = [⟨.report, "write", []⟩] ∧
    (builtins.execute .waiting unserved ⟨{}, (), []⟩).1 ≠ .ok () := by
  have none : builtins.registry.missing unbound = [] := rfl
  have some : builtins.registry.missing unserved = [⟨.report, "write", []⟩] := rfl
  have skips : ∀ step ∈ unbound.steps, step.onError = .skip := by
    simp [unbound]
  have served := (checking_agrees_with_running builtins rfl .blocking unbound ⟨{}, (), []⟩).1
  have unserved := (checking_agrees_with_running builtins rfl .waiting unserved ⟨{}, (), []⟩).2
  exact ⟨rfl, none, (served none).2 skips, some, (unserved _ _ some).1⟩

end Executor

end Pipework
