import Pipework.Proofs.Run.Passage

/-!
# Runs that go hand in hand

Two executors, each in a mode of its own and with handlers that keep states of their own, may run
the same pipeline from two runs that some relation holds between. `Follows` lists what keeps the
relation: the edits that a run makes to its context, the lines it reports, what the hooks of either
side do, and the calls of the handlers found on either side. Then the whole runs have the same
result and end in related runs.

The relation is free. With equality it says that two executors are the same to anyone who looks at
a run; with a projection it says that one of them does more on the side. Of what a run reports, only
the line that announces it tells its identifier. `Matches` is for relations between runs of one
identifier, which keep any line that both report.
-/

namespace Pipework

variable {σ τ : Type}

/-- What a run itself does to its context. -/
inductive Context.Edit : (Context → Context) → Prop
  | declare (p : Pipeline) : Edit (Executor.declare p)
  | enterStep : Edit enterStep
  | setData (data : Json) : Edit fun c => c.setData data
  | recordFailure (e : PipelineError) (step : String) : Edit fun c => c.recordFailure e step

/-- Two outcomes have the same result, and their runs are related. -/
def Side {α : Type} (rel : Run σ → Run τ → Prop) (x : α × Run σ) (y : α × Run τ) : Prop :=
  y.1 = x.1 ∧ rel x.2 y.2

/-- Two outcomes side by side have one result. -/
theorem Side.exists_eq {α : Type} {rel : Run σ → Run τ → Prop} {x : α × Run σ} {y : α × Run τ}
    (h : Side rel x y) : ∃ a r r', x = (a, r) ∧ y = (a, r') ∧ rel r r' := by
  obtain ⟨a, r⟩ := x
  obtain ⟨b, r'⟩ := y
  obtain ⟨rfl, related⟩ := h
  exact ⟨b, r, r', rfl, rfl, related⟩

/-- Two runs of a step, perhaps at different places, have the same result and stay related if the
helpers keep them related and each attempt does. -/
theorem Task.run_related {rel : Run σ → Run τ → Prop} {t : Task σ} {t' : Task τ}
    {hooks : List (Hook σ)} {hooks' : List (Hook τ)} {mode mode' : Mode} {r : Run σ} {r' : Run τ}
    (sameStep : t'.step = t.step)
    (stopped : ∀ e r r', rel r r' →
      Side rel (r.stopAt hooks t.index t.step e) (r'.stopAt hooks' t'.index t.step e))
    (skipped : ∀ e r r', rel r r' →
      Side rel (r.skipOver hooks t.index t.step e) (r'.skipOver hooks' t'.index t.step e))
    (completed : ∀ value r r', rel r r' →
      Side rel (r.complete hooks t.index t.step value) (r'.complete hooks' t'.index t.step value))
    (tried : Side rel (t.first mode r) (t'.first mode' r'))
    (again : ∀ e r₁ r₁', rel r₁ r₁' →
      Side rel (t.second hooks mode r (r₁.recordFailure hooks t.index t.step e))
        (t'.second hooks' mode' r' (r₁'.recordFailure hooks' t'.index t.step e))) :
    Side rel (t.run hooks mode r) (t'.run hooks' mode' r') := by
  obtain ⟨outcome, r₁, r₁', first, first', related⟩ := tried.exists_eq
  cases outcome with
  | error e =>
    -- The error is the same on both sides, so the policy takes both the same way.
    rw [Task.run_of_error first, Task.run_of_error first', sameStep]
    cases t.step.policyFor e with
    | stop => exact stopped e r₁ r₁' related
    | skip => exact skipped e r₁ r₁' related
    | retry =>
      obtain ⟨outcome, r₂, r₂', second, second', related⟩ := (again e r₁ r₁' related).exists_eq
      simp only [second, second']
      cases outcome with
      | error e' => exact stopped e' r₂ r₂' related
      | ok value => exact completed value r₂ r₂' related
  | ok value =>
    rw [Task.run_of_ok first, Task.run_of_ok first', sameStep]
    exact completed value r₁ r₁' related

/-- The two handlers declare the same parameters, and calls of them keep the runs related. -/
structure Registered.Matches (rel : Run σ → Run τ → Prop) (mode mode' : Mode) (a : Registered σ)
    (a' : Registered τ) : Prop where
  declared : a'.info.params = a.info.params
  invoked : ∀ index step params r r', rel r r' →
    Side rel (Task.invoke ⟨index, step, a⟩ mode params r)
      (Task.invoke ⟨index, step, a'⟩ mode' params r')

/-- The run with the line reported that announces its pipeline. -/
def Run.announce (p : Pipeline) (r : Run σ) : Run σ :=
  r.enter (.report .debug ("Executing pipeline '" ++ p.name ++ "' (" ++ toString p.steps.length ++
    " steps) as " ++ r.context.id.text))

/-- Runs that stay related when a hook is told something stay related when all are. -/
theorem Run.notify_related {rel : Run σ → Run σ → Prop} {hooks : List (Hook σ)}
    {callback : Callback}
    (tells : ∀ hook ∈ hooks, ∀ place r r', rel r r' →
      rel (r.tell callback (hook, place)) (r'.tell callback (hook, place)))
    {r r' : Run σ} (h : rel r r') : rel (r.notify hooks callback) (r'.notify hooks callback) := by
  have told : ∀ (pairs : List (Hook σ × Nat)) (r r' : Run σ), (∀ pair ∈ pairs, pair.1 ∈ hooks) →
      rel r r' → rel (pairs.foldl (fun r hook => r.tell callback hook) r)
        (pairs.foldl (fun r hook => r.tell callback hook) r') := by
    intro pairs
    induction pairs with
    | nil => exact fun _ _ _ h => h
    | cons pair pairs ih =>
      intro r r' mem h
      apply ih _ _ fun other later => mem other (List.mem_cons_of_mem _ later)
      exact tells pair.1 (mem pair List.mem_cons_self) pair.2 r r' h
  exact told hooks.zipIdx r r' (fun pair mem => List.fst_mem_of_mem_zipIdx mem) h

namespace Executor

/-- What is run next, unless what was run first has failed. -/
def andThen (next : Run σ → Except PipelineError Unit × Run σ) :
    Except PipelineError Unit × Run σ → Except PipelineError Unit × Run σ
  | (.ok (), r) => next r
  | (.error e, r) => (.error e, r)

/-- Outcomes that are related lead to outcomes that are related. -/
theorem andThen_related {rel : Run σ → Run τ → Prop}
    {next : Run σ → Except PipelineError Unit × Run σ}
    {next' : Run τ → Except PipelineError Unit × Run τ}
    {x : Except PipelineError Unit × Run σ} {y : Except PipelineError Unit × Run τ}
    (goes : ∀ r r', rel r r' → Side rel (next r) (next' r')) (h : Side rel x y) :
    Side rel (andThen next x) (andThen next' y) := by
  obtain ⟨result, r, r', rfl, rfl, related⟩ := h.exists_eq
  rcases result with e | ⟨⟩
  · exact ⟨rfl, related⟩
  · exact goes r r' related

/-- Steps are run one, and then the others. -/
theorem runSteps_cons (ex : Executor σ) (mode : Mode) (index : Nat) (step : Step)
    (rest : List Step) (r : Run σ) : ex.runSteps mode index (step :: rest) r =
      andThen (ex.runSteps mode (index + 1) rest) (ex.runStep mode index step r) := by
  rw [runSteps]
  rcases ex.runStep mode index step r with ⟨e | ⟨⟩, r⟩ <;> rfl

/-- Whatever one executor does in a run, the other does in a related one, and they stay related. -/
structure Follows (rel : Run σ → Run τ → Prop) (mode mode' : Mode) (ex : Executor σ)
    (ex' : Executor τ) : Prop where
  sameVars : ∀ r r', rel r r' → r'.context.vars = r.context.vars
  edited : ∀ edit r r', Context.Edit edit → rel r r' →
    rel { r with context := edit r.context } { r' with context := edit r'.context }
  announced : ∀ p r r', rel r r' → rel (r.announce p) (r'.announce p)
  reported : ∀ level message r r', rel r r' →
    rel (r.enter (.report level message)) (r'.enter (.report level message))
  notified : ∀ callback r r', rel r r' →
    rel (r.notify ex.hooks callback) (r'.notify ex'.hooks callback)
  found : ∀ type action, Option.Rel (Registered.Matches rel mode mode')
    (ex.registry.lookup type action) (ex'.registry.lookup type action)

/-- The same, where related runs have one identifier. -/
structure Matches (rel : Run σ → Run τ → Prop) (mode mode' : Mode) (ex : Executor σ)
    (ex' : Executor τ) : Prop where
  sameVars : ∀ r r', rel r r' → r'.context.vars = r.context.vars
  sameId : ∀ r r', rel r r' → r'.context.id = r.context.id
  edited : ∀ edit r r', Context.Edit edit → rel r r' →
    rel { r with context := edit r.context } { r' with context := edit r'.context }
  reported : ∀ level message r r', rel r r' →
    rel (r.enter (.report level message)) (r'.enter (.report level message))
  notified : ∀ callback r r', rel r r' →
    rel (r.notify ex.hooks callback) (r'.notify ex'.hooks callback)
  found : ∀ type action, Option.Rel (Registered.Matches rel mode mode')
    (ex.registry.lookup type action) (ex'.registry.lookup type action)

/-- Runs of one identifier announce their pipelines by the same line. -/
theorem Matches.follows {rel : Run σ → Run τ → Prop} {mode mode' : Mode} {ex : Executor σ}
    {ex' : Executor τ} (m : Matches rel mode mode' ex ex') : Follows rel mode mode' ex ex' where
  sameVars := m.sameVars
  edited := m.edited
  announced p r r' h := by
    unfold Run.announce
    rw [m.sameId r r' h]
    exact m.reported _ _ r r' h
  reported := m.reported
  notified := m.notified
  found := m.found

namespace Follows

variable {rel : Run σ → Run τ → Prop} {mode mode' : Mode} {ex : Executor σ} {ex' : Executor τ}
  {r : Run σ} {r' : Run τ}

/-! ## The helpers of a run -/

/-- Both tell their hooks of the failure, and record it. -/
theorem recordFailure (f : Follows rel mode mode' ex ex') (index : Nat) (step : Step)
    (e : PipelineError) (h : rel r r') :
    rel (r.recordFailure ex.hooks index step e) (r'.recordFailure ex'.hooks index step e) := by
  have told := f.notified (.onError index step e) r r' h
  exact f.edited _ _ _ (.recordFailure e step.identifier) told

/-- Both announce a second attempt. -/
theorem announceRetry (f : Follows rel mode mode' ex ex') (index : Nat) (step : Step)
    (h : rel r r') :
    rel (r.announceRetry ex.hooks index step) (r'.announceRetry ex'.hooks index step) := by
  unfold Run.announceRetry
  apply f.notified
  exact f.reported _ _ _ _ h

/-- Both end at the step with the same error. -/
theorem stopAt (f : Follows rel mode mode' ex ex') (index : Nat) (step : Step) (e : PipelineError)
    (h : rel r r') :
    Side rel (r.stopAt ex.hooks index step e) (r'.stopAt ex'.hooks index step e) := by
  refine ⟨rfl, ?_⟩
  unfold Run.stopAt
  exact f.reported _ _ _ _ (f.recordFailure index step e h)

/-- Both go on behind the step. -/
theorem skipOver (f : Follows rel mode mode' ex ex') (index : Nat) (step : Step)
    (e : PipelineError) (h : rel r r') :
    Side rel (r.skipOver ex.hooks index step e) (r'.skipOver ex'.hooks index step e) := by
  refine ⟨rfl, ?_⟩
  unfold Run.skipOver
  exact f.reported _ _ _ _ (f.recordFailure index step e h)

/-- Both replace the data by the same value, or leave them. -/
theorem complete (f : Follows rel mode mode' ex ex') (index : Nat) (step : Step)
    (value : Option Json) (h : rel r r') :
    Side rel (r.complete ex.hooks index step value) (r'.complete ex'.hooks index step value) := by
  refine ⟨rfl, ?_⟩
  unfold Run.complete
  apply f.notified
  cases value.filter fun v => !v.isNull with
  | none => exact h
  | some data => exact f.edited _ _ _ (.setData data) h

/-! ## Attempts -/

variable {a : Registered σ} {a' : Registered τ} {index : Nat} {step : Step}

/-- Both prepare the same parameters, or refuse them for the same error. -/
theorem prepare (f : Follows rel mode mode' ex ex') (same : a.Matches rel mode mode' a')
    (index : Nat) (step : Step) (h : rel r r') :
    (Task.mk index step a').prepare r'.context = (Task.mk index step a).prepare r.context := by
  simp only [Task.prepare, Context.lookup, f.sameVars r r' h, same.declared]

/-- With the same parameters both call their handlers, which match, or none. -/
theorem attempt (same : a.Matches rel mode mode' a') (index : Nat) (step : Step)
    (prepared : Except PipelineError Params) (h : rel r r') :
    Side rel ((Task.mk index step a).attempt mode prepared r)
      ((Task.mk index step a').attempt mode' prepared r') := by
  unfold Task.attempt
  cases prepared with
  | error e => exact ⟨rfl, h⟩
  | ok params => exact same.invoked index step params r r' h

/-- The first attempt has the same outcome on both sides. -/
theorem first (f : Follows rel mode mode' ex ex') (same : a.Matches rel mode mode' a')
    (index : Nat) (step : Step) (h : rel r r') :
    Side rel ((Task.mk index step a).first mode r) ((Task.mk index step a').first mode' r') := by
  unfold Task.first
  rw [f.prepare same index step h]
  exact attempt same index step _ h

/-- So has the second, with the parameters of the first or with those prepared anew. -/
theorem second (f : Follows rel mode mode' ex ex') (same : a.Matches rel mode mode' a')
    (index : Nat) (step : Step) {start : Run σ} {start' : Run τ} (began : rel start start')
    (h : rel r r') :
    Side rel ((Task.mk index step a).second ex.hooks mode start r)
      ((Task.mk index step a').second ex'.hooks mode' start' r') := by
  have announced := f.announceRetry index step h
  unfold Task.second
  simp only [Task.preparedOr, f.prepare same index step began, f.prepare same index step announced]
  exact attempt same index step _ announced

/-- A handler that is found matches itself. -/
theorem matches_self {rel : Run σ → Run σ → Prop} (f : Follows rel mode mode' ex ex)
    {type : AtomType} {action : String} (found : ex.registry.lookup type action = some a) :
    a.Matches rel mode mode' a := by
  have same := f.found type action
  rw [found] at same
  cases same
  assumption

/-! ## Steps and runs -/

/-- A task is run on both sides with the same result. -/
theorem task (f : Follows rel mode mode' ex ex') (same : a.Matches rel mode mode' a')
    (index : Nat) (step : Step) (h : rel r r') :
    Side rel ((Task.mk index step a).run ex.hooks mode r)
      ((Task.mk index step a').run ex'.hooks mode' r') := by
  apply Task.run_related
  case sameStep => rfl
  case stopped => exact fun e _ _ h => f.stopAt index step e h
  case skipped => exact fun e _ _ h => f.skipOver index step e h
  case completed => exact fun value _ _ h => f.complete index step value h
  case tried => exact f.first same index step h
  case again =>
    exact fun e _ _ failed => f.second same index step h (f.recordFailure index step e failed)

/-- Both enter the step, and tell their hooks. -/
theorem enter (f : Follows rel mode mode' ex ex') (index : Nat) (step : Step) (h : rel r r') :
    rel (ex.enter index step r) (ex'.enter index step r') := by
  unfold Executor.enter
  apply f.notified
  exact f.edited _ _ _ .enterStep h

/-- A step has the same result on both sides: a handler is found for it on both or on none. -/
theorem runStep (f : Follows rel mode mode' ex ex') (index : Nat) (step : Step) (h : rel r r') :
    Side rel (ex.runStep mode index step r) (ex'.runStep mode' index step r') := by
  have entered := f.enter index step h
  have found := f.found step.atom.type step.atom.action
  cases here : ex.registry.lookup step.atom.type step.atom.action <;>
    cases there : ex'.registry.lookup step.atom.type step.atom.action <;>
    rw [here, there] at found <;> cases found
  · rw [runStep_of_missing here, runStep_of_missing there]
    exact f.stopAt index step _ entered
  next same =>
    rw [runStep_of_found here, runStep_of_found there]
    exact f.task same index step entered

/-- Steps have the same result on both sides. -/
theorem runSteps (f : Follows rel mode mode' ex ex') (index : Nat) (steps : List Step)
    (h : rel r r') : Side rel (ex.runSteps mode index steps r) (ex'.runSteps mode' index steps r') := by
  induction steps generalizing index r r' with
  | nil => exact ⟨rfl, h⟩
  | cons step steps ih =>
    rw [runSteps_cons, runSteps_cons]
    exact andThen_related (fun _ _ => ih (index + 1)) (f.runStep index step h)

/-- Both declare the variables, announce the pipeline and tell their hooks. -/
theorem start (f : Follows rel mode mode' ex ex') (p : Pipeline) (h : rel r r') :
    rel (ex.start p r) (ex'.start p r') := by
  have declared := f.edited _ _ _ (.declare p) h
  unfold Executor.start
  apply f.notified
  exact f.announced p _ _ declared

/-- **Executors that follow each other run pipelines alike**: with the same result, and the runs stay
related. -/
theorem execute (f : Follows rel mode mode' ex ex') (p : Pipeline) (h : rel r r') :
    Side rel (ex.execute mode p r) (ex'.execute mode' p r') := by
  obtain ⟨result, ended⟩ := f.runSteps 0 p.steps (f.start p h)
  simp only [Executor.execute]
  rw [result]
  exact ⟨rfl, f.notified _ _ _ ended⟩

/-- Both report the lines. -/
theorem reportAll (f : Follows rel mode mode' ex ex') (lines : List Report) (h : rel r r') :
    rel (r.reportAll lines) (r'.reportAll lines) := by
  have split {υ : Type} (r : Run υ) (line : Report) (lines : List Report) :
      r.reportAll (line :: lines) =
        (r.enter (.report line.level line.message)).reportAll lines := by
    simp only [Run.reportAll, Run.enter, Entry.report, List.map_cons, List.append_assoc,
      List.cons_append, List.nil_append]
  induction lines generalizing r r' with
  | nil => simpa only [Run.reportAll, List.map_nil, List.append_nil] using h
  | cons line lines ih =>
    rw [split, split]
    exact ih (f.reported line.level line.message r r' h)

/-- They run scripts alike if they read them alike. -/
theorem executeText (f : Follows rel mode mode' ex ex')
    (reading : ex'.unknownTypes = ex.unknownTypes) (text : String) (h : rel r r') :
    Side rel (ex.executeText mode text r) (ex'.executeText mode' text r') := by
  have begun := f.reportAll (Script.read ex.unknownTypes text).reports h
  simp only [Executor.executeText, reading]
  cases (Script.read ex.unknownTypes text).result with
  | error e => exact ⟨rfl, begun⟩
  | ok p => exact f.execute p begun

end Follows

namespace Matches

variable {rel : Run σ → Run τ → Prop} {mode mode' : Mode} {ex : Executor σ} {ex' : Executor τ}
  {r : Run σ} {r' : Run τ}

/-- Matching executors run pipelines alike. -/
theorem execute (m : Matches rel mode mode' ex ex') (p : Pipeline) (h : rel r r') :
    Side rel (ex.execute mode p r) (ex'.execute mode' p r') :=
  m.follows.execute p h

/-- Matching executors run scripts alike if they read them alike. -/
theorem executeText (m : Matches rel mode mode' ex ex')
    (reading : ex'.unknownTypes = ex.unknownTypes) (text : String) (h : rel r r') :
    Side rel (ex.executeText mode text r) (ex'.executeText mode' text r') :=
  m.follows.executeText reading text h

end Matches

end Executor

end Pipework
