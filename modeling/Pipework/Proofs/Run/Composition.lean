import Pipework.Proofs.Run.Alike
import Pipework.Proofs.Run.Missing

/-!
# Runs of pipelines put together

A pipeline may be cut in two. The first part declares what the whole declares, the second declares
nothing and is run on what the first has left. Without hooks nobody sees the cut: a run depends on the
context that it finds, and not on how many steps were run before it by whom. The place of a step is
told to hooks and put into lines that are reported, and nothing is made of it besides; the count of
steps, which error records and log lines have, is kept in the context.
-/

namespace Pipework

variable {σ : Type}

/-- The runs have equal contexts and states, and have made the same calls. -/
abbrev Run.Even (r r' : Run σ) : Prop :=
  Run.Alike (fun c => c) r r'

/-- The second pipeline runs the steps behind those of the first, and declares nothing more. -/
structure Pipeline.Cut (whole front back : Pipeline) : Prop where
  steps : whole.steps = front.steps ++ back.steps
  vars : front.vars = whole.vars
  domain : front.domain = whole.domain
  noVars : back.vars = []
  noDomain : back.domain = none

/-! ## The place of a step -/

namespace Run.Even

variable {r r' : Run σ} (index index' : Nat) (step : Step) (e : PipelineError)

theorem recordFailure (even : Even r r') :
    Even (r.recordFailure [] index step e) (r'.recordFailure [] index' step e) :=
  ⟨congrArg (·.recordFailure e step.identifier) even.context, even.state, even.calls⟩

theorem stopAt (even : Even r r') :
    Side Even (r.stopAt [] index step e) (r'.stopAt [] index' step e) :=
  ⟨rfl, (even.recordFailure index index' step e).report _ _ _ _⟩

theorem skipOver (even : Even r r') :
    Side Even (r.skipOver [] index step e) (r'.skipOver [] index' step e) :=
  ⟨rfl, (even.recordFailure index index' step e).report _ _ _ _⟩

theorem announceRetry (even : Even r r') :
    Even (r.announceRetry [] index step) (r'.announceRetry [] index' step) :=
  even.report _ _ _ _

theorem complete (value : Option Json) (even : Even r r') :
    Side Even (r.complete [] index step value) (r'.complete [] index' step value) := by
  obtain ⟨context, state, calls⟩ := even
  refine ⟨rfl, ?_, state, calls⟩
  unfold Run.complete
  cases value.filter fun v => !v.isNull with
  | none => exact context
  | some data => exact congrArg (·.setData data) context

end Run.Even

namespace Executor

variable {ex : Executor σ} {mode : Mode} {r r' : Run σ}

/-- An executor without hooks keeps runs even. -/
theorem follows_of_hookless (hookless : ex.hooks = []) (mode : Mode) :
    Follows Run.Even mode mode ex ex := by
  apply ex.follows_of_blind mode Context.view_self
  rw [hookless]
  exact nofun

/-- The attempts of a step come to the same at any place. -/
theorem even_task (follows : Follows Run.Even mode mode ex ex) (index index' : Nat) (step : Step)
    {atom : Registered σ}
    (found : ex.registry.lookup step.atom.type step.atom.action = some atom)
    (even : Run.Even r r') :
    Side Run.Even (Task.run ⟨index, step, atom⟩ [] mode r)
      (Task.run ⟨index', step, atom⟩ [] mode r') := by
  have same := follows.matches_self found
  have attempted {r r' : Run σ} (prepared : Except PipelineError Params) (even : Run.Even r r') :
      Side Run.Even ((Task.mk index step atom).attempt mode prepared r)
        ((Task.mk index' step atom).attempt mode prepared r') :=
    Follows.attempt same index step prepared even
  have tried : Side Run.Even ((Task.mk index step atom).first mode r)
      ((Task.mk index' step atom).first mode r') := by
    unfold Task.first
    rw [even.context]
    exact attempted _ even
  apply Task.run_related
  case sameStep => rfl
  case stopped => exact fun e _ _ even => even.stopAt index index' step e
  case skipped => exact fun e _ _ even => even.skipOver index index' step e
  case completed => exact fun value _ _ even => even.complete index index' step value
  case tried => exact tried
  case again =>
    intro e r₁ r₁' failed
    have announced := (failed.recordFailure index index' step e).announceRetry index index' step
    unfold Task.second
    simp only [even.context, announced.context]
    exact attempted _ announced

/-- A step comes to the same at any place. -/
theorem even_runStep (hookless : ex.hooks = []) (index index' : Nat) (step : Step)
    (even : Run.Even r r') :
    Side Run.Even (ex.runStep mode index step r) (ex.runStep mode index' step r') := by
  have entered : Run.Even (ex.enter index step r) (ex.enter index' step r') := by
    unfold enter
    rw [hookless]
    exact ⟨congrArg Context.enterStep even.context, even.state, even.calls⟩
  cases found : ex.registry.lookup step.atom.type step.atom.action with
  | none =>
    rw [runStep_of_missing found, runStep_of_missing found, hookless]
    exact entered.stopAt index index' step _
  | some atom =>
    rw [runStep_of_found found, runStep_of_found found, hookless]
    exact even_task (follows_of_hookless hookless mode) index index' step found entered

/-- **Steps come to the same from any place.** -/
theorem even_runSteps (hookless : ex.hooks = []) (index index' : Nat) (steps : List Step)
    (even : Run.Even r r') :
    Side Run.Even (ex.runSteps mode index steps r) (ex.runSteps mode index' steps r') := by
  induction steps generalizing index index' r r' with
  | nil => exact ⟨rfl, even⟩
  | cons step steps ih =>
    rw [runSteps_cons, runSteps_cons]
    exact andThen_related (fun _ _ => ih (index + 1) (index' + 1))
      (even_runStep hookless index index' step even)

/-! ## Two pipelines for one -/

/-- Without hooks, a run is its steps behind the line that announces it. -/
theorem execute_of_hookless (hookless : ex.hooks = []) (mode : Mode) (p : Pipeline) (r : Run σ) :
    ex.execute mode p r =
      ex.runSteps mode 0 p.steps ({ r with context := declare p r.context }.announce p) := by
  unfold execute start
  rw [hookless]
  rfl

/-- A pipeline and its parts, one behind the other, come to the same. -/
theorem even_execute (hookless : ex.hooks = []) (mode : Mode) {whole front back : Pipeline}
    (cut : whole.Cut front back) (r : Run σ) :
    Side Run.Even (ex.execute mode whole r)
      (andThen (ex.execute mode back) (ex.execute mode front r)) := by
  have declared : declare front r.context = declare whole r.context := by
    rw [declare_eq, declare_eq, cut.vars, cut.domain]
  have undeclared (c : Context) : declare back c = c := by
    rw [declare_eq, cut.noVars, cut.noDomain]
    cases c with
    | mk memory id domain => cases domain <;> rfl
  have begun : Run.Even ({ r with context := declare whole r.context }.announce whole)
      ({ r with context := declare front r.context }.announce front) := by
    rw [declared]
    exact (Run.Alike.refl _ _).report _ _ _ _
  have parts (r : Run σ) : ex.runSteps mode 0 whole.steps r =
      andThen (ex.runSteps mode front.steps.length back.steps)
        (ex.runSteps mode 0 front.steps r) := by
    rw [cut.steps, runSteps_append, Nat.zero_add]
    rcases ex.runSteps mode 0 front.steps r with ⟨e | ⟨⟩, r₁⟩ <;> rfl
  rw [execute_of_hookless hookless, execute_of_hookless hookless, parts]
  apply andThen_related
  · intro r₁ r₁' even
    have resumed : Run.Even r₁ ({ r₁' with context := declare back r₁'.context }.announce back) := by
      rw [undeclared]
      exact ⟨even.context, even.state, (Run.calls_enter_report r₁' _ _).trans even.calls⟩
    rw [execute_of_hookless hookless]
    exact even_runSteps hookless front.steps.length 0 back.steps resumed
  · exact even_runSteps hookless 0 0 front.steps begun

/-- **A pipeline comes to what its parts come to.** Without hooks, running the whole gives the same
result, leaves the same context and the same states of the handlers, and makes the same calls as
running the first part and, unless that fails, the second on what the first has left. If the parts
are run at other times, everything but times is the same. -/
theorem running_in_parts_is_running (hookless : ex.hooks = []) (mode : Mode)
    {whole front back : Pipeline} (cut : whole.Cut front back) (r : Run σ) :
    Side Run.Even (ex.execute mode whole r)
      (andThen (ex.execute mode back) (ex.execute mode front r)) ∧
    ∀ begun resumed : Instant,
      Side (Run.Alike .anonymous) (ex.execute mode whole r)
        (andThen (fun r => ex.execute mode back (r.atTime resumed))
          (ex.execute mode front (r.atTime begun))) := by
  refine ⟨even_execute hookless mode cut r, fun begun resumed => ?_⟩
  have follows : Follows (Run.Alike .anonymous) mode mode ex ex := by
    apply ex.follows_of_blind mode Context.view_anonymous
    rw [hookless]
    exact nofun
  have atOnce : Side (Run.Alike .anonymous) (ex.execute mode whole r)
      (andThen (ex.execute mode back) (ex.execute mode front r)) := by
    obtain ⟨result, even⟩ := even_execute hookless mode cut r
    exact ⟨result, congrArg Context.anonymous even.context, even.state, even.calls⟩
  have later : Side (Run.Alike .anonymous)
      (andThen (ex.execute mode back) (ex.execute mode front r))
      (andThen (fun r => ex.execute mode back (r.atTime resumed))
        (ex.execute mode front (r.atTime begun))) := by
    apply andThen_related
    · intro r r' alike
      exact follows.execute back (alike.trans (.atTime r' resumed))
    · exact follows.execute front (.atTime r begun)
  exact ⟨later.1.trans atOnce.1, atOnce.2.trans later.2⟩

/-- Counting without anyone who follows. -/
def countingAlone : Executor Nat :=
  { counting with hooks := [] }

/-- Three steps that count, and what they might count from. -/
def countOn : Pipeline where
  name := "count on"
  domain := some "numbers"
  vars := [("from", .ofNat 7)]
  steps := [{ atom := ⟨.source, "count", []⟩, onError := .retry },
    { atom := ⟨.source, "count", []⟩ },
    { atom := ⟨.source, "count", []⟩ }]

/-- Counting may be cut behind its first step, which fails and is tried again. -/
theorem counting_in_parts :
    let front : Pipeline := { countOn with name := "front", steps := countOn.steps.take 1 }
    let back : Pipeline := { name := "back", steps := countOn.steps.drop 1 }
    countingAlone.hooks = [] ∧ countOn.Cut front back ∧
    Side (Run.Alike .anonymous) (countingAlone.execute .waiting countOn ⟨{}, 0, []⟩)
      (andThen (fun r => countingAlone.execute .waiting back (r.atTime ⟨2000⟩))
        (countingAlone.execute .waiting front (Run.atTime ⟨{}, 0, []⟩ ⟨1000⟩))) ∧
    (countingAlone.execute .waiting countOn ⟨{}, 0, []⟩).2.context.stepCount = 3 := by
  intro front back
  have cut : countOn.Cut front back := ⟨rfl, rfl, rfl, rfl, rfl⟩
  have hookless : countingAlone.hooks = [] := rfl
  have parts := (running_in_parts_is_running hookless .waiting cut ⟨{}, 0, []⟩).2 ⟨1000⟩ ⟨2000⟩
  exact ⟨hookless, cut, parts, rfl⟩

end Executor

end Pipework
