import Pipework.Proofs.Run.Entries
import Pipework.Proofs.Run.Notices
import Pipework.Proofs.Run.Turns

/-!
# The order of a run in turns

Between two turns the journal of a run shows where the run is. It consists of parts: an opening, a
part for each step that has passed, in order, and what the run has entered for the step that it is at.
The part of a step has its whole block of callbacks, told to every hook, and all calls made for the
step; so the next step is announced when the step and its hooks have finished, and not before.

`Shows` says this for each point, and a turn keeps it, whatever the clock and the states of the
handlers are.
-/

namespace Pipework

variable {σ : Type}

/-! ## How a journal grows -/

namespace Journal

/-- The second journal has a part more. In it every hook is told these callbacks, and no handler is
called but that of the atom. -/
def Grows (hooks : Nat) (callbacks : List Callback) (atom : Option Atom) (j j' : Journal) : Prop :=
  ∃ part : Journal, j' = j ++ part ∧ part.notices = spread hooks callbacks ∧
    ∀ call ∈ part.calls, ∃ a ∈ atom, call.1 = a.type ∧ call.2.1 = a.action

variable {hooks : Nat} {callbacks callbacks' : List Callback} {atom : Option Atom}
  {j j' j'' : Journal}

/-- Nothing has happened. -/
theorem grows_refl (hooks : Nat) (atom : Option Atom) (j : Journal) : Grows hooks [] atom j j :=
  ⟨[], (List.append_nil j).symm, rfl, nofun⟩

/-- One part after the other is one part. -/
theorem Grows.trans (first : Grows hooks callbacks atom j j')
    (second : Grows hooks callbacks' atom j' j'') :
    Grows hooks (callbacks ++ callbacks') atom j j'' := by
  obtain ⟨part, rfl, told, called⟩ := first
  obtain ⟨part', rfl, told', called'⟩ := second
  refine ⟨part ++ part', List.append_assoc _ _ _, ?_, fun call mem => ?_⟩
  · rw [notices_append, told, told', spread_append]
  · rw [calls_append] at mem
    exact (List.mem_append.mp mem).elim (called call) (called' call)

/-- A part without calls, by what the hooks were told before and after. -/
theorem grows_of_silent {part : Journal} (silent : part.calls = []) (grown : j' = j ++ part)
    (told : j'.notices = j.notices ++ spread hooks callbacks) (atom : Option Atom) :
    Grows hooks callbacks atom j j' := by
  subst grown
  rw [notices_append] at told
  refine ⟨part, rfl, List.append_cancel_left told, fun call mem => ?_⟩
  rw [silent] at mem
  cases mem

end Journal

namespace Run

variable (hooks : List (Hook σ)) (atom : Option Atom) (index : Nat) (step : Step)
  (e : PipelineError) (r : Run σ)

/-- A line that is reported tells the hooks nothing. -/
theorem grows_report (level : LogLevel) (message : String) :
    Journal.Grows hooks.length [] atom r.journal (r.enter (.report level message)).journal :=
  ⟨[.report level message], rfl, rfl, nofun⟩

/-- Nor do several lines. -/
theorem grows_reportAll (lines : List Report) :
    Journal.Grows hooks.length [] atom r.journal (r.reportAll lines).journal := by
  have silent : Journal.calls (lines.map fun line => .signal (.report line)) = [] := by
    have signals := Journal.calls_signals (lines.map .report)
    rwa [List.map_map] at signals
  have told : (r.reportAll lines).journal.notices =
      r.journal.notices ++ spread hooks.length [] :=
    (notices_reportAll r lines).trans (List.append_nil _).symm
  exact Journal.grows_of_silent silent rfl told atom

/-- Every hook is told the callback, and none of them calls a handler. -/
theorem grows_notify (callback : Callback) :
    Journal.Grows hooks.length [callback] atom r.journal (r.notify hooks callback).journal := by
  have grown : ∃ part : Journal, (r.notify hooks callback).journal = r.journal ++ part ∧
      part.calls = [] := by
    apply notify_preserves (P := fun told => ∃ part : Journal, told.journal = r.journal ++ part ∧
      part.calls = [])
    · rintro hook - place told ⟨part, grown, silent⟩
      have added : (told.tell callback (hook, place)).journal = told.journal ++
        .notice place callback :: (hook.react callback told.context told.state).signals.map .signal :=
        rfl
      refine ⟨_, by rw [added, grown, List.append_assoc], ?_⟩
      rw [Journal.calls_append, silent]
      exact Journal.calls_signals _
    · exact ⟨[], (List.append_nil _).symm, rfl⟩
  obtain ⟨part, grown, silent⟩ := grown
  exact Journal.grows_of_silent silent grown (notices_notify hooks callback r) atom

/-- The hooks are told of a failure before it is recorded. -/
theorem grows_recordFailure :
    Journal.Grows hooks.length [.onError index step e] atom r.journal
      (r.recordFailure hooks index step e).journal :=
  grows_notify hooks atom r (.onError index step e)

/-- Ending a run at a step tells the hooks of the failure. -/
theorem grows_stopAt :
    Journal.Grows hooks.length [.onError index step e] atom r.journal
      (r.stopAt hooks index step e).2.journal :=
  (grows_recordFailure hooks atom index step e r).trans (grows_report hooks atom _ _ _)

/-- Skipping a step tells the hooks of the failure. -/
theorem grows_skipOver :
    Journal.Grows hooks.length [.onError index step e] atom r.journal
      (r.skipOver hooks index step e).2.journal :=
  (grows_recordFailure hooks atom index step e r).trans (grows_report hooks atom _ _ _)

/-- The hooks are told of a second attempt. -/
theorem grows_announceRetry :
    Journal.Grows hooks.length [.onRetry index step] atom r.journal
      (r.announceRetry hooks index step).journal :=
  (grows_report hooks atom r _ _).trans (grows_notify hooks atom _ (.onRetry index step))

/-- The hooks are told that a step has completed. -/
theorem grows_complete (value : Option Json) :
    Journal.Grows hooks.length [.afterStep index step (replacing value)] atom r.journal
      (r.complete hooks index step value).2.journal :=
  grows_notify hooks atom _ _

end Run

/-- An attempt tells the hooks nothing and calls no other handler. -/
theorem Task.grows_attempt (t : Task σ) (hooks : Nat) (mode : Mode)
    (prepared : Except PipelineError Params) (r : Run σ) :
    Journal.Grows hooks [] (some t.step.atom) r.journal (t.attempt mode prepared r).2.journal := by
  unfold attempt
  cases prepared with
  | error e => exact Journal.grows_refl _ _ _
  | ok params =>
    simp only [invoke]
    split
    · exact Journal.grows_refl _ _ _
    · refine ⟨[.call t.step.atom.type t.step.atom.action params], rfl, rfl, fun call mem => ?_⟩
      obtain rfl := List.mem_singleton.mp mem
      exact ⟨t.step.atom, rfl, rfl, rfl⟩

/-! ## What the journal shows at a point -/

namespace Executor

/-- The journal has the opening of the pipeline and the parts of these steps, one behind the other;
the last of them may have failed so that the run has to end. -/
inductive Passed (hooks : Nat) (p : Pipeline) :
    List Step → Option PipelineError → Journal → Prop
  | opened {j j' : Journal} (quiet : Journal.Grows hooks [] none [] j)
      (opening : Journal.Grows hooks [.beforePipeline p] none j j') : Passed hooks p [] none j'
  | step {steps : List Step} {j j' : Journal} {step : Step} {passage : Passage}
      (earlier : Passed hooks p steps none j)
      (block : Journal.Grows hooks (passage.callbacks steps.length step) (some step.atom) j j') :
      Passed hooks p (steps ++ [step]) passage.failure j'

/-- The steps in front have passed, this one is being run, and these are behind it. Of the step the
hooks have been told these callbacks so far. -/
def During (hooks : Nat) (p : Pipeline) (index : Nat) (step : Step) (rest : List Step)
    (callbacks : List Callback) (j : Journal) : Prop :=
  ∃ (gone : List Step) (before : Journal), p.steps = gone ++ step :: rest ∧
    index = gone.length ∧ Passed hooks p gone none before ∧
    Journal.Grows hooks callbacks (some step.atom) before j

/-- No step is to come: all have passed, or the last that did has failed with the result. -/
inductive Spent (hooks : Nat) (p : Pipeline) : Except PipelineError Unit → Journal → Prop
  | all {j : Journal} (passed : Passed hooks p p.steps none j) : Spent hooks p (.ok ()) j
  | failed {gone : List Step} {e : PipelineError} {j : Journal}
      (passed : Passed hooks p gone (some e) j) (front : gone <+: p.steps) :
      Spent hooks p (.error e) j

variable {ex : Executor σ} {mode : Mode}

/-- What the journal shows of a run at a point. -/
def Point.Shows (j : Journal) : Point ex → Prop
  | .unread _ | .unbegun _ => Journal.Grows ex.hooks.length [] none [] j
  | .between p index steps =>
    ∃ gone, p.steps = gone ++ steps ∧ index = gone.length ∧ Passed ex.hooks.length p gone none j
  | .first p t _ rest => During ex.hooks.length p t.index t.step rest [.beforeStep t.index t.step] j
  | .second p t _ rest =>
    ∃ e, During ex.hooks.length p t.index t.step rest
      [.beforeStep t.index t.step, .onError t.index t.step e, .onRetry t.index t.step] j
  | .spent p result => Spent ex.hooks.length p result j
  | .ended result =>
    -- A script that was not read, or a pipeline of which the hooks were told the end.
    (∃ e, result = .error e ∧ Journal.Grows ex.hooks.length [] none [] j) ∨
    ∃ p before, Spent ex.hooks.length p result before ∧
      Journal.Grows ex.hooks.length [.afterPipeline p result] none before j

/-- A step that has passed adds its part. -/
theorem During.leave {p : Pipeline} {index : Nat} {step : Step} {rest : List Step}
    {callbacks more : List Callback} {j : Journal} {given : Except PipelineError Unit × Run σ}
    (during : During ex.hooks.length p index step rest callbacks j) (passage : Passage)
    (whole : callbacks ++ more = passage.callbacks index step)
    (grown : Journal.Grows ex.hooks.length more (some step.atom) j given.2.journal)
    (result : given.1 = passage.result) :
    (ex.leave p index rest given).1.Shows (ex.leave p index rest given).2.journal := by
  obtain ⟨gone, before, split, place, passed, part⟩ := during
  have block := part.trans grown
  rw [whole, place] at block
  have next := passed.step block
  obtain ⟨result', r⟩ := given
  obtain rfl : result' = passage.result := result
  cases failure : passage.failure with
  | none =>
    rw [failure] at next
    rw [Passage.result_eq_ok.mpr failure]
    exact ⟨gone ++ [step], by rw [split, List.append_assoc]; rfl,
      by rw [place, List.length_append]; rfl, next⟩
  | some e =>
    rw [failure] at next
    rw [Passage.result_eq_error.mpr failure]
    exact .failed next ⟨rest, by rw [split, List.append_assoc]; rfl⟩

/-! ## Turns -/

/-- Behind its first attempt a step has passed, or waits for the second. -/
theorem shows_leaveFirst {p : Pipeline} {t : ex.Served} {rest : List Step}
    (prepared : Except PipelineError Params) {tried : Except PipelineError (Option Json) × Run σ}
    (during : During ex.hooks.length p t.index t.step rest [.beforeStep t.index t.step]
      tried.2.journal) :
    (ex.leaveFirst p t prepared rest tried).1.Shows
      (ex.leaveFirst p t prepared rest tried).2.journal := by
  rcases tried with ⟨e | value, r⟩
  · simp only [leaveFirst]
    cases t.step.policyFor e with
    | stop => exact during.leave (.stopped e) rfl (Run.grows_stopAt ex.hooks _ t.index t.step e r) rfl
    | skip =>
      exact during.leave (.skipped e) rfl (Run.grows_skipOver ex.hooks _ t.index t.step e r) rfl
    | retry =>
      obtain ⟨gone, before, split, place, passed, part⟩ := during
      have failed := Run.grows_recordFailure ex.hooks (some t.step.atom) t.index t.step e r
      have announced := Run.grows_announceRetry ex.hooks (some t.step.atom) t.index t.step
        (r.recordFailure ex.hooks t.index t.step e)
      exact ⟨e, gone, before, split, place, passed, (part.trans failed).trans announced⟩
  · exact during.leave (.completed (replacing value)) rfl
      (Run.grows_complete ex.hooks _ t.index t.step r value) rfl

/-- Behind its second attempt a step has passed. -/
theorem shows_leaveSecond {p : Pipeline} {t : ex.Served} {rest : List Step} {e : PipelineError}
    {tried : Except PipelineError (Option Json) × Run σ}
    (during : During ex.hooks.length p t.index t.step rest
      [.beforeStep t.index t.step, .onError t.index t.step e, .onRetry t.index t.step]
      tried.2.journal) :
    let left := ex.leave p t.index rest (t.afterSecond ex.hooks tried)
    left.1.Shows left.2.journal := by
  rcases tried with ⟨e' | value, r⟩
  · exact during.leave (.stoppedAgain e e') rfl
      (Run.grows_stopAt ex.hooks _ t.index t.step e' r) rfl
  · exact during.leave (.recovered e (replacing value)) rfl
      (Run.grows_complete ex.hooks _ t.index t.step r value) rfl

/-- A step that is tried is still being run. -/
theorem During.attempt {p : Pipeline} {t : Task σ} {rest : List Step} {callbacks : List Callback}
    {hooks : Nat} {r : Run σ} (during : During hooks p t.index t.step rest callbacks r.journal)
    (prepared : Except PipelineError Params) :
    During hooks p t.index t.step rest callbacks (t.attempt mode prepared r).2.journal := by
  obtain ⟨gone, before, split, place, passed, part⟩ := during
  have grown := part.trans (t.grows_attempt hooks mode prepared r)
  rw [List.append_nil] at grown
  exact ⟨gone, before, split, place, passed, grown⟩

/-- **A turn keeps the order**: the journal shows where the run is before it, and after it. -/
theorem shows_advance (point : Point ex) (r : Run σ) (shows : point.Shows r.journal) :
    (ex.advance mode point r).1.Shows (ex.advance mode point r).2.journal := by
  cases point with
  | unread text =>
    have quiet := Journal.Grows.trans shows
      (Run.grows_reportAll ex.hooks none r (Script.read ex.unknownTypes text).reports)
    simp only [advance]
    cases (Script.read ex.unknownTypes text).result with
    | error e => exact .inl ⟨e, rfl, quiet⟩
    | ok p => exact quiet
  | unbegun p =>
    have line := Run.grows_report ex.hooks none { r with context := declare p r.context } .debug
      ("Executing pipeline '" ++ p.name ++ "' (" ++ toString p.steps.length ++ " steps) as " ++
        (declare p r.context).id.text)
    have opening := line.trans (Run.grows_notify ex.hooks none _ (.beforePipeline p))
    exact ⟨[], rfl, rfl, .opened shows opening⟩
  | between p index steps =>
    obtain ⟨gone, split, place, passed⟩ := shows
    cases steps with
    | nil =>
      rw [List.append_nil] at split
      subst split
      exact .all passed
    | cons step rest =>
      have entered := Run.grows_notify ex.hooks (some step.atom)
        { r with context := r.context.enterStep } (.beforeStep index step)
      have during : During ex.hooks.length p index step rest [.beforeStep index step]
        (ex.enter index step r).journal := ⟨gone, r.journal, split, place, passed, entered⟩
      cases found : ex.registry.lookup step.atom.type step.atom.action with
      | none =>
        simp only [advance, serve?_of_missing index found]
        exact during.leave (.stopped _) rfl (Run.grows_stopAt ex.hooks _ index step _ _) rfl
      | some atom =>
        simp only [advance, serve?_of_found index found]
        exact during
  | first p t prepared rest => exact shows_leaveFirst prepared (During.attempt shows prepared)
  | second p t prepared rest =>
    obtain ⟨e, during⟩ := shows
    exact shows_leaveSecond (during.attempt prepared)
  | spent p result => exact .inr ⟨p, r.journal, shows, Run.grows_notify ex.hooks none r _⟩
  | ended result => exact shows

end Executor

end Pipework
