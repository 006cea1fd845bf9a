import Pipework.Proofs.Run.Simulation

/-!
# A run in turns

A run that waits for its handlers is not made at one stroke. It is given turns, and between two of
them it is at a `Point`: it has a script to read, a pipeline to begin, steps to come to, or a handler
to call, for the first time or again. A turn calls one handler at most. Whatever the run needs for
its next turn is in its point: the step it is at, the handler found for it, and the parameters that
were prepared for the call and that a second call is made with.

`finish` is what a run comes to from a point when nothing interrupts it. A turn does not change what
the run comes to, and every turn but those of an ended run brings it nearer to its end, so turns in
sufficient number make the whole run.
-/

namespace Pipework

variable {σ : Type}

namespace Executor

/-- A step that has been announced and its handler. -/
structure Served (ex : Executor σ) extends Task σ where
  found : ex.registry.lookup step.atom.type step.atom.action = some atom

/-- The step at its place, if there is a handler for it. -/
def serve? (ex : Executor σ) (index : Nat) (step : Step) : Option ex.Served :=
  match found : ex.registry.lookup step.atom.type step.atom.action with
  | some atom => some ⟨⟨index, step, atom⟩, found⟩
  | none => none

/-- A step whose handler is registered is served. -/
theorem serve?_of_found {ex : Executor σ} {step : Step} {atom : Registered σ} (index : Nat)
    (found : ex.registry.lookup step.atom.type step.atom.action = some atom) :
    ex.serve? index step = some ⟨⟨index, step, atom⟩, found⟩ := by
  unfold serve?
  split
  next there =>
    obtain rfl : atom = _ := Option.some.inj (found.symm.trans there)
    rfl
  next missing => cases found.symm.trans missing

/-- A step without a handler is not. -/
theorem serve?_of_missing {ex : Executor σ} {step : Step} (index : Nat)
    (missing : ex.registry.lookup step.atom.type step.atom.action = none) :
    ex.serve? index step = none := by
  unfold serve?
  split
  next found => cases found.symm.trans missing
  next => rfl

/-- Where a run is between two turns. -/
inductive Point (ex : Executor σ) where
  | unread (text : String)
  | unbegun (p : Pipeline)
  /-- These steps are still to come, the first of them at this place. -/
  | between (p : Pipeline) (index : Nat) (steps : List Step)
  /-- The handler of a step is to be called with what was prepared for it. -/
  | first (p : Pipeline) (t : ex.Served) (prepared : Except PipelineError Params) (rest : List Step)
  /-- The step has failed once and has been announced again. -/
  | second (p : Pipeline) (t : ex.Served) (prepared : Except PipelineError Params) (rest : List Step)
  /-- No step is to come, and the hooks have to be told of the end. -/
  | spent (p : Pipeline) (result : Except PipelineError Unit)
  | ended (result : Except PipelineError Unit)

end Executor

namespace Task

/-- What becomes of a step whose first attempt, with these parameters, has given this. -/
def afterFirst (t : Task σ) (hooks : List (Hook σ)) (mode : Mode)
    (prepared : Except PipelineError Params) :
    Except PipelineError (Option Json) × Run σ → Except PipelineError Unit × Run σ
  | (.ok value, r) => r.complete hooks t.index t.step value
  | (.error e, r) =>
    match t.step.policyFor e with
    | .stop => r.stopAt hooks t.index t.step e
    | .skip => r.skipOver hooks t.index t.step e
    | .retry => t.retry hooks mode prepared (r.recordFailure hooks t.index t.step e)

/-- What becomes of a step whose second attempt has given this. -/
def afterSecond (t : Task σ) (hooks : List (Hook σ)) :
    Except PipelineError (Option Json) × Run σ → Except PipelineError Unit × Run σ
  | (.ok value, r) => r.complete hooks t.index t.step value
  | (.error e, r) => r.stopAt hooks t.index t.step e

end Task

namespace Executor

variable (ex : Executor σ) (mode : Mode)

/-! ## Turns -/

/-- The point behind a step, by what the step gives the run. -/
def leave (p : Pipeline) (index : Nat) (rest : List Step) :
    Except PipelineError Unit × Run σ → Point ex × Run σ
  | (.ok (), r) => (.between p (index + 1) rest, r)
  | (.error e, r) => (.spent p (.error e), r)

/-- The point behind the first attempt of a step. A step to be tried again keeps its parameters. -/
def leaveFirst (p : Pipeline) (t : ex.Served) (prepared : Except PipelineError Params)
    (rest : List Step) : Except PipelineError (Option Json) × Run σ → Point ex × Run σ
  | (.ok value, r) => ex.leave p t.index rest (r.complete ex.hooks t.index t.step value)
  | (.error e, r) =>
    match t.step.policyFor e with
    | .stop => ex.leave p t.index rest (r.stopAt ex.hooks t.index t.step e)
    | .skip => ex.leave p t.index rest (r.skipOver ex.hooks t.index t.step e)
    | .retry =>
      let r := (r.recordFailure ex.hooks t.index t.step e).announceRetry ex.hooks t.index t.step
      (.second p t (t.preparedOr prepared r.context) rest, r)

/-- One turn. -/
def advance : Point ex → Run σ → Point ex × Run σ
  | .unread text, r =>
    let read := Script.read ex.unknownTypes text
    let r := r.reportAll read.reports
    match read.result with
    | .ok p => (.unbegun p, r)
    | .error e => (.ended (.error e), r)
  | .unbegun p, r => (.between p 0 p.steps, ex.start p r)
  | .between p _ [], r => (.spent p (.ok ()), r)
  | .between p index (step :: rest), r =>
    let r := ex.enter index step r
    match ex.serve? index step with
    | some t => (.first p t (t.prepare r.context) rest, r)
    | none => ex.leave p index rest
      (r.stopAt ex.hooks index step (.unknownAtom step.atom.type.name step.atom.action))
  | .first p t prepared rest, r => ex.leaveFirst p t prepared rest (t.attempt mode prepared r)
  | .second p t prepared rest, r =>
    ex.leave p t.index rest (t.afterSecond ex.hooks (t.attempt mode prepared r))
  | .spent p result, r => (.ended result, r.notify ex.hooks (.afterPipeline p result))
  | .ended result, r => (.ended result, r)

/-! ## What turns come to -/

/-- The end of a run, when its steps have given this. -/
def close (p : Pipeline) : Except PipelineError Unit × Run σ → Except PipelineError Unit × Run σ
  | (result, r) => (result, r.notify ex.hooks (.afterPipeline p result))

/-- The rest of a run, when a step has given this. -/
def resume (p : Pipeline) (index : Nat) (rest : List Step)
    (given : Except PipelineError Unit × Run σ) : Except PipelineError Unit × Run σ :=
  ex.close p (andThen (ex.runSteps mode (index + 1) rest) given)

/-- What the run comes to from a point. -/
def finish : Point ex → Run σ → Except PipelineError Unit × Run σ
  | .unread text, r => ex.executeText mode text r
  | .unbegun p, r => ex.execute mode p r
  | .between p index steps, r => ex.close p (ex.runSteps mode index steps r)
  | .first p t prepared rest, r =>
    ex.resume mode p t.index rest (t.afterFirst ex.hooks mode prepared (t.attempt mode prepared r))
  | .second p t prepared rest, r =>
    ex.resume mode p t.index rest (t.afterSecond ex.hooks (t.attempt mode prepared r))
  | .spent p result, r => ex.close p (result, r)
  | .ended result, r => (result, r)

/-- What the run comes to behind a step is what it comes to when it resumes there. -/
theorem finish_leave (p : Pipeline) (index : Nat) (rest : List Step)
    (given : Except PipelineError Unit × Run σ) :
    ex.finish mode (ex.leave p index rest given).1 (ex.leave p index rest given).2 =
      ex.resume mode p index rest given := by
  rcases given with ⟨e | ⟨⟩, r⟩ <;> rfl

/-- A run that is left behind a first attempt ends as one that makes the second itself. -/
theorem finish_leaveFirst (p : Pipeline) (t : ex.Served) (prepared : Except PipelineError Params)
    (rest : List Step) (tried : Except PipelineError (Option Json) × Run σ) :
    ex.finish mode (ex.leaveFirst p t prepared rest tried).1
        (ex.leaveFirst p t prepared rest tried).2 =
      ex.resume mode p t.index rest (t.afterFirst ex.hooks mode prepared tried) := by
  rcases tried with ⟨e | value, r⟩
  · simp only [leaveFirst, Task.afterFirst]
    cases t.step.policyFor e with
    | stop => exact ex.finish_leave mode p t.index rest _
    | skip => exact ex.finish_leave mode p t.index rest _
    | retry => rfl
  · exact ex.finish_leave mode p t.index rest _

/-- **A turn does not change what the run comes to.** -/
theorem finish_advance (point : Point ex) (r : Run σ) :
    ex.finish mode (ex.advance mode point r).1 (ex.advance mode point r).2 =
      ex.finish mode point r := by
  cases point with
  | unread text =>
    simp only [advance, finish, executeText]
    cases (Script.read ex.unknownTypes text).result <;> rfl
  | unbegun p => rfl
  | between p index steps =>
    cases steps with
    | nil => rfl
    | cons step rest =>
      have next : ex.finish mode (.between p index (step :: rest)) r =
          ex.resume mode p index rest (ex.runStep mode index step r) :=
        congrArg (ex.close p) (ex.runSteps_cons mode index step rest r)
      rw [next]
      cases found : ex.registry.lookup step.atom.type step.atom.action with
      | none =>
        rw [runStep_of_missing found, ← finish_leave]
        simp only [advance, serve?_of_missing index found]
      | some atom =>
        rw [runStep_of_found found]
        simp only [advance, serve?_of_found index found]
        rfl
  | first p t prepared rest => exact ex.finish_leaveFirst mode p t prepared rest _
  | second p t prepared rest => exact ex.finish_leave mode p t.index rest _
  | spent p result => rfl
  | ended result => rfl

/-! ## How many turns -/

variable {ex}

/-- As many turns as there can be from a point. A step takes one to be announced and up to two for
its calls; a run takes one to be begun, one to see that no step is left, and one to end. -/
def Point.turns : Point ex → Nat
  | .unread text =>
    match (Script.read ex.unknownTypes text).result with
    | .ok p => 3 * p.steps.length + 4
    | .error _ => 1
  | .unbegun p => 3 * p.steps.length + 3
  | .between _ _ steps => 3 * steps.length + 2
  | .first _ _ _ rest => 3 * rest.length + 4
  | .second _ _ _ rest => 3 * rest.length + 3
  | .spent _ _ => 1
  | .ended _ => 0

/-- A run that has no turns left has ended. -/
theorem Point.exists_ended {point : Point ex} (none : point.turns = 0) :
    ∃ result, point = .ended result := by
  cases point with
  | unread text =>
    simp only [turns] at none
    split at none
    · omega
    · cases none
  | unbegun | between | first | second | spent => cases none
  | ended result => exact ⟨result, rfl⟩

/-- Behind a step each of those that are left takes three turns at most, and the end two. -/
theorem turns_leave (ex : Executor σ) (p : Pipeline) (index : Nat) (rest : List Step)
    (given : Except PipelineError Unit × Run σ) :
    (ex.leave p index rest given).1.turns ≤ 3 * rest.length + 2 := by
  rcases given with ⟨e | ⟨⟩, r⟩
  · exact Nat.le_add_left 1 _
  · exact Nat.le_refl _

/-- A second attempt takes one turn more. -/
theorem turns_leaveFirst (p : Pipeline) (t : ex.Served) (prepared : Except PipelineError Params)
    (rest : List Step) (tried : Except PipelineError (Option Json) × Run σ) :
    (ex.leaveFirst p t prepared rest tried).1.turns ≤ 3 * rest.length + 3 := by
  have left given := Nat.le_succ_of_le (turns_leave ex p t.index rest given)
  rcases tried with ⟨e | value, r⟩
  · simp only [leaveFirst]
    cases t.step.policyFor e with
    | stop => exact left _
    | skip => exact left _
    | retry => exact Nat.le_refl _
  · exact left _

/-- **A turn is one turn fewer to come**, unless the run has ended. -/
theorem turns_advance (point : Point ex) (r : Run σ) :
    (ex.advance mode point r).1.turns ≤ point.turns - 1 := by
  cases point with
  | unread text =>
    simp only [advance, Point.turns]
    cases (Script.read ex.unknownTypes text).result <;> exact Nat.le_refl _
  | unbegun p => exact Nat.le_refl _
  | between p index steps =>
    cases steps with
    | nil => exact Nat.le_refl _
    | cons step rest =>
      show (ex.advance mode (.between p index (step :: rest)) r).1.turns ≤
        3 * (rest.length + 1) + 2 - 1
      simp only [advance]
      cases ex.serve? index step with
      | none =>
        have fewer := turns_leave ex p index rest
          ((ex.enter index step r).stopAt ex.hooks index step
            (.unknownAtom step.atom.type.name step.atom.action))
        simp only
        omega
      | some t => exact Nat.le_refl _
  | first p t prepared rest => exact turns_leaveFirst p t prepared rest _
  | second p t prepared rest => exact turns_leave ex p t.index rest _
  | spent p result => exact Nat.le_refl _
  | ended result => exact Nat.le_refl _

/-! ## Turns of related runs -/

namespace Follows

variable {rel : Run σ → Run σ → Prop} {mode : Mode} {r r' : Run σ}

/-- Runs that are related leave a step at the same point. -/
theorem leave {p : Pipeline} {index : Nat} {rest : List Step}
    {given given' : Except PipelineError Unit × Run σ} (same : Side rel given given') :
    Side rel (ex.leave p index rest given) (ex.leave p index rest given') := by
  obtain ⟨result, r⟩ := given
  obtain ⟨result', r'⟩ := given'
  obtain ⟨rfl, related⟩ := same
  rcases result' with e | ⟨⟩ <;> exact ⟨rfl, related⟩

/-- A second attempt with the same outcome ends its step alike. -/
theorem afterSecond (f : Follows rel mode mode ex ex) {t : Task σ}
    {tried tried' : Except PipelineError (Option Json) × Run σ} (same : Side rel tried tried') :
    Side rel (t.afterSecond ex.hooks tried) (t.afterSecond ex.hooks tried') := by
  obtain ⟨outcome, r⟩ := tried
  obtain ⟨outcome', r'⟩ := tried'
  obtain ⟨rfl, related⟩ := same
  cases outcome' with
  | error e => exact f.stopAt t.index t.step e related
  | ok value => exact f.complete t.index t.step value related

/-- A first attempt with the same outcome leads to the same point. -/
theorem leaveFirst (f : Follows rel mode mode ex ex) {p : Pipeline} {t : ex.Served}
    {rest : List Step} (prepared : Except PipelineError Params)
    {tried tried' : Except PipelineError (Option Json) × Run σ} (same : Side rel tried tried') :
    Side rel (ex.leaveFirst p t prepared rest tried) (ex.leaveFirst p t prepared rest tried') := by
  obtain ⟨outcome, r⟩ := tried
  obtain ⟨outcome', r'⟩ := tried'
  obtain ⟨rfl, related⟩ := same
  cases outcome' with
  | error e =>
    simp only [Executor.leaveFirst]
    cases t.step.policyFor e with
    | stop => exact leave (f.stopAt t.index t.step e related)
    | skip => exact leave (f.skipOver t.index t.step e related)
    | retry =>
      have again := f.announceRetry t.index t.step (f.recordFailure t.index t.step e related)
      have fresh : t.prepare _ = t.prepare _ :=
        f.prepare (f.matches_self t.found) t.index t.step again
      simp only [Task.preparedOr, fresh]
      exact ⟨rfl, again⟩
  | ok value => exact leave (f.complete t.index t.step value related)

/-- **Related runs go on to the same point**, and stay related. -/
theorem advance (f : Follows rel mode mode ex ex) (point : Point ex) (h : rel r r') :
    Side rel (ex.advance mode point r) (ex.advance mode point r') := by
  cases point with
  | unread text =>
    have begun := f.reportAll (Script.read ex.unknownTypes text).reports h
    simp only [Executor.advance]
    cases (Script.read ex.unknownTypes text).result <;> exact ⟨rfl, begun⟩
  | unbegun p => exact ⟨rfl, f.start p h⟩
  | between p index steps =>
    cases steps with
    | nil => exact ⟨rfl, h⟩
    | cons step rest =>
      have entered := f.enter index step h
      simp only [Executor.advance]
      cases ex.serve? index step with
      | none => exact leave (f.stopAt index step _ entered)
      | some t =>
        have prepared : t.prepare _ = t.prepare _ :=
          f.prepare (f.matches_self t.found) t.index t.step entered
        simp only [prepared]
        exact ⟨rfl, entered⟩
  | first p t prepared rest =>
    exact f.leaveFirst prepared (attempt (f.matches_self t.found) t.index t.step prepared h)
  | second p t prepared rest =>
    have tried := attempt (f.matches_self t.found) t.index t.step prepared h
    exact leave (f.afterSecond tried)
  | spent p result => exact ⟨rfl, f.notified _ _ _ h⟩
  | ended result => exact ⟨rfl, h⟩

/-- Related runs come to the same from a point. -/
theorem finish (f : Follows rel mode mode ex ex) (point : Point ex) (h : rel r r') :
    Side rel (ex.finish mode point r) (ex.finish mode point r') := by
  -- By the turns that are left: a turn of both is made, and changes nothing they come to.
  induction left : point.turns using Nat.strongRecOn generalizing point r r' with
  | ind n ih =>
    by_cases none : n = 0
    · obtain ⟨result, rfl⟩ := Point.exists_ended (left.trans none)
      exact ⟨rfl, h⟩
    · obtain ⟨samePoint, related⟩ := f.advance point h
      have fewer := turns_advance mode point r
      rw [← ex.finish_advance mode point r, ← ex.finish_advance mode point r', samePoint]
      exact ih _ (by omega) _ related rfl

end Follows

end Executor

end Pipework
