import Pipework.Proofs.Run.Alike
import Pipework.Proofs.Run.Order

/-!
# Runs that share an executor

Any number of runs may be under way with one executor. Each has a point, a context and a journal of
its own; what they share is the executor and the state of its handlers and hooks. A schedule gives
them turns in any order, and in between the clock moves on as it likes.

Where handlers and hooks keep no state, the runs do not meet anywhere. All that a schedule is to one
of them is its own turns, and these come to what they come to when it is alone. So it ends as a run
that is made at one stroke, and its steps keep their order.
-/

namespace Pipework

variable {σ : Type}

/-- A handler that neither sees nor changes the state. -/
def Handler.Stateless (handler : Handler σ) : Prop :=
  ∀ (call : Call σ) (state : σ), handler.run { call with state } = { handler.run call with state }

/-- A hook that neither sees nor changes the state. -/
def Hook.Stateless (hook : Hook σ) : Prop :=
  ∀ callback c (state state' : σ),
    hook.react callback c state' = { hook.react callback c state with state := state' }

/-- Nothing is kept outside the contexts. -/
structure Executor.Stateless (ex : Executor σ) : Prop where
  handlers : ∀ type action atom, ex.registry.lookup type action = some atom →
    atom.handler.Stateless
  hooks : ∀ hook ∈ ex.hooks, hook.Stateless

/-! ## The state does not matter -/

/-- The runs have these states, and differ in nothing else. -/
structure Run.Apart (state state' : σ) (r r' : Run σ) : Prop where
  context : r'.context = r.context
  journal : r'.journal = r.journal
  state : r.state = state
  state' : r'.state = state'

namespace Run.Apart

variable {state state' : σ} {r r' : Run σ}

theorem enter (apart : Apart state state' r r') (entry : Entry) :
    Apart state state' (r.enter entry) (r'.enter entry) :=
  ⟨apart.context, by simp only [Run.enter, apart.journal], apart.state, apart.state'⟩

theorem tell {hook : Hook σ} (stateless : hook.Stateless) (callback : Callback) (place : Nat)
    (apart : Apart state state' r r') :
    Apart state state' (r.tell callback (hook, place)) (r'.tell callback (hook, place)) := by
  have same := stateless callback r.context r.state r'.state
  have kept := congrArg Reaction.state (stateless callback r.context r.state r.state)
  refine ⟨?_, ?_, kept.trans apart.state, ?_⟩
  · simp only [Run.tell, apart.context, same]
  · simp only [Run.tell, apart.context, apart.journal, same]
  · simp only [Run.tell, apart.context, same]
    exact apart.state'

end Run.Apart

/-- **Runs in different states stay apart**, whatever the executor does, if it keeps no state. -/
theorem Executor.Stateless.follows {ex : Executor σ} (stateless : ex.Stateless) (mode : Mode)
    (state state' : σ) : Follows (Run.Apart state state') mode mode ex ex where
  sameVars _ _ apart := by rw [apart.context]
  edited _ _ _ _ apart :=
    ⟨by simp only [apart.context], apart.journal, apart.state, apart.state'⟩
  announced _ r r' apart := by
    unfold Run.announce
    rw [apart.context]
    exact apart.enter _
  reported _ _ _ _ apart := apart.enter _
  notified callback _ _ :=
    Run.notify_related fun hook mem place _ _ apart =>
      apart.tell (stateless.hooks hook mem) callback place
  found type action := by
    cases found : ex.registry.lookup type action with
    | none => exact .none
    | some atom =>
      refine .some ⟨rfl, fun index step params r r' apart => ?_⟩
      have blank := stateless.handlers type action atom found
        ⟨params, r.context.domain, r.context.toMemory, r.state⟩
      simp only [Task.invoke]
      split
      · exact ⟨rfl, apart⟩
      · have same := blank r'.state
        have kept := congrArg Reply.state (blank r.state)
        simp only at same
        rw [apart.context, apart.journal, same]
        exact ⟨rfl, rfl, rfl, kept.trans apart.state, apart.state'⟩

namespace Executor

/-! ## Runs under way -/

/-- What is run: a script or a pipeline. -/
inductive Source where
  | script (text : String)
  | pipeline (p : Pipeline)

/-- A run of it at one stroke. -/
def runSource (ex : Executor σ) (mode : Mode) :
    Source → Run σ → Except PipelineError Unit × Run σ
  | .script text, r => ex.executeText mode text r
  | .pipeline p, r => ex.execute mode p r

/-- A run under way, without the state that it shares. -/
structure Strand (ex : Executor σ) where
  point : Point ex
  context : Context
  journal : Journal := []

variable (ex : Executor σ)

/-- A run that is to be made. -/
def strand (c : Context) : Source → Strand ex
  | .script text => { point := .unread text, context := c }
  | .pipeline p => { point := .unbegun p, context := c }

variable {ex}

namespace Strand

/-- The run in a state. -/
def run (s : Strand ex) (state : σ) : Run σ :=
  ⟨s.context, state, s.journal⟩

/-- The run as it is when the clock has been read. -/
def atTime (s : Strand ex) (time : Option Instant) : Strand ex :=
  { s with context := { s.context with now := time.getD s.context.now } }

/-- A turn, perhaps after the clock was read, and the state that it leaves. -/
def turn (s : Strand ex) (state : σ) (time : Option Instant) : Strand ex × σ :=
  let (point, r) := ex.advance .waiting s.point ((s.atTime time).run state)
  (⟨point, r.context, r.journal⟩, r.state)

/-- Turns of a run that is alone, each with what the clock showed. -/
def turns (s : Strand ex) (state : σ) (times : List (Option Instant)) : Strand ex × σ :=
  times.foldl (fun (s, state) time => s.turn state time) (s, state)

end Strand

/-- The run that is given a turn, by its place, and what the clock shows if it is read. -/
structure Dispatch where
  place : Nat
  time : Option Instant := none

/-- Runs that share an executor. -/
structure Shared (ex : Executor σ) where
  state : σ
  strands : List (Strand ex)

namespace Shared

/-- The run at the place is given a turn. -/
def dispatch (shared : Shared ex) (d : Dispatch) : Shared ex :=
  match shared.strands[d.place]? with
  | some s =>
    let (s, state) := s.turn shared.state d.time
    ⟨state, shared.strands.set d.place s⟩
  | none => shared

/-- All turns of a schedule. -/
def follow (shared : Shared ex) (schedule : List Dispatch) : Shared ex :=
  schedule.foldl dispatch shared

end Shared

/-- The turns of one run in a schedule. -/
def own (place : Nat) (schedule : List Dispatch) : List (Option Instant) :=
  (schedule.filter (·.place = place)).map (·.time)

/-! ## One run by itself -/

namespace Strand

/-- What a turn keeps, turns keep. -/
theorem turns_preserve {P : Strand ex → σ → Prop} {times : List (Option Instant)}
    (turn : ∀ time ∈ times, ∀ s state, P s state → P (s.turn state time).1 (s.turn state time).2)
    {s : Strand ex} {state : σ} (holds : P s state) :
    P (s.turns state times).1 (s.turns state times).2 := by
  induction times generalizing s state with
  | nil => exact holds
  | cons time times ih =>
    have first := turn time List.mem_cons_self s state holds
    exact ih (fun later mem => turn later (List.mem_cons_of_mem _ mem)) first

/-- A run that has had all its turns has ended. -/
theorem exists_ended {s : Strand ex} (state : σ) {times : List (Option Instant)}
    (enough : s.point.turns ≤ times.length) :
    ∃ result, (s.turns state times).1.point = .ended result := by
  induction times generalizing s state with
  | nil => exact Point.exists_ended (Nat.le_zero.mp enough)
  | cons time times ih =>
    have fewer := turns_advance .waiting s.point ((s.atTime time).run state)
    rw [List.length_cons] at enough
    apply ih
    show (ex.advance .waiting s.point ((s.atTime time).run state)).1.turns ≤ times.length
    omega

/-- Turns keep the order. -/
theorem shows_turns {s : Strand ex} (state : σ) (times : List (Option Instant))
    (shows : s.point.Shows s.journal) :
    (s.turns state times).1.point.Shows (s.turns state times).1.journal := by
  apply turns_preserve (P := fun s _ => s.point.Shows s.journal) _ shows
  intro time _ s state shows
  exact shows_advance s.point ((s.atTime time).run state) shows

/-- What the run comes to from here. -/
def comesTo (s : Strand ex) (state : σ) : Except PipelineError Unit × Run σ :=
  ex.finish .waiting s.point (s.run state)

/-- A turn does not change where the run comes to. -/
theorem comesTo_turn (s : Strand ex) (state : σ) (time : Option Instant) :
    (s.turn state time).1.comesTo (s.turn state time).2 = (s.atTime time).comesTo state :=
  ex.finish_advance .waiting s.point _

/-- Turns at one time do not change what the run comes to. -/
theorem comesTo_turns {times : List (Option Instant)} (still : ∀ time ∈ times, time = none)
    (s : Strand ex) (state : σ) :
    (s.turns state times).1.comesTo (s.turns state times).2 = s.comesTo state := by
  apply turns_preserve (P := fun s' state' => s'.comesTo state' = s.comesTo state) _ rfl
  intro time mem s' state' same
  rw [comesTo_turn, still time mem]
  exact same

/-- Turns at any times come to a run that is alike. -/
theorem alike_turns (blind : ∀ hook ∈ ex.hooks, hook.Blind .anonymous) {s : Strand ex} {state : σ}
    {lone : Except PipelineError Unit × Run σ}
    (alike : Side (Run.Alike .anonymous) lone (s.comesTo state))
    (times : List (Option Instant)) :
    Side (Run.Alike .anonymous) lone ((s.turns state times).1.comesTo (s.turns state times).2) := by
  apply turns_preserve _ alike
    (P := fun s' state' => Side (Run.Alike .anonymous) lone (s'.comesTo state'))
  rintro time - s' state' ⟨result, alike⟩
  obtain ⟨later, moved⟩ := (ex.follows_of_blind .waiting Context.view_anonymous blind).finish s'.point
    (Run.Alike.atTime (s'.run state') (time.getD s'.context.now))
  rw [comesTo_turn]
  exact ⟨later.trans result, alike.trans moved⟩

end Strand

namespace Stateless

variable (stateless : ex.Stateless) (s : Strand ex)

include stateless

/-- A turn leaves the state, and is the same in any state. -/
theorem turn_eq (state state' : σ) (time : Option Instant) :
    s.turn state' time = ((s.turn state time).1, state') := by
  have began : Run.Apart state state' ((s.atTime time).run state) ((s.atTime time).run state') :=
    ⟨rfl, rfl, rfl, rfl⟩
  obtain ⟨point, apart⟩ := (stateless.follows .waiting state state').advance s.point began
  simp only [Strand.turn, point, apart.context, apart.journal, apart.state']

/-- Turns of a run without state leave the state that others see as it is. -/
theorem turns_eq (state state' : σ) (times : List (Option Instant)) :
    s.turns state' times = ((s.turns state times).1, state') := by
  induction times generalizing s with
  | nil => rfl
  | cons time times ih =>
    have first := stateless.turn_eq s state state time
    have other := stateless.turn_eq s state state' time
    simp only [Strand.turns, List.foldl_cons] at ih ⊢
    rw [first, other]
    exact ih _

end Stateless

/-! ## Schedules -/

/-- The turns that a run gets on a schedule and a later one are those of both. -/
theorem own_append (place : Nat) (schedule later : List Dispatch) :
    own place (schedule ++ later) = own place schedule ++ own place later := by
  rw [own, List.filter_append, List.map_append]
  rfl

theorem own_self (d : Dispatch) : own d.place [d] = [d.time] := by
  simp only [own, List.filter_cons, decide_true, if_true, List.filter_nil, List.map_cons,
    List.map_nil]

theorem own_other {d : Dispatch} {place : Nat} (other : d.place ≠ place) : own place [d] = [] := by
  simp only [own, List.filter_cons, other, decide_false, Bool.false_eq_true, if_false,
    List.filter_nil, List.map_nil]

/-- **A dispatch is a turn of one run**, and nothing to the others. -/
theorem Stateless.dispatch_eq (stateless : ex.Stateless) (shared : Shared ex) (d : Dispatch) :
    (shared.dispatch d).state = shared.state ∧ ∀ (place : Nat) (state : σ),
      (shared.dispatch d).strands[place]? =
        shared.strands[place]?.map fun s => (s.turns state (own place [d])).1 := by
  cases here : shared.strands[d.place]? with
  | none =>
    have idle : shared.dispatch d = shared := by simp only [Shared.dispatch, here]
    rw [idle]
    refine ⟨rfl, fun place state => ?_⟩
    by_cases same : d.place = place
    · rw [← same, here]
      rfl
    · rw [own_other same]
      exact Option.map_id'.symm
  | some s =>
    have given : shared.dispatch d = ⟨(s.turn shared.state d.time).2,
        shared.strands.set d.place (s.turn shared.state d.time).1⟩ := by
      simp only [Shared.dispatch, here]
    rw [given]
    refine ⟨by rw [stateless.turn_eq s shared.state], fun place state => ?_⟩
    by_cases same : d.place = place
    · subst same
      have bound := (List.getElem?_eq_some_iff.mp here).1
      rw [List.getElem?_set_self bound, here, own_self, Option.map_some]
      show some (s.turn shared.state d.time).1 = some (s.turn state d.time).1
      rw [stateless.turn_eq s shared.state state]
    · rw [List.getElem?_set_ne same, own_other same]
      exact Option.map_id'.symm

/-- **A schedule is to each run what its own turns are**, whatever it is to the others. -/
theorem Stateless.follow_eq (stateless : ex.Stateless) (shared : Shared ex)
    (schedule : List Dispatch) :
    (shared.follow schedule).state = shared.state ∧ ∀ (place : Nat) (state : σ),
      (shared.follow schedule).strands[place]? =
        shared.strands[place]?.map fun s => (s.turns state (own place schedule)).1 := by
  induction schedule generalizing shared with
  | nil => exact ⟨rfl, fun place state => Option.map_id'.symm⟩
  | cons d schedule ih =>
    obtain ⟨left, given⟩ := stateless.dispatch_eq shared d
    obtain ⟨kept, strands⟩ := ih (shared.dispatch d)
    refine ⟨kept.trans left, fun place state => ?_⟩
    have split (s : Strand ex) : s.turns state (own place (d :: schedule)) =
        (s.turns state (own place [d])).1.turns (s.turns state (own place [d])).2
          (own place schedule) := by
      have parts : own place (d :: schedule) = own place [d] ++ own place schedule :=
        own_append place [d] schedule
      rw [parts]
      exact List.foldl_append
    show ((shared.dispatch d).follow schedule).strands[place]? = _
    rw [strands place state, given place state, Option.map_map]
    congr 1
    funext s
    rw [split, stateless.turns_eq s state state]
    rfl

/-! ## Interleaved runs -/

/-- The run was given these turns, each with what the clock showed, and has come to this. -/
structure Strand.Undisturbed (s : Strand ex) (source : Source) (c : Context)
    (times : List (Option Instant)) : Prop where
  /-- Alone, and in any state, the same turns bring the run to where it is. -/
  same : ∀ state, ((ex.strand c source).turns state times).1 = s
  /-- A step is announced when the step before it and its hooks have finished. -/
  ordered : s.point.Shows s.journal
  /-- Turns in sufficient number end the run. -/
  ends : (ex.strand c source).point.turns ≤ times.length → ∃ result, s.point = .ended result
  /-- At one time, the run ends as it does when it is made at one stroke. -/
  exact : (∀ time ∈ times, time = none) → ∀ result, s.point = .ended result →
    ∀ state, ex.runSource .waiting source ⟨c, state, []⟩ = (result, ⟨s.context, state, s.journal⟩)
  /-- So it does at any times and under any identifier, but for these. -/
  alike : (∀ hook ∈ ex.hooks, hook.Blind .anonymous) → ∀ result, s.point = .ended result →
    ∀ c' : Context, c'.anonymous = c.anonymous → ∀ state,
      let lone := ex.runSource .waiting source ⟨c', state, []⟩
      lone.1 = result ∧ lone.2.context.anonymous = s.context.anonymous ∧
        lone.2.journal.calls = s.journal.calls

/-- However many turns a run has had, it is where it would be alone. -/
theorem undisturbed_turns (stateless : ex.Stateless) (source : Source) (c : Context) (state : σ)
    (times : List (Option Instant)) :
    ((ex.strand c source).turns state times).1.Undisturbed source c times := by
  have atOnce (c : Context) (state : σ) :
      (ex.strand c source).comesTo state = ex.runSource .waiting source ⟨c, state, []⟩ := by
    cases source <;> rfl
  have kept (state : σ) : ((ex.strand c source).turns state times).2 = state := by
    rw [stateless.turns_eq _ state state]
  have same (state' : σ) : ((ex.strand c source).turns state' times).1 =
      ((ex.strand c source).turns state times).1 := by
    rw [stateless.turns_eq _ state state']
  constructor
  case same => exact same
  case ordered =>
    have quiet : (ex.strand c source).point.Shows (ex.strand c source).journal := by
      cases source <;> exact Journal.grows_refl _ _ _
    exact Strand.shows_turns state times quiet
  case ends => exact Strand.exists_ended state
  case exact =>
    intro still result ended state'
    rw [← atOnce, ← Strand.comesTo_turns still, Strand.comesTo, kept, same state', ended]
    rfl
  case alike =>
    intro blind result ended c' anonymous state' lone
    have began : Side (Run.Alike .anonymous) lone ((ex.strand c source).comesTo state') := by
      have alike : Run.Alike .anonymous ⟨c', state', []⟩ (⟨c, state', []⟩ : Run σ) :=
        ⟨anonymous.symm, rfl, rfl⟩
      have follows := ex.follows_of_blind .waiting Context.view_anonymous blind
      cases source with
      | script text => exact follows.finish (.unread text) alike
      | pipeline p => exact follows.finish (.unbegun p) alike
    have there := Strand.alike_turns blind began times
    rw [Strand.comesTo, kept, same state', ended] at there
    obtain ⟨results, alike⟩ := there
    exact ⟨results.symm, alike.context.symm, alike.calls.symm⟩

/-- **Runs that share an executor do not disturb each other**, if it keeps no state. Whatever
schedule they follow, to each of them it is its own turns. -/
theorem interleaved_runs_are_undisturbed (ex : Executor σ) (stateless : ex.Stateless)
    (runs : List (Source × Context)) (state : σ) (schedule : List Dispatch) :
    let shared : Shared ex := ⟨state, runs.map fun (source, c) => ex.strand c source⟩
    (shared.follow schedule).state = state ∧
    (shared.follow schedule).strands.length = runs.length ∧
    ∀ (place : Nat) (source : Source) (c : Context), runs[place]? = some (source, c) →
      ∃ s, (shared.follow schedule).strands[place]? = some s ∧
        s.Undisturbed source c (own place schedule) := by
  intro shared
  obtain ⟨kept, strands⟩ := stateless.follow_eq shared schedule
  have each : (shared.follow schedule).strands =
      shared.strands.mapIdx fun place s => (s.turns state (own place schedule)).1 := by
    apply List.ext_getElem?
    intro place
    rw [strands place state, List.getElem?_mapIdx]
  refine ⟨kept, by rw [each, List.length_mapIdx, List.length_map], ?_⟩
  intro place source c here
  refine ⟨_, ?_, undisturbed_turns stateless source c state (own place schedule)⟩
  rw [strands place state, List.getElem?_map, here]
  rfl

/-- An executor with one handler, which has to be waited for. It notes that the data are there, and
refuses to while they are not. -/
def hesitant : Executor Nat where
  hooks := [.events]
  registry := [((.source, "open"),
    { info := {}
      handler :=
        { isAsync := true
          run := fun call =>
            { outcome := if call.memory.data.isNull then .error ⟨"closed"⟩ else .ok none
              memory := { call.memory with data := .bool true }
              notes := []
              state := call.state } } })]

theorem hesitant_stateless : hesitant.Stateless where
  handlers type action atom found := by
    obtain rfl := (Prod.mk.inj (List.mem_singleton.mp (Registry.mem_of_lookup found))).2
    exact fun call state => rfl
  hooks hook mem := by
    obtain rfl := List.mem_singleton.mp mem
    exact fun callback c state state' => rfl

/-- A step that is tried again. -/
def knock : Pipeline where
  name := "knock"
  steps := [{ atom := ⟨.source, "open", []⟩, onError := .retry }]

/-- Two runs in turns, the second begun when a call of the first has failed. The first has to try
again, the second does not, and both succeed. -/
theorem hesitant_undisturbed :
    let runs : List (Source × Context) :=
      [(.pipeline knock, {}), (.pipeline knock, { data := .bool false })]
    let schedule : List Dispatch :=
      [⟨0, none⟩, ⟨0, some ⟨7⟩⟩, ⟨0, none⟩, ⟨1, none⟩, ⟨1, none⟩, ⟨0, some ⟨9⟩⟩, ⟨1, none⟩,
        ⟨1, none⟩, ⟨0, none⟩, ⟨1, none⟩, ⟨0, none⟩]
    let shared : Shared hesitant := ⟨3, runs.map fun (source, c) => hesitant.strand c source⟩
    hesitant.Stateless ∧ (∀ hook ∈ hesitant.hooks, hook.Blind .anonymous) ∧
    (∃ s, (shared.follow schedule).strands[0]? = some s ∧
      s.Undisturbed (.pipeline knock) {} (own 0 schedule) ∧ s.point = .ended (.ok ()) ∧
      s.context.errors.map (·.timestamp) = [⟨7⟩]) ∧
    (∃ s, (shared.follow schedule).strands[1]? = some s ∧
      s.Undisturbed (.pipeline knock) { data := .bool false } (own 1 schedule) ∧
      s.point = .ended (.ok ()) ∧ s.context.errors = []) := by
  intro runs schedule shared
  have blind : ∀ hook ∈ hesitant.hooks, hook.Blind .anonymous := by
    intro hook mem
    obtain rfl := List.mem_singleton.mp mem
    exact Hook.blind_ofSignal _ _
  obtain ⟨-, -, each⟩ := interleaved_runs_are_undisturbed hesitant hesitant_stateless runs 3 schedule
  obtain ⟨s, here, first⟩ := each 0 _ _ rfl
  obtain ⟨s', here', second⟩ := each 1 _ _ rfl
  refine ⟨hesitant_stateless, blind, ⟨s, here, first, ?_⟩, s', here', second, ?_⟩
  · rw [← first.same 3]
    exact ⟨rfl, rfl⟩
  · rw [← second.same 3]
    exact ⟨rfl, rfl⟩

end Executor

end Pipework
