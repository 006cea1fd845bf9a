import Pipework.Program.Session
import Pipework.Proofs.Bindings

/-!
# What actions do to histories

An action gives something or stops, and leaves a session. Of the session the `Stores` are what lasts:
the histories, and what was saved in them. `Does` says of an action what it gives, if it gives
anything, and which stores it makes of those that it finds; what it prints and reports is left out.
Most actions of a command leave the stores as they are. What a chain of actions does is put together
from what they do.
-/

namespace Pipework

/-- What lasts of a session. -/
structure Stores where
  histories : List (String × Table)
  saves : List (String × RunSummary)

def Session.stores (s : Session) : Stores :=
  ⟨s.histories, s.saves⟩

namespace Stores

/-- The history at a path. -/
def history (stores : Stores) (path : String) : Table :=
  (stores.histories.lookup path).getD []

/-- With another history at the path. -/
def put (stores : Stores) (path : String) (table : Table) : Stores :=
  { stores with histories := (path, table) :: stores.histories.filter (·.1 != path) }

/-- With the summary saved in the history at the path. -/
def save (stores : Stores) (path : String) (run : RunSummary) : Stores :=
  { stores.put path ((stores.history path).save run) with saves := stores.saves ++ [(path, run)] }

/-- With the history at the path open: one without a name begins empty. -/
def opened (stores : Stores) (path : String) : Stores :=
  if path.isEmpty then stores.put path [] else stores

/-- A history that was put at a path is found there. -/
@[simp] theorem history_put (stores : Stores) (path : String) (table : Table) :
    (stores.put path table).history path = table := by
  simp only [history, put, List.lookup_cons_self, Option.getD_some]

/-- Other histories stay as they are. -/
theorem history_put_other (stores : Stores) {path other : String} (table : Table)
    (apart : other ≠ path) : (stores.put path table).history other = stores.history other := by
  have kept := lookup_filter (· != path) other stores.histories
  rw [bne_iff_ne.mpr apart, if_pos rfl] at kept
  have missed : (other == path) = false := beq_eq_false_iff_ne.mpr apart
  simp only [history, put, List.lookup_cons, missed, kept]

/-- An open history is empty if it has no name, and as it was otherwise. -/
theorem history_opened (stores : Stores) (path : String) :
    (stores.opened path).history path = if path.isEmpty then [] else stores.history path := by
  unfold opened
  split
  · exact history_put stores path []
  · rfl

/-- Opening a history leaves the others. -/
theorem history_opened_other (stores : Stores) {path other : String} (apart : other ≠ path) :
    (stores.opened path).history other = stores.history other := by
  unfold opened
  split
  · exact history_put_other stores [] apart
  · rfl

/-- Opening a history saves nothing. -/
theorem saves_opened (stores : Stores) (path : String) :
    (stores.opened path).saves = stores.saves := by
  unfold opened
  split <;> rfl

/-- A run is saved in the history at its path. -/
@[simp] theorem history_save (stores : Stores) (path : String) (run : RunSummary) :
    (stores.save path run).history path = (stores.history path).save run :=
  history_put stores path _

/-- Saving a run leaves the other histories. -/
theorem history_save_other (stores : Stores) {path other : String} (run : RunSummary)
    (apart : other ≠ path) : (stores.save path run).history other = stores.history other :=
  history_put_other stores _ apart

end Stores

namespace Action

variable {α β : Type} {host : Host}

/-- What an action gives in a session, and the session it leaves. -/
def outcome (action : Action α) (host : Host) (s : Session) : Except Stop α × Session :=
  (action.run host).run.run s

/-- An action behind another one goes on in the session that one left, unless it stopped. -/
theorem outcome_bind (action : Action α) (next : α → Action β) (host : Host) (s : Session) :
    (action >>= next).outcome host s =
      match action.outcome host s with
      | (.ok a, s') => (next a).outcome host s'
      | (.error stop, s') => (.error stop, s') := by
  simp only [outcome, ReaderT.run_bind, ExceptT.run_bind, StateT.run_bind]
  show (match (action.run host).run.run s with | (a, s') => _) = _
  rcases (action.run host).run.run s with ⟨stop | a, s'⟩ <;> rfl

/-- A stop is handled in the session that it left. -/
theorem outcome_tryCatch (action : Action α) (handle : Stop → Action α) (host : Host)
    (s : Session) : (tryCatch action handle).outcome host s =
      match action.outcome host s with
      | (.ok a, s') => (.ok a, s')
      | (.error stop, s') => (handle stop).outcome host s' := by
  have inner : (tryCatch action handle).run host =
      (tryCatch (action.run host) fun stop => (handle stop).run host) := rfl
  simp only [outcome, inner, ExceptT.run_tryCatch, StateT.run_bind]
  show (match (action.run host).run.run s with | (a, s') => _) = _
  rcases (action.run host).run.run s with ⟨stop | a, s'⟩ <;> rfl

/-- From these stores the action gives this, or stops, and it leaves these stores. -/
def Does (host : Host) (before : Stores) (action : Action α) (given : Option α) (after : Stores) :
    Prop :=
  ∀ s : Session, s.stores = before →
    (action.outcome host s).1.toOption = given ∧ (action.outcome host s).2.stores = after

/-! ## Chains -/

variable {before between after stores : Stores}

/-- What is done behind an action that gives something. -/
theorem Does.bind {action : Action α} {next : α → Action β} {a : α} {given : Option β}
    (first : Does host before action (some a) between)
    (rest : Does host between (next a) given after) :
    Does host before (action >>= next) given after := by
  intro s here
  have done := first s here
  rw [outcome_bind]
  rcases ran : action.outcome host s with ⟨stop | a', s'⟩ <;> rw [ran] at done <;>
    obtain ⟨gives, leaves⟩ := done
  · cases gives
  · obtain rfl : a' = a := Option.some.inj gives
    exact rest s' leaves

/-- Behind an action that stops nothing is done. -/
theorem Does.stop {action : Action α} {next : α → Action β}
    (first : Does host before action none after) :
    Does host before (action >>= next) none after := by
  intro s here
  have done := first s here
  rw [outcome_bind]
  rcases ran : action.outcome host s with ⟨stop | a, s'⟩ <;> rw [ran] at done <;>
    obtain ⟨gives, leaves⟩ := done
  · exact ⟨rfl, leaves⟩
  · cases gives

/-- What an action gives may be changed. -/
theorem Does.map {action : Action α} {a : α} (f : α → β)
    (does : Does host before action (some a) after) :
    Does host before (f <$> action) (some (f a)) after := by
  rw [map_eq_pure_bind]
  exact does.bind fun _ here => ⟨rfl, here⟩

/-- What is said of a failure is nothing to the stores. -/
theorem Does.context {action : Action α} {given : Option α} (message : String)
    (does : Does host before action given after) :
    Does host before (context message action) given after := by
  intro s here
  have done := does s here
  unfold Action.context
  rw [outcome_tryCatch]
  rcases ran : action.outcome host s with ⟨stop | a, s'⟩ <;> rw [ran] at done
  · cases stop <;> exact done
  · exact done

/-! ## Actions that leave the stores -/

/-- Giving something leaves the stores. -/
theorem does_pure (a : α) : Does host stores (pure a) (some a) stores :=
  fun _ here => ⟨rfl, here⟩

/-- So does stopping. -/
theorem does_throw (stop : Stop) : Does host stores (throw stop : Action α) none stores :=
  fun _ here => ⟨rfl, here⟩

/-- So does asking for the surroundings. -/
theorem does_read : Does host stores read (some host) stores :=
  fun _ here => ⟨rfl, here⟩

/-- What is done for each item, and leaves the stores, is done for all. -/
theorem does_forIn {body : α → PUnit → Action (ForInStep PUnit)}
    (does : ∀ item, Does host stores (body item ⟨⟩) (some (.yield ⟨⟩)) stores) (items : List α) :
    Does host stores (forIn items ⟨⟩ body) (some ⟨⟩) stores := by
  induction items with
  | nil => exact does_pure _
  | cons item items ih =>
    rw [List.forIn_cons]
    exact (does item).bind ih

/-- A failure stops the action; what was there instead is given. -/
theorem does_orFail {ε : Type} (failure : ε → Failure) (x : Except ε α) :
    Does host stores (orFail failure x) x.toOption stores := by
  cases x with
  | error e => exact does_throw _
  | ok a => exact does_pure a

/-- Printing leaves the stores. -/
theorem does_say (text : String) : Does host stores (say text) (some ()) stores :=
  fun _ here => ⟨rfl, here⟩

/-- So does a note. -/
theorem does_note (symbol : Symbol) (text : String) :
    Does host stores (note symbol text) (some ()) stores :=
  does_say _

/-- So does styling a text. -/
theorem does_styled (style : Style) (text : String) :
    Does host stores (styled style text) (some (host.display.style style text)) stores :=
  fun _ here => ⟨rfl, here⟩

/-- So does reporting lines. -/
theorem does_report (lines : List Report) : Does host stores (report lines) (some ()) stores :=
  fun _ here => ⟨rfl, here⟩

/-! ## Histories -/

/-- A history that can be opened is. -/
theorem does_openHistory {config : Config} {path : String}
    (named : config.historyPath.getD host.historyPath = path) (free : host.locked path = none) :
    Does host stores (openHistory config) (some path) (stores.opened path) := by
  apply does_read.bind
  simp only [named, free, Stores.opened]
  have opened {stores : Stores} (lines : List Report) :
      Does host stores (do report lines; pure path) (some path) stores :=
    (does_report lines).bind (does_pure path)
  by_cases empty : path.isEmpty
  · simp only [empty, if_true]
    have cleared : Does host stores (setHistory path []) (some ()) (stores.put path []) := by
      rintro s rfl
      exact ⟨rfl, rfl⟩
    exact cleared.bind (opened _)
  · simp only [empty, Bool.false_eq_true, if_false]
    exact opened _

/-- A run is saved at the end of the saves, and in the history at the path. -/
theorem does_saveRun (path : String) (run : RunSummary) :
    Does host stores (saveRun (some path) run) (some ()) (stores.save path run) := by
  rintro s rfl
  exact ⟨rfl, rfl⟩

/-- A run that is not recorded is not saved. -/
theorem does_saveRun_none (run : RunSummary) :
    Does host stores (saveRun none run) (some ()) stores :=
  fun _ here => ⟨rfl, here⟩

end Action

end Pipework
