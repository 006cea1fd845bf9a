import Pipework.Json.Record
import Pipework.Proofs.Json.Fields
import Pipework.Proofs.Outcome
import Pipework.Proofs.Script.Expressible

/-!
# Keys of values that were read

Objects are built by `Fields.insert` alone, so whatever is read from a text has no key twice, at no
depth, though the text may have. `Yields` says that a reader gives nothing without a property. It
goes through lists and objects as the readers do, and through records by an invariant of their drafts.
-/

namespace Pipework

namespace Fields

theorem keysDistinct_nil : KeysDistinct [] := ⟨distinct_nil, trivial⟩

/-- Inserting a value without repeated keys leaves no key repeated. -/
theorem KeysDistinct.insert {fields : Fields} (distinct : fields.KeysDistinct) (key : String)
    {v : Json} (inside : v.KeysDistinct) : (fields.insert key v).KeysDistinct := by
  refine ⟨distinct.1.insert key v, Json.allFields_iff.mpr fun field mem => ?_⟩
  rcases mem_insert mem with known | rfl
  · exact Json.allFields_iff.mp distinct.2 field known
  · exact inside

end Fields

namespace Json

/-- Whatever the reader gives has a property, whatever the text. -/
def Yields {α : Type} (read : Reader α) (good : α → Prop) : Prop :=
  ∀ ⦃cs : List Char⦄ ⦃a : α⦄ ⦃rest : List Char⦄, read cs = .ok (a, rest) → good a

section

variable {α σ : Type}

/-- A fault gives nothing. -/
theorem before_ne_ok {fault : Fault} {cs : List Char} {a : α} : fault.before cs ≠ .ok a := nofun

theorem within_ne_ok {fault : Fault} {cs : List Char} {a : α} : fault.within cs ≠ .ok a := nofun

/-! ## Lists and objects -/

/-- The items of a list are what the reader of an item gives. -/
theorem yields_items {read : Reader α} {good : α → Prop} (each : Yields read good) :
    (fuel : Nat) → (isFirst : Bool) → Yields (readItems read fuel isFirst) fun as => ∀ a ∈ as, good a
  | 0, _ => fun _ _ _ found => absurd found before_ne_ok
  | fuel + 1, isFirst => by
    intro cs as rest found
    obtain ⟨next, -, found⟩ := Outcome.bind_eq_ok.mp found
    cases next with
    | none =>
      obtain ⟨_, -, found⟩ := Outcome.bind_eq_ok.mp found
      obtain ⟨rfl, -⟩ := Prod.mk.inj (Except.ok.inj found)
      exact List.forall_mem_nil good
    | some cs =>
      obtain ⟨⟨a, behind⟩, here, found⟩ := Outcome.bind_eq_ok.mp found
      obtain ⟨⟨others, _⟩, more, found⟩ := Outcome.bind_eq_ok.mp found
      obtain ⟨rfl, -⟩ := Prod.mk.inj (Except.ok.inj found)
      exact List.forall_mem_cons.mpr ⟨each here, yields_items each fuel false more⟩

/-- What each member keeps of what was gathered before it, an object keeps. -/
theorem yields_members {member : σ → String → Reader σ} {good : σ → Prop}
    (keeps : ∀ gathered key, good gathered → Yields (member gathered key) good) :
    (fuel : Nat) → (isFirst : Bool) → (gathered : σ) → good gathered →
      Yields (readMembers member fuel isFirst gathered) good
  | 0, _, _, _ => fun _ _ _ found => absurd found before_ne_ok
  | fuel + 1, isFirst, gathered, so_far => by
    intro cs last rest found
    obtain ⟨next, -, found⟩ := Outcome.bind_eq_ok.mp found
    cases next with
    | none =>
      obtain ⟨_, -, found⟩ := Outcome.bind_eq_ok.mp found
      obtain ⟨rfl, -⟩ := Prod.mk.inj (Except.ok.inj found)
      exact so_far
    | some next =>
      obtain ⟨⟨gathered', behind⟩, here, found⟩ := Outcome.bind_eq_ok.mp found
      exact yields_members keeps fuel false gathered' (keeps _ _ so_far here) found

/-- A field of values keeps keys distinct. -/
theorem yields_field {read : Reader Json} (each : Yields read KeysDistinct) (fields : Fields)
    (key : String) (distinct : fields.KeysDistinct) :
    Yields (readField read fields key) Fields.KeysDistinct := by
  intro cs fields' rest found
  obtain ⟨_, -, found⟩ := Outcome.bind_eq_ok.mp found
  obtain ⟨⟨v, _⟩, here, found⟩ := Outcome.bind_eq_ok.mp found
  obtain ⟨rfl, -⟩ := Prod.mk.inj (Except.ok.inj found)
  exact distinct.insert key (each here)

/-- The fields of an object of values have distinct keys. -/
theorem yields_fields {read : Reader Json} (each : Yields read KeysDistinct) (fuel : Nat)
    (isFirst : Bool) : Yields (readMembers (readField read) fuel isFirst []) Fields.KeysDistinct :=
  yields_members (yields_field each) fuel isFirst [] Fields.keysDistinct_nil

/-! ## Values -/

/-- A value has distinct keys when those inside it have. -/
theorem yields_valueWith {inside : Option (Reader Json)}
    (each : ∀ read ∈ inside, Yields read KeysDistinct) :
    Yields (readValueWith inside) KeysDistinct := by
  intro cs v rest found
  unfold readValueWith at found
  split at found
  case h_1 => exact absurd found before_ne_ok
  case h_2 | h_3 | h_4 | h_5 | h_6 =>
    obtain ⟨_, -, found⟩ := Outcome.bind_eq_ok.mp found
    obtain ⟨rfl, -⟩ := Prod.mk.inj (Except.ok.inj found)
    exact trivial
  case h_7 =>
    cases inside with
    | none => exact absurd found before_ne_ok
    | some read =>
      obtain ⟨⟨items, _⟩, here, found⟩ := Outcome.bind_eq_ok.mp found
      obtain ⟨rfl, -⟩ := Prod.mk.inj (Except.ok.inj found)
      exact ⟨trivial, allItems_iff.mpr (yields_items (each read rfl) _ _ here)⟩
  case h_8 =>
    cases inside with
    | none => exact absurd found before_ne_ok
    | some read =>
      obtain ⟨⟨fields, _⟩, here, found⟩ := Outcome.bind_eq_ok.mp found
      obtain ⟨rfl, -⟩ := Prod.mk.inj (Except.ok.inj found)
      exact yields_fields (each read rfl) _ _ here
  case h_9 =>
    split at found
    next =>
      obtain ⟨_, -, found⟩ := Outcome.bind_eq_ok.mp found
      obtain ⟨rfl, -⟩ := Prod.mk.inj (Except.ok.inj found)
      exact trivial
    next => exact absurd found within_ne_ok

/-- **Values have distinct keys.** No object in a value that was read has a key twice. -/
theorem yields_value : (depth : Nat) → Yields (readValue depth) KeysDistinct
  | 0 => yields_valueWith fun _ none => nomatch none
  | depth + 1 => yields_valueWith fun _ some => by
    rw [← Option.some.inj some]
    exact yields_value depth

/-! ## Parts of records -/

theorem refuse_ne_ok {expected : String} {cs : List Char} {a : α} :
    refuse expected cs ≠ .ok a := by
  intro found
  unfold refuse at found
  split at found
  case h_1 | h_7 | h_8 => exact before_ne_ok found
  case h_2 | h_3 | h_4 | h_5 | h_6 =>
    obtain ⟨_, -, found⟩ := Outcome.bind_eq_ok.mp found
    exact before_ne_ok found
  case h_9 =>
    split at found
    next =>
      obtain ⟨_, -, found⟩ := Outcome.bind_eq_ok.mp found
      exact before_ne_ok found
    next => exact within_ne_ok found

/-- What is read behind a bracket is read within the depth that is left. -/
theorem enter_eq_ok {depth : Nat} {cs : List Char} {inside : Nat → Except Stop α} {a : α}
    (found : enter depth cs inside = .ok a) : ∃ depth', inside depth' = .ok a := by
  cases depth with
  | zero => exact absurd found before_ne_ok
  | succ depth => exact ⟨depth, found⟩

theorem yields_map (depth : Nat) : Yields (readMap depth) Fields.KeysDistinct := by
  intro cs fields rest found
  unfold readMap at found
  split at found
  next => exact absurd found before_ne_ok
  next =>
    obtain ⟨depth, found⟩ := enter_eq_ok found
    exact yields_fields (yields_value depth) _ _ found
  next => exact absurd found refuse_ne_ok

/-- The things of a list are what the reader of one gives. -/
theorem yields_sequence {read : Nat → Reader α} {good : α → Prop}
    (each : ∀ depth, Yields (read depth) good) (depth : Nat) :
    Yields (readSequence read depth) fun as => ∀ a ∈ as, good a := by
  intro cs as rest found
  unfold readSequence at found
  split at found
  next => exact absurd found before_ne_ok
  next =>
    obtain ⟨depth, found⟩ := enter_eq_ok found
    exact yields_items (each depth) _ _ found
  next => exact absurd found refuse_ne_ok

/-! ## Records -/

/-- The member keeps a property of the draft. -/
def Member.Keeps (good : σ → Prop) (m : Member σ) : Prop :=
  ∀ depth draft, good draft → Yields (m.read depth draft) good

/-- A member that sets its part keeps what its part keeps. -/
theorem Member.keeps_of {good : σ → Prop} {part : α → Prop} {get : σ → Option α}
    {set : σ → α → σ} {read : Nat → Reader α} (name : String) (required : Bool)
    (each : ∀ depth, Yields (read depth) part)
    (kept : ∀ draft a, good draft → part a → good (set draft a)) :
    Member.Keeps good (.of name required get set read) := by
  intro depth draft so_far cs draft' rest found
  obtain ⟨⟨a, _⟩, here, found⟩ := Outcome.bind_eq_ok.mp found
  obtain ⟨rfl, -⟩ := Prod.mk.inj (Except.ok.inj found)
  exact kept draft a so_far (each depth here)

/-- Where a part does not matter, its member keeps the property. -/
theorem Member.keeps_set {good : σ → Prop} {get : σ → Option α} {set : σ → α → σ}
    {read : Nat → Reader α} (name : String) (required : Bool)
    (kept : ∀ draft a, good draft → good (set draft a)) :
    Member.Keeps good (.of name required get set read) :=
  have anything (depth : Nat) : Yields (read depth) fun _ => True := fun _ _ _ _ => trivial
  keeps_of name required anything fun draft a so_far _ => kept draft a so_far

variable {members : List (Member σ)} {good : σ → Prop}

/-- A key and its value keep what every member keeps. -/
theorem yields_member (keeps : ∀ m ∈ members, m.Keeps good) (depth : Nat) (draft : σ)
    (key : String) (so_far : good draft) : Yields (readMember members depth draft key) good := by
  intro cs draft' rest found
  unfold readMember at found
  split at found
  next =>
    obtain ⟨_, -, found⟩ := Outcome.bind_eq_ok.mp found
    obtain ⟨_, -, found⟩ := Outcome.bind_eq_ok.mp found
    obtain ⟨rfl, -⟩ := Prod.mk.inj (Except.ok.inj found)
    exact so_far
  next m known =>
    split at found
    next => exact absurd found before_ne_ok
    next =>
      obtain ⟨_, -, found⟩ := Outcome.bind_eq_ok.mp found
      exact keeps m (List.mem_of_find?_eq_some known) depth draft so_far found

/-- The items of a record's list keep what every member keeps. -/
theorem yields_inOrder (lengthText : String) (depth : Nat) : (index : Nat) →
    (members : List (Member σ)) → (∀ m ∈ members, m.Keeps good) → (draft : σ) → good draft →
      Yields (readInOrder lengthText depth index members draft) good
  | _, [], _, draft, so_far => fun _ _ _ found => by
    obtain ⟨rfl, -⟩ := Prod.mk.inj (Except.ok.inj found)
    exact so_far
  | index, m :: ms, keeps, draft, so_far => by
    obtain ⟨here, later⟩ := List.forall_mem_cons.mp keeps
    intro cs draft' rest found
    obtain ⟨next, -, found⟩ := Outcome.bind_eq_ok.mp found
    cases next with
    | some next =>
      obtain ⟨⟨draft, _⟩, read, found⟩ := Outcome.bind_eq_ok.mp found
      exact yields_inOrder lengthText depth (index + 1) ms later draft
        (here depth _ so_far read) found
    | none =>
      change (if m.required then _ else _) = _ at found
      split at found
      next =>
        obtain ⟨_, -, found⟩ := Outcome.bind_eq_ok.mp found
        exact absurd found before_ne_ok
      next => exact yields_inOrder lengthText depth (index + 1) ms later draft so_far found

/-- **Drafts keep their invariant.** What the blank draft has, and every member keeps, the draft of
any record has. -/
theorem yields_record {title : String} {blank : σ} (start : good blank)
    (keeps : ∀ m ∈ members, m.Keeps good) (depth : Nat) :
    Yields (readRecord title members blank depth) good := by
  intro cs draft rest found
  unfold readRecord at found
  split at found
  next => exact absurd found before_ne_ok
  next =>
    obtain ⟨depth, found⟩ := enter_eq_ok found
    obtain ⟨⟨_, _⟩, read, found⟩ := Outcome.bind_eq_ok.mp found
    obtain ⟨_, -, found⟩ := Outcome.bind_eq_ok.mp found
    obtain ⟨rfl, -⟩ := Prod.mk.inj (Except.ok.inj found)
    exact yields_inOrder _ depth 0 members keeps blank start read
  next =>
    obtain ⟨depth, found⟩ := enter_eq_ok found
    obtain ⟨⟨_, _⟩, read, found⟩ := Outcome.bind_eq_ok.mp found
    dsimp only at found
    split at found
    next => exact absurd found before_ne_ok
    next =>
      obtain ⟨rfl, -⟩ := Prod.mk.inj (Except.ok.inj found)
      exact yields_members (yields_member keeps depth) _ _ blank start read
  next => exact absurd found refuse_ne_ok

end

end Json

end Pipework
