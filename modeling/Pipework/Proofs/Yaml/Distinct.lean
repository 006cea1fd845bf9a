import Pipework.Proofs.Json.Distinct
import Pipework.Yaml.Record

/-!
# Keys of values that were read from documents

A mapping may have a key more than once, and then the last of its values is the one that is read: the
object has every key once. As for JSON, that holds at every depth, and through aliases, whatever they
stand for; drafts of records keep what their members keep.
-/

namespace Pipework.Yaml

open Json (KeysDistinct)

/-- Whatever is read has a property, in every document. -/
def Yields {α : Type} (x : Decode α) (good : α → Prop) : Prop :=
  ∀ ⦃document : Document⦄ ⦃n : Nat⦄ ⦃a : α⦄ ⦃m : Nat⦄,
    (x.run document).run n = .ok (a, m) → good a

section

variable {α β σ : Type} {good : α → Prop} {better : β → Prop}

theorem yields_pure {a : α} (here : good a) : Yields (pure a) good := by
  intro document n b m found
  obtain ⟨rfl, -⟩ := Prod.mk.inj (Except.ok.inj found)
  exact here

theorem yields_throw {fault : Fault} : Yields (throw fault) good := nofun

/-- What is read second has a property if it has it whenever the first does. -/
theorem yields_bind {x : Decode α} {f : α → Decode β} (first : Yields x good)
    (second : ∀ a, good a → Yields (f a) better) : Yields (x >>= f) better := by
  intro document n b m found
  obtain ⟨⟨a, n'⟩, here, found⟩ := Outcome.bind_eq_ok.mp found
  exact second a (first here) found

/-- The same where nothing needs to be known of the first. -/
theorem yields_then {x : Decode α} {f : α → Decode β} (second : ∀ a, Yields (f a) better) :
    Yields (x >>= f) better :=
  have anything : Yields x fun _ => True := fun _ _ _ _ _ => trivial
  yields_bind anything fun a _ => second a

/-- A result that needs no document. -/
theorem yields_lift {x : Except Fault α} (each : ∀ a, x = .ok a → good a) :
    Yields (liftM x : Decode α) good := by
  intro document n a m found
  obtain ⟨b, here, found⟩ := Outcome.bind_eq_ok.mp found
  obtain ⟨rfl, -⟩ := Prod.mk.inj (Except.ok.inj found)
  exact each b here

/-- Things that are read one by one. -/
theorem yields_mapM {f : β → Decode α} (each : ∀ b, Yields (f b) good) :
    (bs : List β) → Yields (bs.mapM f) fun as => ∀ a ∈ as, good a
  | [] => yields_pure (List.forall_mem_nil good)
  | b :: bs => by
    rw [List.mapM_cons]
    refine yields_bind (each b) fun a here => ?_
    refine yields_bind (yields_mapM each bs) fun as others => ?_
    exact yields_pure (List.forall_mem_cons.mpr ⟨here, others⟩)

/-- What every step keeps is kept to the end. -/
theorem yields_foldlM {f : α → β → Decode α} (keeps : ∀ a b, good a → Yields (f a b) good) :
    (bs : List β) → {a : α} → good a → Yields (bs.foldlM f a) good
  | [], _, start => yields_pure start
  | b :: bs, a, start => by
    rw [List.foldlM_cons]
    exact yields_bind (keeps a b start) fun _ next => yields_foldlM keeps bs next

/-! ## Values -/

theorem keysDistinct_valueOf {text : String} {means : Meaning} {v : Json}
    (value : valueOf text means = .ok v) : v.KeysDistinct := by
  cases means <;> cases value <;> exact trivial

theorem keysDistinct_floatOf {text : String} {v : Json} (value : floatOf text = .ok v) :
    v.KeysDistinct := by
  unfold floatOf at value
  split at value
  · cases value
    exact trivial
  · split at value <;> cases value
    exact trivial

theorem keysDistinct_integerOf {text : String} {v : Json} (value : integerOf text = .ok v) :
    v.KeysDistinct := by
  unfold integerOf at value
  split at value <;> cases value
  exact trivial

/-- A scalar is no object, whatever its tag says. -/
theorem keysDistinct_scalarValue {label : Label Nat} {style : ScalarStyle} {text : String} {v : Json}
    (value : scalarValue label style text = .ok v) : v.KeysDistinct := by
  unfold scalarValue at value
  split at value
  next =>
    split at value
    · exact keysDistinct_valueOf value
    · cases value
      exact trivial
  -- One kind of tag after another.
  next =>
    split at value
    · cases value
    split at value
    · split at value <;> cases value
      exact trivial
    split at value
    · exact keysDistinct_integerOf value
    split at value
    · exact keysDistinct_floatOf value
    split at value
    · split at value <;> cases value
      exact trivial
    · cases value
      exact trivial

/-- A field of values keeps keys distinct. -/
theorem yields_insert {read : Decode Json} (each : Yields read KeysDistinct) {fields : Fields}
    (distinct : fields.KeysDistinct) (key : String) :
    Yields (do return fields.insert key (← read)) Fields.KeysDistinct :=
  yields_bind each fun _ inside => yields_pure (distinct.insert key inside)

/-- **Values have distinct keys.** No object in a value that was read has a key twice. -/
theorem yields_value : (depth : Nat) → (node : Node Nat) → Yields (readValue depth node) KeysDistinct
  | 0, node => by
    refine yields_then fun node => ?_
    cases node with
    | scalar => exact yields_lift fun _ => keysDistinct_scalarValue
    | «alias» | sequence | mapping => exact yields_throw
  | depth + 1, node => by
    refine yields_then fun node => ?_
    cases node with
    | scalar => exact yields_lift fun _ => keysDistinct_scalarValue
    | «alias» => exact yields_throw
    | sequence label items =>
      refine yields_then fun _ => ?_
      refine yields_bind (yields_mapM (yields_value depth) items) fun items each => ?_
      exact yields_pure ⟨trivial, Json.allItems_iff.mpr each⟩
    | mapping label entries =>
      refine yields_then fun _ => ?_
      refine yields_bind (yields_foldlM ?_ entries Fields.keysDistinct_nil) fun fields distinct => ?_
      · rintro fields ⟨k, v⟩ distinct
        exact yields_then fun key => yields_insert (yields_value depth v) distinct key
      · exact yields_pure distinct

/-! ## Parts of records -/

/-- The things of a list are what the reader of one gives. -/
theorem yields_items {read : Reader α} (each : ∀ depth node, Yields (read depth node) good)
    (depth : Nat) (node : Node Nat) :
    Yields (readItems read depth node) fun as => ∀ a ∈ as, good a := by
  refine yields_then fun node => ?_
  split
  next => exact yields_throw
  next items => exact yields_mapM (each _) items
  next =>
    split
    · exact yields_pure (List.forall_mem_nil good)
    · exact yields_throw

/-- The entries of a mapping keep what every entry keeps. -/
theorem yields_entries {read : Nat → σ → String → Node Nat → Decode σ} {good : σ → Prop} {blank : σ}
    (start : good blank)
    (keeps : ∀ depth draft key node, good draft → Yields (read depth draft key node) good)
    (depth : Nat) (node : Node Nat) : Yields (foldEntries read blank depth node) good := by
  refine yields_then fun node => ?_
  split
  next => exact yields_throw
  next entries =>
    refine yields_foldlM ?_ entries start
    rintro draft ⟨k, v⟩ so_far
    exact yields_then fun key => keeps _ draft key v so_far
  next =>
    split
    · exact yields_pure start
    · exact yields_throw

theorem yields_map (depth : Nat) (node : Node Nat) :
    Yields (readMap depth node) Fields.KeysDistinct :=
  yields_entries Fields.keysDistinct_nil
    (fun depth _ key node distinct => yields_insert (yields_value depth node) distinct key) depth node

/-! ## Records -/

/-- The member keeps a property of the draft. -/
def Member.Keeps (good : σ → Prop) (m : Member σ) : Prop :=
  ∀ depth draft node, good draft → Yields (m.read depth draft node) good

/-- A member that sets its part keeps what its part keeps. -/
theorem Member.keeps_of {good : σ → Prop} {part : α → Prop} {get : σ → Option α}
    {set : σ → α → σ} {read : Reader α} (name : String)
    (each : ∀ depth node, Yields (read depth node) part)
    (kept : ∀ draft a, good draft → part a → good (set draft a)) :
    Member.Keeps good (.of name get set read) :=
  fun depth draft node so_far =>
    yields_bind (each depth node) fun a here => yields_pure (kept draft a so_far here)

/-- Where a part does not matter, its member keeps the property. -/
theorem Member.keeps_set {good : σ → Prop} {get : σ → Option α} {set : σ → α → σ}
    {read : Reader α} (name : String) (kept : ∀ draft a, good draft → good (set draft a)) :
    Member.Keeps good (.of name get set read) :=
  fun _ draft _ so_far => yields_then fun a => yields_pure (kept draft a so_far)

/-- **Drafts keep their invariant.** What the blank draft has, and every member keeps, the draft of
any record has. -/
theorem yields_record {members : List (Member σ)} {good : σ → Prop} {blank : σ}
    (start : good blank) (keeps : ∀ m ∈ members, m.Keeps good) (depth : Nat) (node : Node Nat) :
    Yields (readRecord members blank depth node) good := by
  refine yields_entries start (fun depth draft key node so_far => ?_) depth node
  split
  next => exact yields_pure so_far
  next m known =>
    split
    next => exact yields_throw
    next => exact keeps m (List.mem_of_find?_eq_some known) depth draft node so_far

end

end Pipework.Yaml
