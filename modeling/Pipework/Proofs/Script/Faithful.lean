import Mathlib.Data.List.Nodup
import Mathlib.Data.List.Perm.Subperm
import Pipework.Proofs.Script.RoundTrip

/-!
# What scripts change

Actions, names of parameters and names of variables stand in a script as they are, and so do whole
numbers of any size. Text that is no bare word may then be read as something else: as another
declaration, another step, another parameter. And a whole number beyond the signed words is read as
a double. So there are pipelines whose script is read without complaint, and misread.

Exactly those that a script can say come back: any other pipeline is refused or misread. Equal is here
what the program takes to be equal, where the order of fields and the sign of a zero do not count.
-/

namespace Pipework

/-! ## What equality looks at -/

/-- Of equal numbers both fit or none does. -/
theorem Number.fits_of_equal {a b : Number} (same : a.equal b = true) (fits : a.Fits) : b.Fits := by
  cases a <;> cases b
  · simp only [equal, beq_iff_eq] at same
    subst same
    exact fits
  · cases same
  · cases same
  · trivial

/-- In equal objects of distinct keys every field on the right has its equal on the left. -/
theorem Fields.exists_equal {as bs : Fields} (distinct : as.Distinct)
    (lengths : as.length = bs.length) (same : Json.equalFields as bs = true) {field : String × Json}
    (mem : field ∈ bs) : ∃ a, (field.1, a) ∈ as ∧ a.equal field.2 = true := by
  have found : ∀ pair ∈ as, ∃ b, (pair.1, b) ∈ bs ∧ pair.2.equal b = true := by
    clear distinct lengths
    induction as with
    | nil => exact nofun
    | cons head as ih =>
      obtain ⟨k, a⟩ := head
      simp only [Json.equalFields, Bool.and_eq_true] at same
      refine List.forall_mem_cons.mpr ⟨?_, ih same.2⟩
      cases there : bs.lookup k with
      | none => simp only [there, Bool.false_eq_true, false_and] at same
      | some b =>
        simp only [there] at same
        obtain ⟨before, after, rfl, -⟩ := List.lookup_eq_some_iff.mp there
        exact ⟨b, List.mem_append_right before List.mem_cons_self, same.1⟩
  have within : as.map Prod.fst ⊆ bs.map Prod.fst := by
    intro key known
    obtain ⟨pair, there, rfl⟩ := List.mem_map.mp known
    obtain ⟨b, right, -⟩ := found pair there
    exact List.mem_map.mpr ⟨_, right, rfl⟩
  -- The keys on the left are distinct and as many as on the right, so they are all the keys.
  have keys : (as.map Prod.fst).Perm (bs.map Prod.fst) := by
    apply (List.subperm_of_subset distinct within).perm_of_length_le
    rw [List.length_map, List.length_map, lengths]
  have distinct' : (bs.map Prod.fst).Nodup := keys.nodup_iff.mp distinct
  obtain ⟨pair, there, key⟩ := List.mem_map.mp (keys.mem_iff.mpr (List.mem_map_of_mem mem))
  obtain ⟨b, right, equal⟩ := found pair there
  rw [key] at right
  obtain rfl : b = field.2 := congrArg Prod.snd (List.inj_on_of_nodup_map distinct' right mem rfl)
  exact ⟨pair.2, key ▸ there, equal⟩

namespace Json

variable {p : Json → Prop}

mutual

/-- Equal values have a property throughout that equality respects. -/
theorem all_of_equal (respects : ∀ a b, a.equal b = true → p a → p b) (a b : Json)
    (same : a.equal b = true) (distinct : a.KeysDistinct) (all : a.All p) : b.All p := by
  cases a with
  | array as =>
    cases b with
    | array bs =>
      exact ⟨respects _ _ same all.1, allItems_of_equal respects as bs same distinct.2 all.2⟩
    | _ => cases same
  | object as =>
    cases b with
    | object bs =>
      refine ⟨respects _ _ same all.1, allFields_iff.mpr fun field mem => ?_⟩
      simp only [equal, Bool.and_eq_true, beq_iff_eq] at same
      obtain ⟨a, there, equal⟩ := Fields.exists_equal distinct.1 same.1 same.2 mem
      exact all_of_equal_field respects as distinct.2 all.2 _ there field.2 equal
    | _ => cases same
  | _ => cases b <;> first | exact respects _ _ same all | cases same
termination_by structural a

/-- What holds in a list holds in an equal one. -/
theorem allItems_of_equal (respects : ∀ a b, a.equal b = true → p a → p b) (as bs : List Json)
    (same : equalItems as bs = true) (distinct : AllItems KeysApart as) (all : AllItems p as) :
    AllItems p bs := by
  cases as with
  | nil =>
    cases bs with
    | nil => trivial
    | cons b bs => cases same
  | cons a as =>
    cases bs with
    | nil => cases same
    | cons b bs =>
      simp only [equalItems, Bool.and_eq_true] at same
      exact ⟨all_of_equal respects a b same.1 distinct.1 all.1,
        allItems_of_equal respects as bs same.2 distinct.2 all.2⟩
termination_by structural as

/-- What holds in a field holds in an equal value. -/
theorem all_of_equal_field (respects : ∀ a b, a.equal b = true → p a → p b)
    (as : List (String × Json)) (distinct : AllFields KeysApart as) (all : AllFields p as)
    (field : String × Json) (mem : field ∈ as) (b : Json) (same : field.2.equal b = true) :
    b.All p := by
  cases as with
  | nil => cases mem
  | cons head as =>
    obtain ⟨k, a⟩ := head
    rcases List.mem_cons.mp mem with rfl | mem
    · exact all_of_equal respects a b same distinct.1 all.1
    · exact all_of_equal_field respects as distinct.2 all.2 field mem b same
termination_by structural as

end

/-- Of equal values the numbers of both fit. -/
theorem numbersFit_of_equal {a b : Json} (same : a.equal b = true) (distinct : a.KeysDistinct)
    (fit : a.NumbersFit) : b.NumbersFit := by
  refine all_of_equal (fun a b same fits => ?_) a b same distinct fit
  cases b with
  | number n =>
    cases a with
    | number m => exact Number.fits_of_equal same fits
    | _ => cases same
  | _ => trivial

end Json

/-! ## What equal pipelines say -/

/-- Of equal fields both can be said in a script. -/
theorem Fields.expressible_of_equal {as bs : Fields}
    (same : (Json.object as).equal (.object bs) = true) (distinct : as.KeysDistinct)
    (expressible : as.Expressible) : bs.Expressible := by
  have fit := Json.numbersFit_of_equal same ⟨distinct.1, distinct.2⟩ ⟨trivial, expressible.2⟩
  refine ⟨fun field mem => ?_, fit.2⟩
  simp only [Json.equal, Bool.and_eq_true, beq_iff_eq] at same
  obtain ⟨a, there, -⟩ := exists_equal distinct.1 same.1 same.2 mem
  exact expressible.1 (field.1, a) there

namespace Pipeline

/-- Of equal pipelines both can be said in a script. -/
theorem expressible_of_equal {p q : Pipeline} (same : p.equal q = true) (distinct : p.KeysDistinct)
    (expressible : p.Expressible) : q.Expressible := by
  simp only [Pipeline.equal, Bool.and_eq_true, beq_iff_eq, List.all_eq_true] at same
  obtain ⟨⟨⟨-, vars⟩, count⟩, steps⟩ := same
  refine ⟨Fields.expressible_of_equal vars distinct.1 expressible.1, fun step mem => ?_⟩
  obtain ⟨i, within, rfl⟩ := List.getElem_of_mem mem
  have within' : i < p.steps.length := count ▸ within
  have there : p.steps[i] ∈ p.steps := List.getElem_mem within'
  have paired : (p.steps[i], q.steps[i]) ∈ p.steps.zip q.steps := by
    apply List.mem_of_getElem? (i := i)
    rw [List.getElem?_zip_eq_some]
    exact ⟨List.getElem?_eq_getElem within', List.getElem?_eq_getElem within⟩
  have equal := steps _ paired
  simp only [Step.equal, Atom.equal, Bool.and_eq_true, beq_iff_eq] at equal
  obtain ⟨⟨⟨⟨⟨⟨-, action⟩, params⟩, -⟩, -⟩, -⟩, -⟩ := equal
  obtain ⟨bare, said⟩ := expressible.2 _ there
  exact ⟨action ▸ bare, Fields.expressible_of_equal params (distinct.2 _ there) said⟩

/-- What a script leaves out of a pipeline does not matter for saying it. -/
theorem expressible_of_scripted {p : Pipeline} (expressible : p.scripted.Expressible) :
    p.Expressible :=
  ⟨expressible.1, fun step mem => expressible.2 { atom := step.atom } (List.mem_map_of_mem mem)⟩

end Pipeline

namespace Script

/-- The script of the pipeline is read, and as one of another name, other variables or other calls. -/
def Misread (unknown : UnknownTypes) (p : Pipeline) : Prop :=
  ∃ q, parse unknown p.toScript = .ok q ∧ q.equal p.scripted = false

instance (unknown : UnknownTypes) (p : Pipeline) : Decidable (Misread unknown p) :=
  match parsed : parse unknown p.toScript with
  | .error _ => .isFalse fun ⟨_, read, _⟩ => by rw [parsed] at read; cases read
  | .ok q =>
    if same : q.equal p.scripted = false then .isTrue ⟨q, parsed, same⟩
    else .isFalse fun ⟨_, read, changed⟩ => by
      rw [parsed] at read
      cases read
      exact same changed

/-- **Scripts are faithful to what they can say, and to nothing else.** A pipeline with distinct keys
that a script can say is read from its script as what the script says of it. The script of any other
pipeline is refused, or misread. -/
theorem comes_back_or_misread (unknown : UnknownTypes) (p : Pipeline) (distinct : p.KeysDistinct) :
    (p.Expressible → parse unknown p.toScript = .ok p.scripted) ∧
    (¬ p.Expressible → (∃ e, parse unknown p.toScript = .error e) ∨ Misread unknown p) := by
  refine ⟨parse_toScript unknown distinct, fun beyond => ?_⟩
  cases parsed : parse unknown p.toScript with
  | error e => exact .inl ⟨e, rfl⟩
  | ok q =>
    obtain ⟨distinct', expressible, -⟩ := expressible_of_parse parsed
    refine .inr ⟨q, parsed, ?_⟩
    by_contra same
    rw [Bool.not_eq_false] at same
    have said := Pipeline.expressible_of_equal same distinct' expressible
    exact beyond (Pipeline.expressible_of_scripted said)

/-- A variable of which the name declares another one. -/
def twoInOne : Pipeline where
  name := "p"
  vars := [("a = 1\n  $b", .ofNat 2)]

/-- The two variables that are declared then. -/
def twoApart : Pipeline where
  name := "p"
  vars := [("a", .ofNat 1), ("b", .ofNat 2)]

/-- The two variables come back from their script. The one that has the same script does not. -/
theorem two_come_back_apart :
    twoApart.KeysDistinct ∧ twoInOne.KeysDistinct ∧ twoInOne.toScript = twoApart.toScript ∧
      parse .reject twoApart.toScript = .ok twoApart.scripted ∧ Misread .reject twoInOne := by
  have distinct : twoApart.KeysDistinct := by decide
  have distinct' : twoInOne.KeysDistinct := by decide
  have same : twoInOne.toScript = twoApart.toScript := by decide +kernel
  have back := (comes_back_or_misread .reject twoApart distinct).1 (by decide)
  have other := (comes_back_or_misread .reject twoInOne distinct').2 (by decide)
  refine ⟨distinct, distinct', same, back, other.resolve_left ?_⟩
  rintro ⟨e, refused⟩
  rw [same, back] at refused
  cases refused

/-- A whole number beyond the signed words. -/
def greatNumber : Pipeline where
  name := "p"
  vars := [("n", .ofNat 18446744073709551615)]

/-- A step of which the action is a step and the beginning of another. -/
def twoSteps : Pipeline where
  name := "p"
  steps := [{ atom := ⟨.data, "load() | data.load", []⟩ }]

/-- A parameter of which the name gives another one. -/
def twoParameters : Pipeline where
  name := "p"
  steps := [{ atom := ⟨.data, "load", [("a=1, b", .ofNat 2)]⟩ }]

/-- Nothing keeps a pipeline within the limits of a script when it is written, whichever limit it is
beyond. -/
theorem written_beyond_limits :
    Misread .reject twoInOne ∧ Misread .reject greatNumber ∧ Misread .reject twoSteps ∧
      Misread .reject twoParameters := by
  decide +kernel

end Script

end Pipework
