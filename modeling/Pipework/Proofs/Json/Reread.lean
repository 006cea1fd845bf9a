import Pipework.Proofs.Json.Numbers
import Pipework.Proofs.Script.Expressible

/-!
# What is read for what was written

A document is read as what was written in it, but for its doubles: each of them is read as
`Double.reread` says, most of them as themselves. So what is read from the document of a pipeline is
the pipeline with every double reread, and the program takes the two for equal exactly when every
double in it is kept. The sign of a zero does not matter to the program, and rereading does not change
it.
-/

namespace Pipework

/-! ## Numbers -/

/-- A number and what is read for it are equal exactly when nothing is lost. -/
theorem Number.reread_equal_iff {n : Number} :
    n.reread.equal n = true ↔ ∀ x, n = .double x → x.Kept := by
  cases n with
  | integer i inRange =>
    refine iff_of_true ?_ nofun
    exact beq_self_eq_true i
  | double x =>
    have units : (x.reread.cmp x == .eq) = true ↔ x.reread.units = x.units := by
      rw [beq_iff_eq, Double.cmp, Std.LawfulEqOrd.compare_eq_iff_eq]
    rw [reread, equal, units]
    constructor
    · rintro same _ ⟨⟩
      refine Json.kept_iff.mpr (Double.eq_of_magnitude (Json.negative_reread x) ?_)
      rw [← Double.natAbs_units, ← Double.natAbs_units, same]
    · intro kept
      rw [Json.kept_iff.mp (kept x rfl)]

namespace Json

/-! ## Values -/

mutual

/-- The value that is read where a value is written. -/
def reread : Json → Json
  | .number n => .number n.reread
  | .array items => .array (rereadItems items)
  | .object fields => .object (rereadFields fields)
  | v => v

/-- The items that are read for the items of a list. -/
def rereadItems : List Json → List Json
  | [] => []
  | v :: vs => v.reread :: rereadItems vs

/-- The fields that are read for the fields of an object. -/
def rereadFields : List (String × Json) → List (String × Json)
  | [] => []
  | (key, v) :: fields => (key, v.reread) :: rereadFields fields

end

theorem rereadItems_eq_map (items : List Json) : rereadItems items = items.map reread := by
  induction items with
  | nil => rfl
  | cons v vs ih => rw [rereadItems, ih, List.map_cons]

/-- The keys of an object are read as they are. -/
theorem keys_rereadFields (fields : List (String × Json)) :
    (rereadFields fields).map Prod.fst = fields.map Prod.fst := by
  induction fields with
  | nil => rfl
  | cons field fields ih => rw [rereadFields, List.map_cons, List.map_cons, ih]

/-- A double on its own is kept; what holds other values is judged by them. -/
def DoubleKept : Json → Prop
  | .number (.double x) => x.Kept
  | _ => True

instance : DecidablePred DoubleKept
  | .number (.double x) => inferInstanceAs (Decidable x.Kept)
  | .number (.integer _ _) | .null | .bool _ | .string _ | .array _ | .object _ => .isTrue trivial

/-- Every double in the value is read back as itself. -/
abbrev DoublesKept (v : Json) : Prop := v.All DoubleKept

mutual

/-- A value in which every double is kept is read as itself. -/
theorem reread_of_kept : (v : Json) → v.DoublesKept → v.reread = v
  | .null, _ | .bool _, _ | .string _, _ | .number (.integer _ _), _ => rfl
  | .number (.double x), kept => by rw [reread, Number.reread, kept_iff.mp kept]
  | .array items, kept => by rw [reread, rereadItems_of_kept items kept.2]
  | .object fields, kept => by rw [reread, rereadFields_of_kept fields kept.2]

/-- The same of the items of a list. -/
theorem rereadItems_of_kept : (items : List Json) → AllItems DoubleKept items →
    rereadItems items = items
  | [], _ => rfl
  | v :: vs, kept => by rw [rereadItems, reread_of_kept v kept.1, rereadItems_of_kept vs kept.2]

/-- The same of the fields of an object. -/
theorem rereadFields_of_kept : (fields : List (String × Json)) → AllFields DoubleKept fields →
    rereadFields fields = fields
  | [], _ => rfl
  | (key, v) :: fields, kept => by
    rw [rereadFields, reread_of_kept v kept.1, rereadFields_of_kept fields kept.2]

end

mutual

/-- The program takes a value and what is read for it to be equal exactly when every double in it is
kept. -/
theorem reread_equal_iff (v : Json) (distinct : v.KeysDistinct) :
    v.reread.equal v = true ↔ v.DoublesKept := by
  cases v with
  | null | bool _ | string _ => exact iff_of_true (by simp only [reread, equal, beq_self_eq_true]) trivial
  | number n =>
    rw [reread, equal, Number.reread_equal_iff]
    cases n with
    | integer i inRange => exact iff_of_true nofun trivial
    | double x => exact ⟨fun kept => kept x rfl, by rintro kept _ ⟨⟩; exact kept⟩
  | array items =>
    rw [reread, equal, equalItems_reread_iff items distinct.2]
    exact ⟨fun kept => ⟨trivial, kept⟩, And.right⟩
  | object fields =>
    have found : ∀ field ∈ fields, fields.lookup field.1 = some field.2 :=
      fun field mem => (lookup_eq_some_of_nodup distinct.1).mpr mem
    have lengths : (rereadFields fields).length = fields.length := by
      rw [← List.length_map (f := Prod.fst), keys_rereadFields, List.length_map]
    rw [reread, equal, lengths, beq_self_eq_true, Bool.true_and,
      equalFields_reread_iff fields fields found distinct.2]
    exact ⟨fun kept => ⟨trivial, kept⟩, And.right⟩
termination_by structural v

/-- The same of the items of a list. -/
theorem equalItems_reread_iff (items : List Json) (distinct : AllItems KeysApart items) :
    equalItems (rereadItems items) items = true ↔ AllItems DoubleKept items := by
  cases items with
  | nil => exact iff_of_true rfl trivial
  | cons v vs =>
    rw [rereadItems, equalItems, Bool.and_eq_true, reread_equal_iff v distinct.1,
      equalItems_reread_iff vs distinct.2]
    rfl
termination_by structural items

/-- The same of fields that are among those of an object. -/
theorem equalFields_reread_iff (fields whole : List (String × Json))
    (found : ∀ field ∈ fields, whole.lookup field.1 = some field.2)
    (distinct : AllFields KeysApart fields) :
    equalFields (rereadFields fields) whole = true ↔ AllFields DoubleKept fields := by
  cases fields with
  | nil => exact iff_of_true rfl trivial
  | cons field fields =>
    obtain ⟨key, v⟩ := field
    have here : whole.lookup key = some v := found (key, v) List.mem_cons_self
    have more := equalFields_reread_iff fields whole
      (fun field mem => found field (List.mem_cons_of_mem _ mem)) distinct.2
    simp only [rereadFields, equalFields, here]
    rw [Bool.and_eq_true, reread_equal_iff v distinct.1, more]
    rfl
termination_by structural fields

end

end Json

/-! ## Pipelines -/

/-- The atom with every double in its parameters reread. -/
def Atom.reread (atom : Atom) : Atom :=
  { atom with params := Json.rereadFields atom.params }

/-- The step with every double in its parameters reread. -/
def Step.reread (step : Step) : Step :=
  { step with atom := step.atom.reread }

namespace Pipeline

/-- The pipeline that is read from the document of a pipeline. -/
def reread (p : Pipeline) : Pipeline :=
  { p with vars := Json.rereadFields p.vars, steps := p.steps.map Step.reread }

/-- Every double in the variables and in the parameters of the steps is read back as itself. -/
def DoublesKept (p : Pipeline) : Prop :=
  Json.AllFields Json.DoubleKept p.vars ∧
    ∀ step ∈ p.steps, Json.AllFields Json.DoubleKept step.atom.params

instance (p : Pipeline) : Decidable p.DoublesKept :=
  inferInstanceAs (Decidable (_ ∧ _))

/-- Such a pipeline is read as itself. -/
theorem reread_of_kept {p : Pipeline} (kept : p.DoublesKept) : p.reread = p := by
  have steps : p.steps.map Step.reread = p.steps := by
    refine (List.map_congr_left fun step mem => ?_).trans (List.map_id _)
    rw [Step.reread, Atom.reread, Json.rereadFields_of_kept _ (kept.2 step mem)]
    rfl
  rw [reread, Json.rereadFields_of_kept _ kept.1, steps]

/-- Any other is not, nor as one that the program takes to be equal. -/
theorem reread_equal_iff {p : Pipeline} (distinct : p.KeysDistinct) :
    p.reread.equal p = true ↔ p.DoublesKept := by
  have fields {fields : Fields} (distinct : fields.KeysDistinct) :
      (Json.object (Json.rereadFields fields)).equal (.object fields) = true ↔
        Json.AllFields Json.DoubleKept fields :=
    (Json.reread_equal_iff (.object fields) ⟨distinct.1, distinct.2⟩).trans
      ⟨And.right, fun kept => ⟨trivial, kept⟩⟩
  have step (step : Step) (distinct : Fields.KeysDistinct step.atom.params) :
      step.reread.equal step = true ↔ Json.AllFields Json.DoubleKept step.atom.params := by
    simp only [Step.equal, Atom.equal, Step.reread, Atom.reread, beq_self_eq_true, Bool.true_and,
      Bool.and_true, fields distinct]
  simp only [equal, reread, beq_self_eq_true, Bool.true_and, List.length_map, Bool.and_eq_true,
    and_true, fields distinct.1]
  refine and_congr_right fun _ => ?_
  rw [← List.map_prod_right_eq_zip, List.all_map, List.all_eq_true]
  exact forall₂_congr fun s mem => step s (distinct.2 s mem)

end Pipeline

end Pipework
