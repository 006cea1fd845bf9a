import Pipework.Pipeline
import Pipework.Proofs.Json.Fields
import Pipework.Script.Scan

/-!
# What a script can say

A script has no way to quote an action, the name of a parameter or the name of a variable, and its
whole numbers are signed words. A pipeline that stays within these limits is `Expressible`. Apart
from that, a pipeline is taken to keep its keys distinct, which its fields do by the way they are
built.

What a script does not say at all is what `Pipeline.scripted` leaves at its default.
-/

namespace Pipework

/-- The number is a signed word or a double. -/
def Number.Fits : Number → Prop
  | .integer i _ => i < 9223372036854775808
  | .double _ => True

instance : DecidablePred Number.Fits
  | .integer i _ => inferInstanceAs (Decidable (i < 9223372036854775808))
  | .double _ => inferInstanceAs (Decidable True)

namespace Json

mutual

/-- The value and all values inside it have the property. -/
def All (p : Json → Prop) : Json → Prop
  | .array items => p (.array items) ∧ AllItems p items
  | .object fields => p (.object fields) ∧ AllFields p fields
  | v => p v

/-- All items have the property, and all values inside them. -/
def AllItems (p : Json → Prop) : List Json → Prop
  | [] => True
  | v :: vs => All p v ∧ AllItems p vs

/-- The values of all fields have the property, and all values inside them. -/
def AllFields (p : Json → Prop) : List (String × Json) → Prop
  | [] => True
  | (_, v) :: fields => All p v ∧ AllFields p fields

end

/-- All values of a list are items of it. -/
theorem allItems_iff {p : Json → Prop} {items : List Json} :
    AllItems p items ↔ ∀ v ∈ items, All p v := by
  induction items with
  | nil => simp [AllItems]
  | cons v vs ih => simp [AllItems, ih]

/-- Every field has a value. -/
theorem allFields_iff {p : Json → Prop} {fields : List (String × Json)} :
    AllFields p fields ↔ ∀ field ∈ fields, All p field.2 := by
  induction fields with
  | nil => simp [AllFields]
  | cons field fields ih => simp [AllFields, ih]

mutual

/-- Whether all values have the property is decided value by value. -/
def decideAll (p : Json → Prop) [DecidablePred p] : (v : Json) → Decidable (All p v)
  | .array items =>
    haveI := decideAllItems p items
    inferInstanceAs (Decidable (p (.array items) ∧ AllItems p items))
  | .object fields =>
    haveI := decideAllFields p fields
    inferInstanceAs (Decidable (p (.object fields) ∧ AllFields p fields))
  | .null => inferInstanceAs (Decidable (p .null))
  | .bool b => inferInstanceAs (Decidable (p (.bool b)))
  | .number n => inferInstanceAs (Decidable (p (.number n)))
  | .string s => inferInstanceAs (Decidable (p (.string s)))

/-- The same for the items of a list. -/
def decideAllItems (p : Json → Prop) [DecidablePred p] :
    (items : List Json) → Decidable (AllItems p items)
  | [] => .isTrue trivial
  | v :: vs =>
    haveI := decideAll p v
    haveI := decideAllItems p vs
    inferInstanceAs (Decidable (All p v ∧ AllItems p vs))

/-- The same for the fields of an object. -/
def decideAllFields (p : Json → Prop) [DecidablePred p] :
    (fields : List (String × Json)) → Decidable (AllFields p fields)
  | [] => .isTrue trivial
  | (_, v) :: fields =>
    haveI := decideAll p v
    haveI := decideAllFields p fields
    inferInstanceAs (Decidable (All p v ∧ AllFields p fields))

end

instance (p : Json → Prop) [DecidablePred p] (fields : List (String × Json)) :
    Decidable (AllFields p fields) :=
  decideAllFields p fields

/-- A number on its own fits; what holds other values is judged by them. -/
def NumberFits : Json → Prop
  | .number n => n.Fits
  | _ => True

/-- The keys of an object are distinct, whatever its values are. -/
def KeysApart : Json → Prop
  | .object fields => Fields.Distinct fields
  | _ => True

instance : DecidablePred NumberFits
  | .number n => inferInstanceAs (Decidable n.Fits)
  | .null | .bool _ | .string _ | .array _ | .object _ => .isTrue trivial

instance : DecidablePred KeysApart
  | .object fields => inferInstanceAs (Decidable (Fields.Distinct fields))
  | .null | .bool _ | .number _ | .string _ | .array _ => .isTrue trivial

/-- Every number in the value fits. -/
abbrev NumbersFit (v : Json) : Prop := v.All NumberFits

/-- No object in the value has a key twice. -/
abbrev KeysDistinct (v : Json) : Prop := v.All KeysApart

end Json

namespace Fields

/-- The keys are distinct, and so are those of all objects in the values. -/
def KeysDistinct (fields : Fields) : Prop :=
  fields.Distinct ∧ Json.AllFields Json.KeysApart fields

/-- Every key can be written without quotes, and every number in the values fits. -/
def Expressible (fields : Fields) : Prop :=
  (∀ field ∈ fields, Script.isBareWord field.1 = true) ∧ Json.AllFields Json.NumberFits fields

instance (fields : Fields) : Decidable fields.KeysDistinct :=
  inferInstanceAs (Decidable (_ ∧ _))

instance (fields : Fields) : Decidable fields.Expressible :=
  inferInstanceAs (Decidable (_ ∧ _))

end Fields

namespace Pipeline

/-- No variable and no parameter of a step occurs twice, nor does a key of any object. -/
def KeysDistinct (p : Pipeline) : Prop :=
  p.vars.KeysDistinct ∧ ∀ step ∈ p.steps, Fields.KeysDistinct step.atom.params

/-- A script can say the pipeline. -/
def Expressible (p : Pipeline) : Prop :=
  p.vars.Expressible ∧ ∀ step ∈ p.steps,
    Script.isBareWord step.atom.action = true ∧ Fields.Expressible step.atom.params

instance (p : Pipeline) : Decidable p.KeysDistinct :=
  inferInstanceAs (Decidable (_ ∧ _))

instance (p : Pipeline) : Decidable p.Expressible :=
  inferInstanceAs (Decidable (_ ∧ _))

/-- What a script says of the pipeline: its name, its variables and its calls. -/
def scripted (p : Pipeline) : Pipeline :=
  { name := p.name, vars := p.vars, steps := p.steps.map fun step => { atom := step.atom } }

end Pipeline

end Pipework
