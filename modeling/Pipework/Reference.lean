import Pipework.Error
import Pipework.Json.Printer
import Pipework.Script.Scan

/-!
# References to variables

A text in a parameter may refer to variables as `$name` or `${name}`, with the
longest name that fits. A text that is one reference and nothing else becomes
the value of the variable, whatever its type. In any other text each reference
gives way to the value as text, and what has been put in is not looked at
again. A `$` that starts no reference stays.

Resolution goes through a value from left to right and stops at the first
reference to a variable without a value. Keys of objects are left alone.
-/

namespace Pipework

/-- A reference as written: its name and the characters it takes after the `$`. -/
structure Reference where
  name : List Char
  braced : Bool
  deriving DecidableEq, Repr

namespace Reference

/-- How many characters a reference takes after its `$`. -/
def length (r : Reference) : Nat :=
  r.name.length + if r.braced then 2 else 0

/-- The reference as it was written. -/
def chars (r : Reference) : List Char :=
  if r.braced then ['$', '{'] ++ r.name ++ ['}'] else '$' :: r.name

/-- The reference of which the `$` has been read. -/
def after? : List Char → Option Reference
  | [] => none
  | c :: cs =>
    if c = '{' then
      match cs with
      | [] => none
      | d :: ds =>
        let name := d :: ds.takeWhile Script.isWordChar
        if Script.isWordStart d && (ds.dropWhile Script.isWordChar).head? == some '}' then
          some ⟨name, true⟩
        else none
    else if Script.isWordStart c then some ⟨c :: cs.takeWhile Script.isWordChar, false⟩
    else none

end Reference

/-- A value as part of a text: a text as it is, anything else as JSON. -/
def Json.display : Json → String
  | .string s => s
  | v => v.compact

/-- What a variable name is bound to. -/
abbrev Lookup := String → Option Json

namespace Lookup

/-- The value of a reference. -/
def follow (lookup : Lookup) (r : Reference) : Except PipelineError Json :=
  match lookup (String.ofList r.name) with
  | some v => .ok v
  | none => .error (.undefinedVariable (String.ofList r.chars))

/-- The text with every reference replaced. -/
def interpolate (lookup : Lookup) : List Char → Except PipelineError (List Char)
  | [] => .ok []
  | c :: cs =>
    match if c = '$' then Reference.after? cs else none with
    | none => (interpolate lookup cs).map (c :: ·)
    | some r => do
      let v ← lookup.follow r
      let rest ← interpolate lookup (cs.drop r.length)
      .ok (v.display.toList ++ rest)
termination_by cs => cs.length
decreasing_by all_goals (simp; try omega)

/-- The reference that a whole text is. -/
def whole? : List Char → Option Reference
  | '$' :: cs => (Reference.after? cs).filter fun r => r.length == cs.length
  | _ => none

/-- What becomes of a text. -/
def resolveText (lookup : Lookup) (s : String) : Except PipelineError Json :=
  match whole? s.toList with
  | some r => lookup.follow r
  | none => (interpolate lookup s.toList).map fun cs => .string (String.ofList cs)

mutual

/-- What becomes of a value. -/
def resolve (lookup : Lookup) : Json → Except PipelineError Json
  | .string s => lookup.resolveText s
  | .array items => do .ok (.array (← resolveItems lookup items))
  | .object fields => do .ok (.object (← resolveFields lookup fields))
  | v => .ok v

/-- What becomes of the items of a list. -/
def resolveItems (lookup : Lookup) : List Json → Except PipelineError (List Json)
  | [] => .ok []
  | v :: vs => do
    let v ← resolve lookup v
    let vs ← resolveItems lookup vs
    .ok (v :: vs)

/-- What becomes of the values of an object, or of the parameters of a call. -/
def resolveFields (lookup : Lookup) : List (String × Json) → Except PipelineError (List (String × Json))
  | [] => .ok []
  | (k, v) :: fields => do
    let v ← resolve lookup v
    let fields ← resolveFields lookup fields
    .ok ((k, v) :: fields)

end

end Lookup

end Pipework
