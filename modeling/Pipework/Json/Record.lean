import Pipework.Json.Reader

/-!
# Reading records

A record is read straight from the text, without a value in between, so that
the first fault in text order is the one reported, whether the text stops
being JSON there or stops having the right shape.

A `Member` says how one field is read into a draft of the record. The fields
may come as an object in any order, unknown ones being passed over, or as a
list in the order of the members. The depth that a reader is given is how many
lists and objects may still be opened.
-/

namespace Pipework.Json

/-- How faults describe a number. -/
def describeNumber : Number → String
  | .integer i _ => "integer " ++ Fault.marked (toString i)
  | .double x => "floating point " ++ Fault.marked (x.toDecimal.text Number.layout)

/-- The fault of a value that is not what was asked for. The value is looked at
as far as its description needs, so it may have a fault of its own. -/
def refuse {α : Type} (expected : String) (cs : List Char) : Except Stop α :=
  let wrong (found : String) (rest : List Char) : Except Stop α :=
    (Fault.wrongType found expected).before rest
  match cs with
  | [] => Fault.noValue.before []
  | 'n' :: cs => do wrong "null" (← readWord ['u', 'l', 'l'] cs)
  | 't' :: cs => do wrong ("boolean " ++ Fault.marked "true") (← readWord ['r', 'u', 'e'] cs)
  | 'f' :: cs => do wrong ("boolean " ++ Fault.marked "false") (← readWord ['a', 'l', 's', 'e'] cs)
  | '-' :: cs => do
    let (n, rest) ← readNumber true cs
    wrong (describeNumber n) rest
  | '"' :: cs => do
    let (s, rest) ← readQuoted cs
    wrong ("string " ++ Text.shown s) rest
  | '[' :: rest => wrong "sequence" ('[' :: rest)
  | '{' :: rest => wrong "map" ('{' :: rest)
  | c :: cs =>
    if isAsciiDigit c then do
      let (n, rest) ← readNumber false (c :: cs)
      wrong (describeNumber n) rest
    else Fault.noValue.within (c :: cs)

/-- A text, described in faults as `expected`. -/
def readTextAs (expected : String) : Reader String := fun cs =>
  match skipBlanks cs with
  | [] => Fault.endInValue.before []
  | '"' :: cs => readQuoted cs
  | cs => refuse expected cs

/-- A text. -/
def readText : Reader String := readTextAs "a string"

/-- `null` for nothing, or something. -/
def readOptional {α : Type} (read : Reader α) : Reader (Option α) := fun cs =>
  match skipBlanks cs with
  | 'n' :: cs => do .ok (none, ← readWord ['u', 'l', 'l'] cs)
  | cs => do
    let (v, cs) ← read cs
    .ok (some v, cs)

/-- A whole number of the unsigned 64-bit range. -/
def readUnsigned : Reader UInt64 := fun cs =>
  let expected := "u64"
  let judge (n : Number) (cs : List Char) : Except Stop (UInt64 × List Char) :=
    match n with
    | .integer i _ =>
      if 0 ≤ i then .ok (i.toNat.toUInt64, cs)
      else (Fault.wrongValue (describeNumber n) expected).before cs
    | .double _ => (Fault.wrongType (describeNumber n) expected).before cs
  match skipBlanks cs with
  | [] => Fault.endInValue.before []
  | '-' :: cs => do
    let (n, cs) ← readNumber true cs
    judge n cs
  | c :: cs =>
    if isAsciiDigit c then do
      let (n, cs) ← readNumber false (c :: cs)
      judge n cs
    else refuse expected (c :: cs)

/-- Goes into a list or an object whose bracket has been read, if the depth
allows one more. -/
def enter {α : Type} (depth : Nat) (cs : List Char) (inside : Nat → Except Stop α) : Except Stop α :=
  match depth with
  | 0 => Fault.tooDeep.before cs
  | depth + 1 => inside depth

/-- One of a fixed set of names, as a text or as an object `{name: null}`. -/
def readVariant {α : Type} (names : List String) (ofName? : String → Option α) (depth : Nat) :
    Reader α := fun cs =>
  let choose (name : String) (rest : List Char) : Except Stop α :=
    match ofName? name with
    | some a => .ok a
    | none => (Fault.unknownVariant name names).before rest
  match skipBlanks cs with
  | [] => Fault.endInValue.before []
  | '"' :: cs => do
    let (name, cs) ← readQuoted cs
    .ok (← choose name cs, cs)
  | '{' :: cs => enter depth cs fun _ => do
    let (name, cs) ← readTextAs "variant identifier" cs
    let a ← choose name cs
    let cs ← readColon cs
    let cs ← match skipBlanks cs with
      | [] => Fault.endInValue.before []
      | 'n' :: cs => readWord ['u', 'l', 'l'] cs
      | cs => refuse "unit" cs
    match skipBlanks cs with
    | [] => Fault.endInObject.before []
    | '}' :: cs => .ok (a, cs)
    | cs => Fault.noValue.before cs
  | cs => Fault.noValue.within cs

/-- An object of values under any keys. -/
def readMap (depth : Nat) : Reader Fields := fun cs =>
  match skipBlanks cs with
  | [] => Fault.endInValue.before []
  | '{' :: cs => enter depth cs fun depth =>
    readMembers (readField (readValue depth)) (cs.length + 1) true [] cs
  | cs => refuse "a map" cs

/-- A list of things of one kind. -/
def readSequence {α : Type} (read : (depth : Nat) → Reader α) (depth : Nat) :
    Reader (List α) := fun cs =>
  match skipBlanks cs with
  | [] => Fault.endInValue.before []
  | '[' :: cs => enter depth cs fun depth => readItems (read depth) (cs.length + 1) true cs
  | cs => refuse "a sequence" cs

/-! ## Records -/

/-- One field of a record of which `σ` is the draft. -/
structure Member (σ : Type) where
  name : String
  /-- May the field not be left out? -/
  required : Bool
  /-- Has the draft got the field already? -/
  present : σ → Bool
  /-- Reads the field into the draft, given the depth inside the record. -/
  read : (depth : Nat) → σ → Reader σ

/-- A member that sets its part of the draft with what `read` reads. -/
def Member.of {σ α : Type} (name : String) (required : Bool) (get : σ → Option α)
    (set : σ → α → σ) (read : (depth : Nat) → Reader α) : Member σ where
  name := name
  required := required
  present draft := (get draft).isSome
  read depth draft cs := do
    let (v, cs) ← read depth cs
    .ok (set draft v, cs)

/-- Where the fault of a member is placed: behind the blanks, and behind the
closing brace if that comes next. -/
def afterMember (cs : List Char) : List Char :=
  match skipBlanks cs with
  | '}' :: cs => cs
  | cs => cs

/-- A key of a record's object and its value. -/
def readMember {σ : Type} (members : List (Member σ)) (depth : Nat) (draft : σ) (key : String) :
    Reader σ := fun cs =>
  match members.find? (·.name == key) with
  | none => do .ok (draft, ← skipValue (← readColon cs))
  | some m =>
    if m.present draft then (Fault.duplicateField key).before (afterMember cs)
    else do m.read depth draft (← readColon cs)

/-- The items of a record's list, in the order of the members. Members at the
end may be missing unless they are required; `index` counts those before. -/
def readInOrder {σ : Type} (lengthText : String) (depth : Nat) :
    (index : Nat) → List (Member σ) → σ → Reader σ
  | _, [], draft, cs => .ok (draft, cs)
  | index, m :: ms, draft, cs => do
    match ← nextItem (index == 0) cs with
    | some cs =>
      let (draft, cs) ← m.read depth draft cs
      readInOrder lengthText depth (index + 1) ms draft cs
    | none =>
      if m.required then do (Fault.wrongLength index lengthText).before (← endList cs)
      else readInOrder lengthText depth (index + 1) ms draft cs

/-- The draft of a record. -/
def readRecord {σ : Type} (title : String) (members : List (Member σ)) (blank : σ)
    (depth : Nat) : Reader σ := fun cs =>
  match skipBlanks cs with
  | [] => Fault.endInValue.before []
  | '[' :: cs => enter depth cs fun depth => do
    let lengthText := title ++ " with " ++ toString members.length ++
      (if members.length = 1 then " element" else " elements")
    let (draft, cs) ← readInOrder lengthText depth 0 members blank cs
    .ok (draft, ← endList cs)
  | '{' :: cs => enter depth cs fun depth => do
    let (draft, cs) ← readMembers (readMember members depth) (cs.length + 1) true blank cs
    match members.find? (fun m => m.required && !m.present draft) with
    | some m => (Fault.missingField m.name).before cs
    | none => .ok (draft, cs)
  | cs => refuse title cs

end Pipework.Json
