import Pipework.Json.Basic

/-!
# What a plain scalar means

A scalar without quotes is read as null, a boolean or a number where it spells
one, and as a text otherwise. Whole numbers may be written in the bases 2, 8
and 16 too; digits behind a leading zero spell no number. A whole number
beyond the words of a value is still one up to 128 bits, and then there is no
value for it.
-/

namespace Pipework.Yaml

/-- The meaning of a scalar. -/
inductive Meaning where
  | null
  | bool (value : Bool)
  | number (value : Number)
  /-- A whole number that no value can hold. -/
  | tooLarge
  /-- An infinity, or no number at all. -/
  | notFinite
  | text
  deriving DecidableEq

/-- Does the text spell null? -/
def isNullText (s : String) : Bool :=
  s == "null" || s == "Null" || s == "NULL" || s == "~"

/-- The boolean that a text spells. -/
def boolean? (s : String) : Option Bool :=
  if s == "true" || s == "True" || s == "TRUE" then some true
  else if s == "false" || s == "False" || s == "FALSE" then some false
  else none

/-- The value of a digit in a base. -/
def digitIn? (base : Nat) (c : Char) : Option Nat :=
  let d := c.toNat
  let value :=
    if '0' ≤ c ∧ c ≤ '9' then d - '0'.toNat
    else if 'a' ≤ c ∧ c ≤ 'f' then d - 'a'.toNat + 10
    else if 'A' ≤ c ∧ c ≤ 'F' then d - 'A'.toNat + 10
    else base
  if value < base then some value else none

/-- The number that digits of a base denote; there has to be a digit. -/
def numberIn? (base : Nat) : List Char → Option Nat
  | [] => none
  | cs => cs.foldlM (fun n c => (digitIn? base c).map (base * n + ·)) 0

/-- A whole number without a sign, in any of the bases. -/
def magnitude? : List Char → Option Nat
  | '0' :: 'x' :: cs => numberIn? 16 cs
  | '0' :: 'o' :: cs => numberIn? 8 cs
  | '0' :: 'b' :: cs => numberIn? 2 cs
  | cs => numberIn? 10 cs

/-- What follows a plus, if there is one. -/
def dropPlus : List Char → List Char
  | '+' :: cs => cs
  | cs => cs

/-- A zero with more digits behind it, which spells no number. -/
def isPaddedDigits (cs : List Char) : Bool :=
  match (Decimal.takeSign cs).2 with
  | '0' :: c :: cs => (c :: cs).all isAsciiDigit
  | _ => false

/-- A whole number that is not negative; a plus may stand in front. -/
def unsigned? (cs : List Char) : Option Nat :=
  if isPaddedDigits cs then none else magnitude? (dropPlus cs)

/-- A negative whole number, given by its size. -/
def negative? : List Char → Option Nat
  | '-' :: cs => if isPaddedDigits cs then none else magnitude? cs
  | _ => none

/-- The whole number that a text spells, of up to 128 bits. -/
def whole? (cs : List Char) : Option Int :=
  match unsigned? cs, negative? cs with
  | some n, _ => if n < twoTo 128 then some n else none
  | none, some n => if n ≤ twoTo 127 then some (-(n : Int)) else none
  | none, none => none

/-- Spellings of the infinities and of no number. -/
def notFinite : List String :=
  [".inf", ".Inf", ".INF", "+.inf", "+.Inf", "+.INF", "-.inf", "-.Inf", "-.INF", ".nan", ".NaN", ".NAN"]

/-- The finite double that a text spells. -/
def double? (cs : List Char) : Option Double :=
  match cs with
  | '+' :: '+' :: _ => none
  | '+' :: '-' :: _ => none
  | cs => Double.ofText? (dropPlus cs)

/-- A text as a number that is not whole. -/
def fraction (s : String) : Meaning :=
  if notFinite.contains s then .notFinite
  else if isPaddedDigits s.toList then .text
  else match double? s.toList with
    | some x => .number (.double x)
    | none => .text

/-- A text as a number. -/
def numeric (s : String) : Meaning :=
  match whole? s.toList with
  | some i =>
    match Number.ofInt? i with
    | some n => .number n
    | none => .tooLarge
  | none => fraction s

/-- What a scalar without quotes means. -/
def meaning (s : String) : Meaning :=
  if s.isEmpty || isNullText s then .null
  else match boolean? s with
    | some b => .bool b
    | none => numeric s

end Pipework.Yaml
