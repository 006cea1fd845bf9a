import Pipework.Number.Decimal

/-!
# JSON values

The one dynamic value of a pipeline: parameters, variables and data are all
`Json`. Objects keep the order in which their keys first came, so they are
lists of pairs, and the operations on `Fields` keep keys distinct.

Numbers are of two kinds that stay apart: whole numbers of the 64-bit ranges,
signed or unsigned, and finite doubles. `2` and `2.0` are different values.

Two notions of sameness live here. `=` tells everything apart. `Json.equal` is
the program's own: objects are compared without regard to order, and the two
zeros among the doubles are equal.
-/

namespace Pipework

/-- The whole numbers a value can hold: from the least signed to the greatest
unsigned 64-bit number. -/
abbrev InWordRange (i : Int) : Prop :=
  -9223372036854775808 ≤ i ∧ i < 18446744073709551616

/-- A number as a value holds it. -/
inductive Number where
  | integer (value : Int) (inRange : InWordRange value)
  | double (value : Double)
  deriving DecidableEq

namespace Number

/-- A whole number, when it is within the word ranges. -/
def ofInt? (i : Int) : Option Number :=
  if h : InWordRange i then some (.integer i h) else none

/-- The number 0. -/
def zero : Number := .integer 0 (by decide)

instance : Inhabited Number := ⟨zero⟩

/-- A count as a number; counts beyond the unsigned range do not occur and read
as the greatest one. -/
def ofNat (n : Nat) : Number :=
  (ofInt? n).getD (.integer 18446744073709551615 (by decide))

/-- The number as a signed word, if it is a whole number that fits. -/
def toSigned? : Number → Option Int
  | .integer i _ => if i < 9223372036854775808 then some i else none
  | .double _ => none

/-- The number as an unsigned word, if it is a whole number that is not negative. -/
def toUnsigned? : Number → Option Nat
  | .integer i _ => if 0 ≤ i then some i.toNat else none
  | .double _ => none

/-- The nearest double. Whole numbers within the word ranges always have one. -/
def toDouble : Number → Double
  | .integer i _ => (Double.ofInt? i).getD default
  | .double x => x

/-- Same kind and same numeric value. -/
def equal : Number → Number → Bool
  | .integer a _, .integer b _ => a == b
  | .double a, .double b => a.cmp b == .eq
  | _, _ => false

/-- How doubles are written in JSON. -/
def layout : Decimal.Layout := ⟨some (-5, 15), "+"⟩

/-- The number as JSON text. -/
def text : Number → String
  | .integer i _ => toString i
  | .double x => x.toDecimal.text layout

end Number

/-- A JSON value. -/
inductive Json where
  | null
  | bool (value : Bool)
  | number (value : Number)
  | string (value : String)
  | array (items : List Json)
  | object (fields : List (String × Json))
  deriving Inhabited

/-- The fields of an object in the order of their first appearance. -/
abbrev Fields := List (String × Json)

namespace Fields

/-- The value under a key. -/
def get? (fields : Fields) (key : String) : Option Json :=
  fields.lookup key

/-- Is there a value under this key? -/
def contains (fields : Fields) (key : String) : Bool :=
  fields.any (·.1 == key)

/-- Sets a key: a known key keeps its place, a new one goes last. -/
def insert : Fields → String → Json → Fields
  | [], key, value => [(key, value)]
  | (k, v) :: rest, key, value =>
    if k == key then (k, value) :: rest else (k, v) :: insert rest key value

/-- The fields of pairs given in order, later ones overwriting earlier ones. -/
def ofList (pairs : List (String × Json)) : Fields :=
  pairs.foldl (fun fields (k, v) => insert fields k v) []

/-- No key occurs twice. -/
def Distinct (fields : Fields) : Prop :=
  (fields.map Prod.fst).Nodup

end Fields

namespace Json

/-- A whole number as a value. -/
def ofNat (n : Nat) : Json := .number (.ofNat n)

/-- A double as a value; one beyond the finite range leaves `null`. -/
def ofDouble? : Option Double → Json
  | some x => .number (.double x)
  | none => .null

/-- An absent text as `null`. -/
def ofText? : Option String → Json
  | some s => .string s
  | none => .null

def string? : Json → Option String
  | .string s => some s
  | _ => none

def array? : Json → Option (List Json)
  | .array items => some items
  | _ => none

def object? : Json → Option Fields
  | .object fields => some fields
  | _ => none

def isNull : Json → Bool
  | .null => true
  | _ => false

/-- The value under a key, when this is an object that has it. -/
def get? (v : Json) (key : String) : Option Json :=
  v.object?.bind (Fields.get? · key)

/-! ## Equality -/

mutual

/-- The program's equality: numbers by kind and numeric value, objects as maps. -/
def equal : Json → Json → Bool
  | .null, .null => true
  | .bool a, .bool b => a == b
  | .number a, .number b => a.equal b
  | .string a, .string b => a == b
  | .array as, .array bs => equalItems as bs
  | .object as, .object bs => as.length == bs.length && equalFields as bs
  | _, _ => false

/-- Lists are equal item by item. -/
def equalItems : List Json → List Json → Bool
  | [], [] => true
  | a :: as, b :: bs => a.equal b && equalItems as bs
  | _, _ => false

/-- Every field on the left has an equal one on the right, wherever it stands. -/
def equalFields : List (String × Json) → List (String × Json) → Bool
  | [], _ => true
  | (k, a) :: as, bs =>
    (match bs.lookup k with
     | some b => a.equal b
     | none => false) && equalFields as bs

end

/-! ## Nesting -/

mutual

/-- How many arrays and objects are open at the deepest place. -/
def depth : Json → Nat
  | .array items => depthItems items + 1
  | .object fields => depthFields fields + 1
  | _ => 0

/-- The deepest nesting among the items of a list. -/
def depthItems : List Json → Nat
  | [] => 0
  | v :: vs => max v.depth (depthItems vs)

/-- The deepest nesting among the values of an object. -/
def depthFields : List (String × Json) → Nat
  | [] => 0
  | (_, v) :: fields => max v.depth (depthFields fields)

end

end Json

end Pipework
