import Pipework.Declaration
import Pipework.Reference
import Pipework.Text.Classes
import Pipework.Text.Shown

/-!
# Rows

What the built-in atoms do to the current data, as functions from parameters
and data to a new value. The data is a list of rows, as a rule of objects; a
filter also takes an object with one list in it.

Two orders are used. `compare?` relates values of one kind only, and numbers in
it as doubles. `sortOrder` relates all values: first by `compare?`, and where
that says nothing, by kind.
-/

namespace Pipework.Rows

/-- The failure of an atom. -/
def fail {α : Type} (message : String) : Except AtomError α := .error ⟨message⟩

/-! ## Values -/

/-- How messages name the kind of a value. -/
def kindName : Json → String
  | .null => "null"
  | .bool _ => "bool"
  | .number _ => "number"
  | .string _ => "string"
  | .array _ => "list"
  | .object _ => "object"

/-- Is the value something? Zero and everything empty is nothing. -/
def isTruthy : Json → Bool
  | .null => false
  | .bool b => b
  | .number n => n.toDouble.mantissa != 0
  | .string s => !s.isEmpty
  | .array items => !items.isEmpty
  | .object fields => !fields.isEmpty

/-- Equality in conditions: signed whole numbers as they are, other numbers as
doubles, everything else as JSON. -/
def sameValue : Json → Json → Bool
  | .number a, .number b =>
    match a.toSigned?, b.toSigned? with
    | some a, some b => a == b
    | _, _ => a.toDouble.cmp b.toDouble == .eq
  | a, b => a.equal b

/-- The order within a kind that has one. -/
def compare? : Json → Json → Option Ordering
  | .number a, .number b => some (a.toDouble.cmp b.toDouble)
  | .string a, .string b => some (compare a b)
  | .bool a, .bool b => some (compare a b)
  | _, _ => none

/-- The place of a kind among the kinds. -/
def rank : Json → Nat
  | .null => 0
  | .bool _ => 1
  | .number _ => 2
  | .string _ => 3
  | .array _ => 4
  | .object _ => 5

/-- The order for sorting, of all values. -/
def sortOrder (a b : Json) : Ordering :=
  (compare? a b).getD (compare (rank a) (rank b))

/-- The rows of data that is a list. -/
def expectRows (atom : String) : Json → Except AtomError (List Json)
  | .array rows => .ok rows
  | v => fail (atom ++ " expects a list, got " ++ kindName v)

/-- One text, or a list of texts. -/
def textList : Json → Except AtomError (List String)
  | .string s => .ok [s]
  | .array items => items.mapM fun
    | .string s => .ok s
    | v => fail ("expected a string, got " ++ v.compact)
  | v => fail ("expected a list of strings, got " ++ kindName v)

/-- The parameter `data` if it is something, and else the data there is. -/
def fromInput (params : Params) (data : Json) : Json :=
  ((params.get? "data").filter isTruthy).getD data

/-! ## Filter -/

/-- A relation between the value of a field and the value of a condition. -/
inductive Operator where
  | eq
  | ne
  | gt
  | gte
  | lt
  | lte
  | among
  | contains
  deriving DecidableEq, Repr

namespace Operator

def all : List Operator := [.eq, .ne, .gt, .gte, .lt, .lte, .among, .contains]

/-- The name behind the two underscores of a condition. -/
def name : Operator → String
  | .eq => "eq"
  | .ne => "ne"
  | .gt => "gt"
  | .gte => "gte"
  | .lt => "lt"
  | .lte => "lte"
  | .among => "in"
  | .contains => "contains"

def ofName? (name : String) : Option Operator :=
  all.find? (·.name == name)

/-- Does a text hold another one, anywhere? -/
def holdsText (part : List Char) : List Char → Bool
  | [] => part.isEmpty
  | c :: cs => part.isPrefixOf (c :: cs) || holdsText part cs

/-- Does the value of a field stand in the relation to the expected value? -/
def holds (op : Operator) (actual expected : Json) : Bool :=
  match op with
  | .eq => sameValue actual expected
  | .ne => !sameValue actual expected
  | .gt => compare? actual expected == some .gt
  | .gte => compare? actual expected == some .gt || compare? actual expected == some .eq
  | .lt => compare? actual expected == some .lt
  | .lte => compare? actual expected == some .lt || compare? actual expected == some .eq
  | .among =>
    match expected with
    | .array options => options.any (sameValue actual)
    | _ => false
  | .contains =>
    match actual with
    | .string s => holdsText expected.display.toList s.toList
    | .array items => items.any (sameValue · expected)
    | _ => false

end Operator

/-- What stands before and behind the first two underscores. -/
def splitKey : List Char → Option (List Char × List Char)
  | [] => none
  | [_] => none
  | '_' :: '_' :: cs => some ([], cs)
  | c :: cs => (splitKey cs).map fun (field, op) => (c :: field, op)

/-- A condition on a field; there is no operator if its name is none. -/
structure Condition where
  field : String
  operator : Option Operator
  expected : Json

namespace Condition

/-- The condition of a parameter: `field` for equality, or `field__operator`. -/
def ofParam (key : String) (expected : Json) : Condition :=
  match splitKey key.toList with
  | none => ⟨key, some .eq, expected⟩
  | some (field, op) => ⟨String.ofList field, Operator.ofName? (String.ofList op), expected⟩

/-- Does a row meet the condition? A row without the field does not. -/
def holds (c : Condition) (row : Fields) : Bool :=
  match row.get? c.field, c.operator with
  | some actual, some op => op.holds actual c.expected
  | _, _ => false

end Condition

/-- Parameters that do not begin with an underscore. -/
def plainParams (params : Params) : Params :=
  params.filter fun (k, _) => k.toList.head? != some '_'

/-- The conditions of a call. -/
def conditions (params : Params) : List Condition :=
  (plainParams params).map fun (k, v) => .ofParam k v

/-- Does a row meet all conditions? What is no object meets none. -/
def meets (cs : List Condition) : Json → Bool
  | .object row => cs.all (·.holds row)
  | _ => false

/-- Fields that hold the rows of an object, the likeliest first. -/
def rowFields : List String := ["data", "rows", "readings", "monthly", "items", "records"]

/-- Is the value a list? -/
def isList (v : Json) : Bool := v.array?.isSome

/-- The field that holds the rows of an object: the first known one that is a
list, or else the only list there is. -/
def rowsKey? (fields : Fields) : Option String :=
  match rowFields.find? fun k => (Fields.get? fields k).any isList with
  | some k => some k
  | none =>
    match fields.filter fun (_, v) => isList v with
    | [(k, _)] => some k
    | _ => none

/-- The rows that meet the conditions. -/
def keep (cs : List Condition) (rows : List Json) : List Json :=
  rows.filter (meets cs)

/-- The data with only the rows that meet the conditions. -/
def filter (params : Params) (data : Json) : Except AtomError Json :=
  let cs := conditions params
  match data with
  | .array rows => .ok (.array (keep cs rows))
  | .object fields =>
    match rowsKey? fields with
    | none => fail "transform.filter: data object has no single list of rows"
    | some key =>
      match Fields.get? fields key with
      | some (.array rows) => .ok (.object (Fields.insert fields key (.array (keep cs rows))))
      | _ => .ok (.object fields)
  | v => fail ("transform.filter expects a list, got " ++ kindName v)

/-! ## Sort, limit, select, rename -/

/-- The value that a row is sorted by: its field, or the number 0. -/
def sortKey (field : String) (row : Json) : Json :=
  (row.get? field).getD (.number .zero)

/-- May `a` stand before `b`? -/
def inOrder (field : String) (descending : Bool) (a b : Json) : Bool :=
  let order := sortOrder (sortKey field a) (sortKey field b)
  (if descending then order.swap else order) != .gt

/-- The rows in order; rows that compare equal stay as they were. -/
def sortBy (field : String) (descending : Bool) (rows : List Json) : List Json :=
  rows.mergeSort (inOrder field descending)

/-- The field to sort by. -/
def sortField (params : Params) : Except AtomError String :=
  match (params.get? "by").bind Json.string? with
  | some field => .ok field
  | none => fail "transform.sort requires a 'by' field"

/-- Is the order `desc`, in letters of either case? -/
def isDescending (params : Params) : Bool :=
  ((params.get? "order").bind Json.string?).any fun s => s.toList.map Char.toLower == "desc".toList

def sort (params : Params) (data : Json) : Except AtomError Json := do
  let field ← sortField params
  let rows ← expectRows "transform.sort" data
  .ok (.array (sortBy field (isDescending params) rows))

/-- How many rows are kept when nothing else is said. -/
def defaultLimit : Nat := 10

def limit (params : Params) (data : Json) : Except AtomError Json := do
  let n ← match params.get? "n" with
    | none | some .null => .ok defaultLimit
    | some v =>
      match v with
      | .number n =>
        match n.toUnsigned? with
        | some n => .ok n
        | none => fail ("transform.limit: invalid n " ++ v.compact)
      | _ => fail ("transform.limit: invalid n " ++ v.compact)
  let rows ← expectRows "transform.limit" data
  .ok (.array (rows.take n))

/-- The listed fields of a row; what is no object stays as it is. -/
def selectRow (names : List String) : Json → Json
  | .object row => .object (row.filter fun (k, _) => names.contains k)
  | v => v

def select (params : Params) (data : Json) : Except AtomError Json := do
  let names ← match params.get? "fields" with
    | none => .ok []
    | some v => textList v
  let rows ← expectRows "transform.select" data
  .ok (.array (rows.map (selectRow names)))

/-- Old and new names: of the object `mapping` if there is one, or else of all
parameters that do not begin with an underscore. Only texts name a field. -/
def newNames (params : Params) : List (String × String) :=
  let pairs := match params.get? "mapping" with
    | some (.object fields) => fields
    | _ => plainParams params
  pairs.filterMap fun (k, v) => v.string?.map fun new => (k, new)

/-- A row with its fields under their new names. A field whose new name is
taken already overwrites the one that has it. -/
def renameRow (names : List (String × String)) : Json → Json
  | .object row => .object (Fields.ofList (row.map fun (k, v) => ((names.lookup k).getD k, v)))
  | v => v

def rename (params : Params) (data : Json) : Except AtomError Json := do
  let rows ← expectRows "transform.rename" data
  .ok (.array (rows.map (renameRow (newNames params))))

/-! ## Metrics -/

/-- The number that a field of a row counts as: an absent or null one is 0, and
a text counts as the number it spells. -/
def fieldNumber (field : String) (row : Fields) : Except AtomError Number :=
  match row.get? field with
  | none | some .null => .ok .zero
  | some (.number n) => .ok n
  | some (.string s) =>
    match Double.ofText? (Text.trimBlanks s.toList) with
    | some x => .ok (.double x)
    | none => fail ("field '" ++ field ++ "' is not numeric: " ++ Text.shown s)
  | some v => fail ("field '" ++ field ++ "' is not numeric: " ++ v.compact)

/-- The numbers of a field in the rows that are objects, or without a field the
rows that are numbers. Data that is no list has none. -/
def numbers (field : Option String) : Json → Except AtomError (List Number)
  | .array rows =>
    match field with
    | some field => (rows.filterMap Json.object?).mapM (fieldNumber field)
    | none => .ok (rows.filterMap fun
      | .number n => some n
      | _ => none)
  | _ => .ok []

/-- The sum of signed whole numbers, as long as every partial sum is one. -/
def wholeSum? (values : List Number) : Option Int :=
  values.foldlM (fun total n => do
    let total := total + (← n.toSigned?)
    if -9223372036854775808 ≤ total ∧ total < 9223372036854775808 then some total else none) 0

/-- The sum as a double, from left to right. -/
def doubleSum? (values : List Number) : Option Double :=
  Double.sum? (values.map Number.toDouble)

/-- The sum: whole if it can be, a double otherwise. -/
def sum (values : List Number) : Json :=
  match (wholeSum? values).bind Number.ofInt? with
  | some n => .number n
  | none => Json.ofDouble? (doubleSum? values)

/-- The mean as a double; 0 of nothing. -/
def average (values : List Number) : Json :=
  if values.isEmpty then .number .zero
  else Json.ofDouble? ((doubleSum? values).bind fun total => total.divNat? values.length)

/-- The first value that no other one exceeds in the wanted direction; 0 of nothing. -/
def extreme (wanted : Ordering) : List Number → Json
  | [] => .number .zero
  | n :: ns => .number (ns.foldl (fun best n =>
      if n.toDouble.cmp best.toDouble == wanted then n else best) n)

/-- A metric of a list of numbers. -/
inductive Metric where
  | sum
  | avg
  | count
  | min
  | max
  deriving DecidableEq, Repr

namespace Metric

def all : List Metric := [.sum, .avg, .count, .min, .max]

def name : Metric → String
  | .sum => "sum"
  | .avg => "avg"
  | .count => "count"
  | .min => "min"
  | .max => "max"

def ofName? (name : String) : Option Metric :=
  all.find? (·.name == name)

/-- The metric of some numbers. -/
def of (m : Metric) (values : List Number) : Json :=
  match m with
  | .sum => Rows.sum values
  | .avg => average values
  | .count => .ofNat values.length
  | .min => extreme .lt values
  | .max => extreme .gt values

end Metric

/-- The field that a metric is taken of, if one is named. -/
def metricField (params : Params) : Option String :=
  (params.get? "field").bind Json.string?

/-- One metric of a field. -/
def aggregate (m : Metric) (params : Params) (data : Json) : Except AtomError Json := do
  .ok (m.of (← numbers (metricField params) data))

/-- How many rows there are; data that is no list counts as one if it is something. -/
def count : Json → Json
  | .array rows => .ofNat rows.length
  | v => .ofNat (if isTruthy v then 1 else 0)

/-- The metrics that are calculated when none is named. -/
def defaultMetrics : List String := ["sum", "avg", "count"]

/-- The names of the metrics to calculate. -/
def metricNames (params : Params) : Except AtomError (List String) :=
  match params.get? "metrics" with
  | none | some .null => .ok defaultMetrics
  | some v => textList v

/-- Several metrics of the same numbers, by name. -/
def metricsOf (values : List Number) (names : List String) : Except AtomError Fields := do
  let pairs ← names.mapM fun name =>
    match Metric.ofName? name with
    | some m => .ok (name, m.of values)
    | none => fail ("unknown metric '" ++ name ++ "'")
  .ok (Fields.ofList pairs)

def calculate (params : Params) (data : Json) : Except AtomError Json := do
  let names ← metricNames params
  let values ← numbers (metricField params) data
  .ok (.object (← metricsOf values names))

end Pipework.Rows
