import Pipework.Atom
import Pipework.Error
import Pipework.Json.Printer

/-!
# Declared parameters

An atom may declare its parameters. A call of it is then brought into shape
before the handler sees it: values without a name are given to the declared
names in order, absent optional parameters get their defaults, and every
violated declaration is reported. An atom without declarations takes its call
as it is.
-/

namespace Pipework

/-- What kind of value a parameter takes. -/
inductive ValueType where
  | string
  | number
  | boolean
  | array
  | object
  | any
  deriving DecidableEq, Repr, Inhabited

namespace ValueType

def all : List ValueType := [.string, .number, .boolean, .array, .object, .any]

def name : ValueType → String
  | .string => "string"
  | .number => "number"
  | .boolean => "boolean"
  | .array => "array"
  | .object => "object"
  | .any => "any"

def ofName? (name : String) : Option ValueType :=
  all.find? (·.name == name)

/-- Is the value of this type? -/
def accepts : ValueType → Json → Bool
  | .string, .string _ => true
  | .number, .number _ => true
  | .boolean, .bool _ => true
  | .array, .array _ => true
  | .object, .object _ => true
  | .any, _ => true
  | _, _ => false

end ValueType

/-- How a parameter is constrained. -/
inductive Rule where
  /-- Present, not null, and of the type. -/
  | required (type : ValueType)
  /-- The default if absent; of the type unless null. -/
  | optional (type : ValueType) (default : Json)
  /-- One of the listed values. -/
  | oneOf (values : List Json)

/-- A declared parameter. -/
structure Declaration where
  name : String
  rule : Rule
  description : String := ""

namespace Declaration

def isRequired (d : Declaration) : Bool :=
  match d.rule with
  | .required _ => true
  | _ => false

/-- The declaration in listings. -/
def signature (d : Declaration) : String :=
  match d.rule with
  | .required type => d.name ++ ": " ++ type.name
  | .optional type .null => d.name ++ "?: " ++ type.name
  | .optional type v => d.name ++ "?: " ++ type.name ++ " = " ++ v.compact
  | .oneOf values => d.name ++ ": " ++ " | ".intercalate (values.map Json.compact)

/-- The tree form of a declaration; an empty description is left out. -/
def toJson (d : Declaration) : Json :=
  let rule := match d.rule with
    | .required type => [("kind", .string "required"), ("type", .string type.name)]
    | .optional type v => [("kind", .string "optional"), ("type", .string type.name), ("default", v)]
    | .oneOf values => [("kind", .string "one_of"), ("values", .array values)]
  let description := if d.description.isEmpty then [] else [("description", Json.string d.description)]
  .object ([("name", .string d.name)] ++ rule ++ description)

/-- What is wrong with a parameter, given its value if it has one. -/
def problem? (d : Declaration) (value : Option Json) : Option String :=
  let mistyped (type : ValueType) (v : Json) : Option String :=
    if type.accepts v then none
    else some ("parameter '" ++ d.name ++ "' must be " ++ type.name ++ ", got " ++ v.compact)
  match d.rule, value with
  | .required _, none | .required _, some .null =>
    some ("required parameter '" ++ d.name ++ "' is missing")
  | .required type, some v => mistyped type v
  | .optional _ _, none | .optional _ _, some .null => none
  | .optional type _, some v => mistyped type v
  | .oneOf values, v =>
    let v := v.getD .null
    if values.any (·.equal v) then none
    else some ("parameter '" ++ d.name ++ "' must be one of [" ++
      ", ".intercalate (values.map Json.compact) ++ "], got " ++ v.compact)

end Declaration

/-- The number of a positional key, `_arg` and a whole number of the unsigned
64-bit range, which may have a plus in front. -/
def positionalIndex? (key : String) : Option Nat :=
  match key.toList with
  | '_' :: 'a' :: 'r' :: 'g' :: cs =>
    let digits := match cs with
      | '+' :: cs => cs
      | cs => cs
    if digits.isEmpty || !digits.all isAsciiDigit then none
    else
      let n := digitsValue digits
      if n < 18446744073709551616 then some n else none
  | _ => none

namespace Params

/-- The values without a name, in the order of their numbers. -/
def positionals (params : Params) : List Json :=
  let numbered := params.filterMap fun (k, v) => (positionalIndex? k).map fun i => (i, v)
  (numbered.mergeSort fun a b => decide (a.1 ≤ b.1)).map (·.2)

/-- The parameters with a name. -/
def named (params : Params) : Params :=
  params.filter fun (k, _) => (positionalIndex? k).isNone

/-- Is the declaration still without a value? -/
def isOpen (params : Params) (d : Declaration) : Bool :=
  match params.get? d.name with
  | none | some .null => true
  | some _ => false

/-- The values without a name given to the open declarations, in order, as far
as both last. -/
def bindPositionals (declarations : List Declaration) (params : Params) : Params :=
  let named := params.named
  let pairs := (declarations.filter named.isOpen).zip params.positionals
  pairs.foldl (fun bound (d, v) => bound.insert d.name v) named

/-- Optional parameters that are absent get their defaults. -/
def fillDefaults (declarations : List Declaration) (params : Params) : Params :=
  declarations.foldl (fun params d =>
    match d.rule with
    | .optional _ v => if params.contains d.name then params else params.insert d.name v
    | _ => params) params

/-- What is wrong with the parameters, one line for each violated declaration. -/
def problems (declarations : List Declaration) (params : Params) : List String :=
  declarations.filterMap fun d => d.problem? (params.get? d.name)

/-- The parameters of a call as its handler gets them, or all that is wrong. -/
def normalize (declarations : List Declaration) (params : Params) : Except AtomError Params :=
  if declarations.isEmpty then .ok params
  else
    let shaped := (params.bindPositionals declarations).fillDefaults declarations
    match shaped.problems declarations with
    | [] => .ok shaped
    | problems => .error ⟨"; ".intercalate problems⟩

end Params

end Pipework
