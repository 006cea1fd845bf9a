import Pipework.Builtin.Rows
import Pipework.Registry

/-!
# The built-in atoms

What every registry of the program starts from: the atoms that take the input,
transform rows and measure them, with their declarations and documentation.
Their handlers read the data of the context and change nothing else; some
write a line to the log first.
-/

namespace Pipework.Builtin

open Rows

variable {σ : Type}

/-- The handler that computes a value from parameters and data, after writing
the line that `note` gives, if it gives one. -/
def notedHandler (note : Params → Option String) (compute : Params → Json → Except AtomError Json) :
    Handler σ where
  isAsync := false
  run call := {
    outcome := (compute call.params call.memory.data).map some
    memory := call.memory
    notes := (note call.params).toList.map fun line => .log line .debug
    state := call.state }

/-- The handler that computes a value from parameters and data. -/
def handler (compute : Params → Json → Except AtomError Json) : Handler σ :=
  notedHandler (fun _ => none) compute

/-- The line about the conditions of a filter. -/
def filterNote (params : Params) : Option String :=
  some ("Filtering with " ++ toString (conditions params).length ++ " condition(s)")

/-- The line about a sort that has a field. -/
def sortNote (params : Params) : Option String :=
  (sortField params).toOption.map fun field =>
    "Sorting by " ++ field ++ " (" ++ (if isDescending params then "desc" else "asc") ++ ")"

/-- The line about the metrics to calculate. -/
def calculateNote (params : Params) : Option String :=
  (metricNames params).toOption.map fun names =>
    "Calculating metrics: " ++ ", ".intercalate names

/-- The declaration that metrics share. -/
def fieldParam : Declaration :=
  ⟨"field", .optional .string .null, "Field to aggregate; bare numbers when omitted"⟩

/-- An entry of the registry. -/
def entry (type : AtomType) (action description : String) (params : List Declaration)
    (examples : List String) (handler : Handler σ) : (AtomType × String) × Registered σ :=
  ((type, action), ⟨handler, ⟨description, params, examples⟩⟩)

/-- The built-in atoms in the order in which they are registered. -/
def entries : List ((AtomType × String) × Registered σ) := [
  entry .data "from_input" "Use the \x60data\x60 parameter, or the current context data, as input"
    [⟨"data", .optional .any .null, "Literal input; empty values fall back to the context data"⟩]
    ["data.from_input()", "data.from_input([1, 2, 3])"]
    (handler fun params data => .ok (fromInput params data)),
  entry .transform "filter"
    "Keep rows matching every condition; \x60field__op\x60 selects eq, ne, gt, gte, lt, lte, in or contains"
    []
    ["transform.filter(year=2024)", "transform.filter(amount__gt=100, region__in=[\"EU\", \"US\"])"]
    (notedHandler filterNote Rows.filter),
  entry .transform "sort" "Sort rows by a field"
    [⟨"by", .required .string, "Field to sort on"⟩,
     ⟨"order", .optional .string (.string "asc"), "asc or desc"⟩]
    ["transform.sort(by=\"amount\", order=\"desc\")"]
    (notedHandler sortNote Rows.sort),
  entry .transform "limit" "Keep the first n rows"
    [⟨"n", .optional .number (.ofNat defaultLimit), ""⟩]
    ["transform.limit(5)"]
    (handler Rows.limit),
  entry .transform "select" "Keep only the listed fields of each row"
    [⟨"fields", .optional .any (.array []), "Field name or list of field names"⟩]
    ["transform.select(fields=[\"id\", \"amount\"])"]
    (handler Rows.select),
  entry .transform "rename" "Rename fields, \x60old=\"new\"\x60"
    []
    ["transform.rename(amt=\"amount\")"]
    (handler Rows.rename),
  entry .metrics "sum" "Sum a numeric field" [fieldParam] ["metrics.sum(\"amount\")"]
    (handler (aggregate .sum)),
  entry .metrics "avg" "Average of a numeric field" [fieldParam] ["metrics.avg(\"amount\")"]
    (handler (aggregate .avg)),
  entry .metrics "min" "Smallest value of a numeric field" [fieldParam] ["metrics.min(\"amount\")"]
    (handler (aggregate .min)),
  entry .metrics "max" "Largest value of a numeric field" [fieldParam] ["metrics.max(\"amount\")"]
    (handler (aggregate .max)),
  entry .metrics "count" "Number of rows" [] ["metrics.count()"]
    (handler fun _ data => .ok (Rows.count data)),
  entry .metrics "calculate" "Several metrics at once (sum, avg, count, min, max)"
    [⟨"metrics", .optional .any (.array (defaultMetrics.map Json.string)),
      "Metric name or list of metric names"⟩,
     fieldParam]
    ["metrics.calculate([\"sum\", \"avg\"], field=\"amount\")"]
    (notedHandler calculateNote calculate)]

/-- The registry of the built-in atoms, with the lines reported on the way. -/
def registration : List Report × Registry σ :=
  Registry.registerAll [] entries

/-- The registry of the built-in atoms. -/
def registry : Registry σ :=
  registration.2

end Pipework.Builtin
