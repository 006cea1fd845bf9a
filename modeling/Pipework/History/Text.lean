import Pipework.History.Table
import Pipework.Json.Reader
import Pipework.Text.Classes

/-!
# Tables as texts

A table that is kept in a file is a text with a row on each line, as a JSON
array of its columns.
-/

namespace Pipework

namespace Row

/-- A signed word as a value. -/
def wordJson (n : Int64) : Json :=
  ((Number.ofInt? n.toInt).map Json.number).getD .null

/-- The row as an array of its columns. -/
def toJson (row : Row) : Json :=
  .array [.string row.id, .string row.pipeline, .string row.status, .string row.startedAt,
    Json.ofText? row.completedAt, wordJson row.steps, wordJson row.errors]

/-- The row of an array of columns. -/
def ofJson? : Json → Option Row
  | .array [.string id, .string pipeline, .string status, .string startedAt, completedAt,
      .number steps, .number errors] => do
    let steps ← steps.toSigned?
    let errors ← errors.toSigned?
    some { id, pipeline, status, startedAt, completedAt := completedAt.string?
           steps := .ofInt steps, errors := .ofInt errors }
  | _ => none

end Row

namespace Table

/-- The text of a table. -/
def toText (table : Table) : String :=
  String.join (table.map fun row => row.toJson.compact ++ "\n")

/-- The table of a text, if each line is a row. -/
def ofText? (text : String) : Option Table :=
  (Text.linesOf text.toList).mapM fun line => do Row.ofJson? (← Json.parse? (String.ofList line))

end Table

end Pipework
