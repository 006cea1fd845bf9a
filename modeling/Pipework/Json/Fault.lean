import Pipework.Text.Shown

/-!
# Faults of a JSON document

Every reason why a text is not the document that was asked for: the text is
not JSON, or it is JSON of another shape. Reading stops at the first fault in
text order; a `Stop` is that fault and its place. Places are counted from the
end of the text, because that is what a reader knows: what is still left. The
line and the column, in bytes, come from the whole text afterwards.
-/

namespace Pipework.Json

/-- Why reading stopped. -/
inductive Fault where
  | endInValue
  | endInList
  | endInObject
  | endInString
  | noColon
  | noListComma
  | noObjectComma
  | noWord
  | noValue
  | badEscape
  | badNumber
  | outOfRange
  | loneSurrogate
  | brokenPair
  | controlChar
  | keyNotString
  | trailingComma
  | trailingText
  | tooDeep
  | wrongType (found expected : String)
  | wrongValue (found expected : String)
  | wrongLength (length : Nat) (expected : String)
  | unknownVariant (name : String) (known : List String)
  | missingField (name : String)
  | duplicateField (name : String)
  deriving DecidableEq, Repr

namespace Fault

/-- A name between the marks that messages put around names. -/
def marked (name : String) : String :=
  "\x60" ++ name ++ "\x60"

/-- The list of names that would have been understood. -/
def alternatives : List String → String
  | [] => "there are no variants"
  | [a] => "expected " ++ marked a
  | [a, b] => "expected " ++ marked a ++ " or " ++ marked b
  | names => "expected one of " ++ ", ".intercalate (names.map marked)

/-- The wording of a fault. -/
def message : Fault → String
  | .endInValue => "EOF while parsing a value"
  | .endInList => "EOF while parsing a list"
  | .endInObject => "EOF while parsing an object"
  | .endInString => "EOF while parsing a string"
  | .noColon => "expected \x60:\x60"
  | .noListComma => "expected \x60,\x60 or \x60]\x60"
  | .noObjectComma => "expected \x60,\x60 or \x60\x7d\x60"
  | .noWord => "expected ident"
  | .noValue => "expected value"
  | .badEscape => "invalid escape"
  | .badNumber => "invalid number"
  | .outOfRange => "number out of range"
  | .loneSurrogate => "lone leading surrogate in hex escape"
  | .brokenPair => "unexpected end of hex escape"
  | .controlChar => "control character (\\u0000-\\u001F) found while parsing a string"
  | .keyNotString => "key must be a string"
  | .trailingComma => "trailing comma"
  | .trailingText => "trailing characters"
  | .tooDeep => "recursion limit exceeded"
  | .wrongType found expected => "invalid type: " ++ found ++ ", expected " ++ expected
  | .wrongValue found expected => "invalid value: " ++ found ++ ", expected " ++ expected
  | .wrongLength length expected => "invalid length " ++ toString length ++ ", expected " ++ expected
  | .unknownVariant name known => "unknown variant " ++ marked name ++ ", " ++ alternatives known
  | .missingField name => "missing field " ++ marked name
  | .duplicateField name => "duplicate field " ++ marked name

end Fault

/-- How many bytes a text takes. -/
def byteSize (cs : List Char) : Nat :=
  cs.foldl (fun n c => n + c.utf8Size) 0

/-- A fault, and how many bytes of the text lie behind its place. -/
structure Stop where
  fault : Fault
  left : Nat
  deriving DecidableEq, Repr

namespace Fault

/-- Stops in front of what is left. -/
def before {α : Type} (fault : Fault) (cs : List Char) : Except Stop α :=
  .error ⟨fault, byteSize cs⟩

/-- Stops behind the first byte of what is left, if there is one. -/
def within {α : Type} (fault : Fault) (cs : List Char) : Except Stop α :=
  .error ⟨fault, byteSize cs - 1⟩

end Fault

namespace Stop

/-- The line that a number of bytes at the front of a text leads to, and the
bytes of that line in front of the place. -/
def placeAfter : (bytes : Nat) → (line column : Nat) → List Char → Nat × Nat
  | _, line, column, [] => (line, column)
  | bytes, line, column, c :: cs =>
    if bytes < c.utf8Size then (line, column + bytes)
    else if c = '\n' then placeAfter (bytes - 1) (line + 1) 0 cs
    else placeAfter (bytes - c.utf8Size) line (column + c.utf8Size) cs

/-- The wording of a fault with its place in the text. -/
def message (stop : Stop) (text : List Char) : String :=
  let (line, column) := placeAfter (byteSize text - stop.left) 1 0 text
  stop.fault.message ++ " at line " ++ toString line ++ " column " ++ toString column

end Stop

end Pipework.Json
