import Pipework.Json.Basic
import Pipework.Json.Fault
import Pipework.Number.Scaling

/-!
# Reading JSON

A reader takes the characters that are left and answers with what it read and
the characters after that, or stops at the first fault. Values nest at most 127
deep: `readValue` is given how many lists and objects may still be opened.

The pieces are shared with the readers of records (`Pipework.Json.Record`):
`nextItem` and `nextKey` walk through a list or an object without knowing what
stands in it, `skipValue` passes over a value that nobody wants, and there the
nesting is not limited, and neither are numbers.
-/

namespace Pipework.Json

/-- A reader of one thing from the front of a text. -/
abbrev Reader (α : Type) := List Char → Except Stop (α × List Char)

/-- How deep values may nest. -/
def maxDepth : Nat := 127

/-- The four blanks of JSON. -/
def isBlank (c : Char) : Bool :=
  c == ' ' || c == '\n' || c == '\t' || c == '\r'

/-- What is left after the blanks. -/
def skipBlanks (cs : List Char) : List Char :=
  cs.dropWhile isBlank

/-! ## Words, texts and numbers -/

/-- The rest of a word whose first letter has been seen. -/
def readWord : List Char → List Char → Except Stop (List Char)
  | [], cs => .ok cs
  | _ :: _, [] => Fault.endInValue.before []
  | w :: ws, c :: cs => if c = w then readWord ws cs else Fault.noWord.within (c :: cs)

/-- The value of a hexadecimal digit. -/
def hexValue? (c : Char) : Option Nat :=
  if '0' ≤ c ∧ c ≤ '9' then some (c.toNat - '0'.toNat)
  else if 'a' ≤ c ∧ c ≤ 'f' then some (c.toNat - 'a'.toNat + 10)
  else if 'A' ≤ c ∧ c ≤ 'F' then some (c.toNat - 'A'.toNat + 10)
  else none

/-- Four hexadecimal digits. -/
def readHex (cs : List Char) : Except Stop (Nat × List Char) :=
  let bad : Except Stop (Nat × List Char) :=
    if 4 ≤ byteSize cs then .error ⟨.badEscape, byteSize cs - 4⟩ else Fault.endInString.before []
  match cs with
  | a :: b :: c :: d :: rest =>
    match hexValue? a, hexValue? b, hexValue? c, hexValue? d with
    | some a, some b, some c, some d => .ok (((a * 16 + b) * 16 + c) * 16 + d, rest)
    | _, _, _, _ => bad
  | _ => bad

/-- The character of a `\u` escape, whose digits come next. A character beyond
the first plane is written as a pair of escapes. -/
def readUnicode (cs : List Char) : Except Stop (Char × List Char) := do
  let (high, rest) ← readHex cs
  if 0xDC00 ≤ high && high ≤ 0xDFFF then Fault.loneSurrogate.before rest
  else if high < 0xD800 || 0xDBFF < high then .ok (Char.ofNat high, rest)
  else match rest with
    | [] => Fault.endInString.before []
    | '\\' :: [] => Fault.endInString.before []
    | '\\' :: 'u' :: rest => do
      let (low, rest) ← readHex rest
      if low < 0xDC00 || 0xDFFF < low then Fault.loneSurrogate.before rest
      else .ok (Char.ofNat ((high - 0xD800) * 1024 + (low - 0xDC00) + 0x10000), rest)
    | '\\' :: rest => Fault.brokenPair.within rest
    | rest => Fault.brokenPair.within rest

/-- The character an escape stands for; the backslash has been read. -/
def readEscape : List Char → Except Stop (Char × List Char)
  | [] => Fault.endInString.before []
  | '"' :: cs => .ok ('"', cs)
  | '\\' :: cs => .ok ('\\', cs)
  | '/' :: cs => .ok ('/', cs)
  | 'b' :: cs => .ok ('\x08', cs)
  | 'f' :: cs => .ok ('\x0c', cs)
  | 'n' :: cs => .ok ('\n', cs)
  | 'r' :: cs => .ok ('\r', cs)
  | 't' :: cs => .ok ('\t', cs)
  | 'u' :: cs => readUnicode cs
  | cs => Fault.badEscape.within cs

/-- The characters up to the closing quote; `fuel` bounds their number. -/
def readChars : (fuel : Nat) → List Char → Except Stop (List Char × List Char)
  | 0, cs => Fault.endInString.before cs
  | _, [] => Fault.endInString.before []
  | _, '"' :: cs => .ok ([], cs)
  | fuel + 1, '\\' :: cs => do
    let (c, cs) ← readEscape cs
    let (s, cs) ← readChars fuel cs
    .ok (c :: s, cs)
  | fuel + 1, c :: cs =>
    if c.toNat < 0x20 then Fault.controlChar.within (c :: cs)
    else do
      let (s, cs) ← readChars fuel cs
      .ok (c :: s, cs)

/-- A text whose opening quote has been read. -/
def readQuoted : Reader String := fun cs => do
  let (s, cs) ← readChars (cs.length + 1) cs
  .ok (String.ofList s, cs)

/-- The digits after a point, if there is a point. -/
def readFraction : List Char → Except Stop (Option (List Char) × List Char)
  | '.' :: cs =>
    match cs.takeWhile isAsciiDigit, cs.dropWhile isAsciiDigit with
    | [], [] => Fault.endInValue.before []
    | [], rest => Fault.badNumber.within rest
    | digits, rest => .ok (some digits, rest)
  | cs => .ok (none, cs)

/-- The exponent, if there is one. An exponent of more than 31 binary digits is
refused as soon as it is one, unless there are only zeros to which it applies or
it is negative. -/
def readExponent (isZero : Bool) : List Char → Except Stop (Option Int × List Char)
  | [] => .ok (none, [])
  | c :: cs =>
    if c = 'e' || c = 'E' then
      let (negative, cs) := Decimal.takeSign cs
      match cs.takeWhile isAsciiDigit, cs.dropWhile isAsciiDigit with
      | [], [] => Fault.endInValue.before []
      | [], rest => Fault.badNumber.within rest
      | digits, rest =>
        let size : Int := digitsValue digits
        let left := (fill (twoTo 31) 0 digits).2
        if left.isEmpty || isZero || negative then
          .ok (some (if negative then -size else size), rest)
        else Fault.outOfRange.before (left.drop 1 ++ rest)
    else .ok (none, c :: cs)

/-- The double of a sign, digits, and what followed them, if there is one. Digits
are kept as long as they fit a word: those in front of the point that are not
raise the exponent, those behind it that are lower it. -/
def doubleOf? (negative : Bool) (whole places : List Char) (exponent : Int) : Option Double :=
  let (front, cut) := fill (twoTo 64) 0 whole
  let (digits, unused) := fill (twoTo 64) front places
  Double.ofDigits? negative digits
    (cut.length - (places.length - unused.length : Nat) + exponent)

/-- The whole number of a sign and digits, if a word holds it. Minus zero is none. -/
def integerOf? (negative : Bool) (digits : List Char) : Option Number :=
  let size : Int := digitsValue digits
  if negative && size == 0 then none else Number.ofInt? (if negative then -size else size)

/-- The number of a sign, digits, and what followed them, if a value can hold it: digits
alone are a whole number where that is possible, and everything else is a double. -/
def numberOf? (negative : Bool) (whole : List Char) (fraction : Option (List Char))
    (exponent : Option Int) : Option Number :=
  (if fraction.isNone && exponent.isNone then integerOf? negative whole else none) <|>
    (doubleOf? negative whole (fraction.getD []) (exponent.getD 0)).map Number.double

/-- The number after its sign. -/
def readNumber (negative : Bool) : Reader Number
  | [] => Fault.endInValue.before []
  | c :: cs =>
    if !isAsciiDigit c then Fault.badNumber.within (c :: cs)
    else
      let whole := (c :: cs).takeWhile isAsciiDigit
      if c = '0' && 1 < whole.length then Fault.badNumber.within cs
      else do
        let (fraction, rest) ← readFraction ((c :: cs).dropWhile isAsciiDigit)
        let isZero := digitsValue (whole ++ fraction.getD []) == 0
        let (exponent, rest) ← readExponent isZero rest
        match numberOf? negative whole fraction exponent with
        | some n => .ok (n, rest)
        | none => Fault.outOfRange.before rest

/-! ## Lists and objects -/

/-- Steps to the next item of a list: `none` before the closing bracket. -/
def nextItem (isFirst : Bool) (cs : List Char) : Except Stop (Option (List Char)) :=
  match skipBlanks cs with
  | [] => Fault.endInList.before []
  | ']' :: _ => .ok none
  | c :: cs =>
    if isFirst then .ok (some (c :: cs))
    else if c = ',' then
      match skipBlanks cs with
      | [] => Fault.endInValue.before []
      | ']' :: cs => Fault.trailingComma.before cs
      | cs => .ok (some cs)
    else Fault.noListComma.within (c :: cs)

/-- The closing bracket of a list. -/
def endList (cs : List Char) : Except Stop (List Char) :=
  match skipBlanks cs with
  | [] => Fault.endInList.before []
  | ']' :: cs => .ok cs
  | ',' :: cs =>
    match skipBlanks cs with
    | ']' :: cs => Fault.trailingComma.before cs
    | cs => Fault.trailingText.within cs
  | cs => Fault.trailingText.within cs

/-- The items of a list after its opening bracket; `fuel` bounds their number. -/
def readItems {α : Type} (read : Reader α) : (fuel : Nat) → (isFirst : Bool) → Reader (List α)
  | 0, _, cs => Fault.endInList.before cs
  | fuel + 1, isFirst, cs => do
    match ← nextItem isFirst cs with
    | none => .ok ([], ← endList cs)
    | some cs =>
      let (v, cs) ← read cs
      let (vs, cs) ← readItems read fuel false cs
      .ok (v :: vs, cs)

/-- Steps to the next key of an object and reads it: `none` before the closing brace. -/
def nextKey (isFirst : Bool) (cs : List Char) : Except Stop (Option (String × List Char)) :=
  match skipBlanks cs with
  | [] => Fault.endInObject.before []
  | '}' :: _ => .ok none
  | c :: cs =>
    if isFirst then
      if c = '"' then do .ok (some (← readQuoted cs)) else Fault.keyNotString.within (c :: cs)
    else if c = ',' then
      match skipBlanks cs with
      | [] => Fault.endInValue.before []
      | '"' :: cs => do .ok (some (← readQuoted cs))
      | '}' :: cs => Fault.trailingComma.before cs
      | cs => Fault.keyNotString.within cs
    else Fault.noObjectComma.within (c :: cs)

/-- The colon after a key. -/
def readColon (cs : List Char) : Except Stop (List Char) :=
  match skipBlanks cs with
  | [] => Fault.endInObject.before []
  | ':' :: cs => .ok cs
  | cs => Fault.noColon.within cs

/-- The closing brace of an object. -/
def endObject (cs : List Char) : Except Stop (List Char) :=
  match skipBlanks cs with
  | [] => Fault.endInObject.before []
  | '}' :: cs => .ok cs
  | ',' :: cs => Fault.trailingComma.before cs
  | cs => Fault.trailingText.within cs

/-- The members of an object after its opening brace, each handed to `member`
with what was gathered before it; `fuel` bounds their number. -/
def readMembers {σ : Type} (member : σ → String → Reader σ) :
    (fuel : Nat) → (isFirst : Bool) → σ → Reader σ
  | 0, _, _, cs => Fault.endInObject.before cs
  | fuel + 1, isFirst, gathered, cs => do
    match ← nextKey isFirst cs with
    | none => .ok (gathered, ← endObject cs)
    | some (key, cs) =>
      let (gathered, cs) ← member gathered key cs
      readMembers member fuel false gathered cs

/-- A member of an object of values. -/
def readField (read : Reader Json) (fields : Fields) (key : String) : Reader Fields := fun cs => do
  let (v, cs) ← read (← readColon cs)
  .ok (fields.insert key v, cs)

/-! ## Values -/

/-- A value, given how to read those inside it; `none` when no list or object
may be opened any more. -/
def readValueWith (inside : Option (Reader Json)) : Reader Json := fun cs =>
  match skipBlanks cs with
  | [] => Fault.endInValue.before []
  | 'n' :: cs => do .ok (.null, ← readWord ['u', 'l', 'l'] cs)
  | 't' :: cs => do .ok (.bool true, ← readWord ['r', 'u', 'e'] cs)
  | 'f' :: cs => do .ok (.bool false, ← readWord ['a', 'l', 's', 'e'] cs)
  | '"' :: cs => do
    let (s, cs) ← readQuoted cs
    .ok (.string s, cs)
  | '-' :: cs => do
    let (n, cs) ← readNumber true cs
    .ok (.number n, cs)
  | '[' :: cs =>
    match inside with
    | none => Fault.tooDeep.before cs
    | some read => do
      let (items, cs) ← readItems read (cs.length + 1) true cs
      .ok (.array items, cs)
  | '{' :: cs =>
    match inside with
    | none => Fault.tooDeep.before cs
    | some read => do
      let (fields, cs) ← readMembers (readField read) (cs.length + 1) true [] cs
      .ok (.object fields, cs)
  | c :: cs =>
    if isAsciiDigit c then do
      let (n, cs) ← readNumber false (c :: cs)
      .ok (.number n, cs)
    else Fault.noValue.within (c :: cs)

/-- A value in which at most `depth` lists and objects are open at once. -/
def readValue : (depth : Nat) → Reader Json
  | 0 => readValueWith none
  | depth + 1 => readValueWith (some (readValue depth))

/-- What a reader makes of a whole text; only blanks may follow. -/
def readWhole {α : Type} (read : Reader α) (cs : List Char) : Except Stop α := do
  let (v, rest) ← read cs
  match skipBlanks rest with
  | [] => .ok v
  | rest => Fault.trailingText.within rest

/-- The value that a text denotes. -/
def parse (s : String) : Except Stop Json :=
  readWhole (readValue maxDepth) s.toList

/-- The value that a text denotes, if it is JSON at all. -/
def parse? (s : String) : Option Json :=
  (parse s).toOption

/-! ## Passing over a value -/

/-- Digits that must be there. -/
def skipDigits (cs : List Char) : Except Stop (List Char) :=
  if (cs.takeWhile isAsciiDigit).isEmpty then Fault.badNumber.within cs
  else .ok (cs.dropWhile isAsciiDigit)

/-- Passes over an exponent, if there is one. -/
def skipExponent : List Char → Except Stop (List Char)
  | c :: cs => if c = 'e' || c = 'E' then skipDigits (Decimal.takeSign cs).2 else .ok (c :: cs)
  | [] => .ok []

/-- Passes over a number after its sign, whatever its size. -/
def skipNumber (cs : List Char) : Except Stop (List Char) := do
  let rest ← skipDigits cs
  if cs.head? = some '0' && 1 < (cs.takeWhile isAsciiDigit).length then
    Fault.badNumber.within (cs.drop 1)
  else match rest with
    | '.' :: rest => skipExponent (← skipDigits rest)
    | rest => skipExponent rest

/-- Passes over a text; escapes may name halves of a pair. -/
def skipQuoted : (fuel : Nat) → List Char → Except Stop (List Char)
  | 0, cs => Fault.endInString.before cs
  | _, [] => Fault.endInString.before []
  | _, '"' :: cs => .ok cs
  | _, '\\' :: [] => Fault.endInString.before []
  | fuel + 1, '\\' :: c :: cs =>
    if c = 'u' then do
      let (_, cs) ← readHex cs
      skipQuoted fuel cs
    else if ['"', '\\', '/', 'b', 'f', 'n', 'r', 't'].contains c then skipQuoted fuel cs
    else Fault.badEscape.within (c :: cs)
  | fuel + 1, c :: cs =>
    if c.toNat < 0x20 then Fault.controlChar.before (c :: cs) else skipQuoted fuel cs

/-- An open list or object. -/
inductive Bracket where
  | list
  | object
  deriving DecidableEq

namespace Bracket

def closing : Bracket → Char
  | .list => ']'
  | .object => '}'

/-- The fault of a text that ends inside. -/
def unclosed : Bracket → Fault
  | .list => .endInList
  | .object => .endInObject

/-- The fault of two entries without a comma. -/
def noComma : Bracket → Fault
  | .list => .noListComma
  | .object => .noObjectComma

end Bracket

mutual

/-- Passes over a value inside the open brackets, and on to where the last of
them is closed; `fuel` bounds the steps. -/
def skipInside : (fuel : Nat) → List Bracket → List Char → Except Stop (List Char)
  | 0, _, cs => Fault.endInValue.before cs
  | fuel + 1, brackets, cs =>
    match skipBlanks cs with
    | [] => Fault.endInValue.before []
    | 'n' :: cs => do skipAfter fuel brackets true (← readWord ['u', 'l', 'l'] cs)
    | 't' :: cs => do skipAfter fuel brackets true (← readWord ['r', 'u', 'e'] cs)
    | 'f' :: cs => do skipAfter fuel brackets true (← readWord ['a', 'l', 's', 'e'] cs)
    | '"' :: cs => do skipAfter fuel brackets true (← skipQuoted (cs.length + 1) cs)
    | '-' :: cs => do skipAfter fuel brackets true (← skipNumber cs)
    | '[' :: cs => skipAfter fuel (.list :: brackets) false cs
    | '{' :: cs => skipAfter fuel (.object :: brackets) false cs
    | c :: cs =>
      if isAsciiDigit c then do skipAfter fuel brackets true (← skipNumber (c :: cs))
      else Fault.noValue.within (c :: cs)

/-- Goes on after a value, or after an opening bracket, where no comma may stand. -/
def skipAfter : (fuel : Nat) → List Bracket → (comma : Bool) → List Char → Except Stop (List Char)
  | 0, _, _, cs => Fault.endInValue.before cs
  | _, [], _, cs => .ok cs
  | fuel + 1, bracket :: brackets, comma, cs =>
    match skipBlanks cs with
    | [] => bracket.unclosed.before []
    | c :: cs =>
      if comma && c == ',' then skipEntry fuel bracket brackets cs
      else if c = bracket.closing then skipAfter fuel brackets true cs
      else if comma then bracket.noComma.within (c :: cs)
      else skipEntry fuel bracket brackets (c :: cs)

/-- Passes over an item, or over a key and its value. -/
def skipEntry : (fuel : Nat) → Bracket → List Bracket → List Char → Except Stop (List Char)
  | 0, _, _, cs => Fault.endInValue.before cs
  | fuel + 1, .list, brackets, cs => skipInside fuel (.list :: brackets) cs
  | fuel + 1, .object, brackets, cs =>
    match skipBlanks cs with
    | [] => Fault.endInObject.before []
    | '"' :: cs => do
      let cs ← skipQuoted (cs.length + 1) cs
      skipInside fuel (.object :: brackets) (← readColon cs)
    | cs => Fault.keyNotString.within cs

end

/-- Passes over one value. -/
def skipValue (cs : List Char) : Except Stop (List Char) :=
  skipInside (3 * cs.length + 3) [] cs

end Pipework.Json
