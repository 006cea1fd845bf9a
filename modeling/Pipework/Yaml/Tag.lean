import Pipework.Json.Reader
import Pipework.Yaml.Fault
import Pipework.Yaml.Token

/-!
# Anchors, tags and directives

An anchor names a node and an alias stands for a named node. A tag says of
which kind a node is, by an address that may be shortened to a handle and a
suffix. Directives precede a document: they say for which version of YAML it is
written, and what its handles stand for.
-/

namespace Pipework.Yaml

/-! ## Addresses -/

/-- May the character occur in the address of a tag? Commas and square brackets
may only between angles and in directives. -/
def isAddressChar (verbatim : Bool) (c : Char) : Bool :=
  isNameChar c || ";/?:@&=+$.%!~*'()".toList.contains c || (verbatim && [',', '[', ']'].contains c)

/-- How many bytes more follow the first byte of a character, and what it
contributes to the number of the character. -/
def leadByte? (n : Nat) : Option (Nat × Nat) :=
  if n < 0x80 then some (0, n)
  else if n < 0xc0 then none
  else if n < 0xe0 then some (1, n - 0xc0)
  else if n < 0xf0 then some (2, n - 0xe0)
  else if n < 0xf8 then some (3, n - 0xf0)
  else none

/-- An address with the bytes behind percent signs put together to characters.
`missing` bytes of a character with the value `n` so far are to come. -/
def unescapeAddress (missing n : Nat) : List Char → Option (List Char)
  | '%' :: a :: b :: cs => do
    let byte := 16 * (← Json.hexValue? a) + (← Json.hexValue? b)
    let (missing, n) ← match missing with
      | 0 => leadByte? byte
      | missing + 1 => if 0x80 ≤ byte ∧ byte < 0xc0 then some (missing, 64 * n + (byte - 0x80)) else none
    if missing = 0 then
      if h : n.isValidChar then
        return Char.ofNatAux n h :: (← unescapeAddress 0 0 cs)
      else none
    else unescapeAddress missing n cs
  | [] => if missing = 0 then some [] else none
  | c :: cs => do
    if missing = 0 ∧ c ≠ '%' then return c :: (← unescapeAddress 0 0 cs) else none

/-- Reads an address, which may be empty. -/
def readAddress (verbatim : Bool) (c : Cursor) : Except Fault (String × Cursor) :=
  let (raw, c) := c.span (isAddressChar verbatim)
  match unescapeAddress 0 0 raw with
  | some cs => .ok (String.ofList cs, c)
  | none => .error .badTag

/-- Reads an address that is not empty. -/
def readSomeAddress (verbatim : Bool) (c : Cursor) : Except Fault (String × Cursor) := do
  let (address, c) ← readAddress verbatim c
  if address.isEmpty then .error .badTag else .ok (address, c)

/-! ## Tags -/

/-- Reads a handle: an exclamation mark, a name, and a second mark that may be
missing. -/
def readHandle (c : Cursor) : Except Fault (String × Cursor) :=
  if c.at? '!' then
    let (name, c) := (c.skip 1).span isNameChar
    if c.at? '!' then .ok (String.ofList ('!' :: name ++ ['!']), c.skip 1)
    else .ok (String.ofList ('!' :: name), c)
  else .error .badTag

/-- Reads what a tag says. A tag that is not short for anything has no handle. -/
def readTagParts (c : Cursor) : Except Fault ((String × String) × Cursor) :=
  match c.rest with
  | '!' :: '<' :: _ => do
    let (address, c) ← readSomeAddress true (c.skip 2)
    if c.at? '>' then .ok (("", address), c.skip 1) else .error .badTag
  | _ => do
    let (handle, c) ← readHandle c
    if handle != "!" && handle.endsWith "!" then
      let (suffix, c) ← readSomeAddress false c
      .ok ((handle, suffix), c)
    else
      let (rest, c) ← readAddress false c
      let suffix := String.ofList (handle.toList.drop 1) ++ rest
      if suffix.isEmpty then .ok (("", "!"), c) else .ok (("!", suffix), c)

/-- Reads a tag; a blank has to follow, or between brackets a comma. -/
def readTag (flow : Bool) (c : Cursor) : Except Fault (Token × Cursor) := do
  let ((handle, suffix), c) ← readTagParts c
  if c.atSpace || (flow && c.at? ',') then .ok (.tag handle suffix, c) else .error .badTag

/-- What handles stand for. -/
abbrev Shorthands := List (String × String)

namespace Shorthands

/-- The handles that need no directive. -/
def standard : Shorthands :=
  [("!", "!"), ("!!", "tag:yaml.org,2002:")]

/-- The tag of a handle and a suffix. -/
def expand (known : Shorthands) (handle suffix : String) : Except Fault String :=
  if handle.isEmpty then .ok suffix
  else match known.lookup handle with
    | some expansion => .ok (expansion ++ suffix)
    | none => .error .undefinedTag

end Shorthands

/-! ## Anchors -/

/-- What may follow the name of an anchor at once. -/
def anchorEnds : List Char := ['?', ':', ',', ']', '\x7d', '%', '@', '\x60']

/-- Reads the name behind an ampersand or an asterisk. -/
def readAnchorName (c : Cursor) : Except Fault (String × Cursor) :=
  let (name, c) := c.span isNameChar
  if name.isEmpty then .error .badAnchor
  else if c.atSpace || c.rest.head?.any anchorEnds.contains then .ok (String.ofList name, c)
  else .error .badAnchor

/-! ## Directives -/

/-- Reads one of the numbers of a version, of at most nine digits. -/
def readVersionNumber (c : Cursor) : Except Fault (Nat × Cursor) :=
  let (digits, c) := c.span isAsciiDigit
  if digits.isEmpty || decide (9 < digits.length) then .error .badDirective
  else .ok (digitsValue digits, c)

/-- Reads what follows the name of a directive. -/
def readDirectiveValue (name : List Char) (c : Cursor) : Except Fault (Token × Cursor) :=
  let c := c.skipWhile isBlank
  if name == "YAML".toList then do
    let (major, c) ← readVersionNumber c
    if !c.at? '.' then .error .badDirective
    else
      let (minor, c) ← readVersionNumber (c.skip 1)
      .ok (.version major minor, c)
  else if name == "TAG".toList then do
    let (handle, c) ← readHandle c
    if !handle.endsWith "!" || !c.rest.head?.any isBlank then .error .badDirective
    else
      let (expansion, c) ← readSomeAddress true (c.skipWhile isBlank)
      if c.atSpace then .ok (.tagShorthand handle expansion, c) else .error .badDirective
  else .error .badDirective

/-- Reads a directive behind its percent sign. -/
def readDirective (c : Cursor) : Except Fault (Token × Cursor) := do
  let (name, c) := c.span isNameChar
  if name.isEmpty || !c.atSpace then .error .badDirective
  else
    let (token, c) ← readDirectiveValue name c
    let c := c.skipComment
    if c.atLineEnd then .ok (token, c.skipBreak) else .error .badDirective

end Pipework.Yaml
