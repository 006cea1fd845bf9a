import Pipework.Yaml.Scalar
import Pipework.Yaml.Tag

/-!
# Cutting a document into tokens

That something is a key shows only at the colon behind it. So the scanner
remembers where a key may have begun, one place for each open bracket and one
for the block around them, and puts the token for the key in front of what has
been read since. A key has to stand on one line, and within 1024 characters.

Outside brackets the columns of keys and items open and close blocks.
-/

namespace Pipework.Yaml

/-- A token and those that turned out to stand in front of it. -/
structure Entry where
  before : List Token := []
  token : Token

/-- A place where a key may have begun. -/
structure KeyStart where
  /-- How many entries precede it. -/
  entry : Nat
  mark : Mark
  /-- Can nothing but a key stand there? -/
  required : Bool

/-- The scanner in the middle of a text. -/
structure Scanner where
  cursor : Cursor
  /-- The entries so far, the last first. -/
  entries : List Entry := []
  /-- Where a key may have begun within the innermost brackets. -/
  keyStart : Option KeyStart := none
  /-- The same around each of the open brackets, the innermost first. -/
  outerStarts : List (Option KeyStart) := []
  /-- The column of the innermost block, or -1. -/
  indent : Int := -1
  outerIndents : List Int := []
  /-- May a key begin at the cursor? -/
  keyAllowed : Bool := true

namespace Scanner

/-- Is the cursor between brackets? -/
def inFlow (s : Scanner) : Bool :=
  !s.outerStarts.isEmpty

/-- Adds a token. -/
def emit (t : Token) (s : Scanner) : Scanner :=
  { s with entries := { token := t } :: s.entries }

/-- Puts tokens in front of an entry. -/
def insert (entry : Nat) (ts : List Token) (s : Scanner) : Scanner :=
  let index := s.entries.length - 1 - entry
  { s with entries := s.entries.modify index fun e => { e with before := ts ++ e.before } }

/-- The tokens in their order. -/
def tokens (s : Scanner) : List Token :=
  s.entries.reverse.flatMap fun e => e.before ++ [e.token]

/-- Moves the cursor. -/
def moveTo (s : Scanner) (c : Cursor) : Scanner :=
  { s with cursor := c }

/-! ## Places for keys -/

/-- Can the colon of a key that began here not come any more? -/
def isStale (now : Mark) (k : KeyStart) : Bool :=
  decide (k.mark.line < now.line) || decide (k.mark.index + 1024 < now.index)

/-- What is left of a place, of which nothing is left if it is stale. -/
def keepFresh (now : Mark) : Option KeyStart → Except Fault (Option KeyStart)
  | none => .ok none
  | some k =>
    if !isStale now k then .ok (some k)
    else if k.required then .error .missingColon
    else .ok none

/-- Forgets the places that are stale. -/
def dropStale (s : Scanner) : Except Fault Scanner := do
  let now := s.cursor.mark
  let keyStart ← keepFresh now s.keyStart
  let outerStarts ← s.outerStarts.mapM (keepFresh now)
  .ok { s with keyStart, outerStarts }

/-- Forgets the place within the innermost brackets. -/
def dropKey (s : Scanner) : Except Fault Scanner :=
  if s.keyStart.any (·.required) then .error .missingColon else .ok { s with keyStart := none }

/-- Remembers the cursor as a place where a key may begin. -/
def saveKey (s : Scanner) : Except Fault Scanner :=
  if s.keyAllowed then do
    let mark := s.cursor.mark
    let required := !s.inFlow && s.indent == (mark.column : Int)
    let s ← s.dropKey
    .ok { s with keyStart := some { entry := s.entries.length, mark, required } }
  else .ok s

/-- Says whether a key may begin at the cursor. -/
def allowKey (allowed : Bool) (s : Scanner) : Scanner :=
  { s with keyAllowed := allowed }

/-! ## Blocks -/

/-- Goes into a block at the column, if it is deeper than the innermost. -/
def openBlock (start : Token) (s : Scanner) : Scanner :=
  let column : Int := s.cursor.mark.column
  if s.indent < column then
    { s.emit start with indent := column, outerIndents := s.indent :: s.outerIndents }
  else s

/-- Leaves the blocks that are deeper than the column, of those around and the
innermost. -/
def leaveBlocks (column : Int) : (indent : Int) → (outer : List Int) → Nat × Int × List Int
  | indent, [] => (0, indent, [])
  | indent, i :: outer =>
    if column < indent then
      let (n, indent, outer) := leaveBlocks column i outer
      (n + 1, indent, outer)
    else (0, indent, i :: outer)

/-- Ends the blocks that are deeper than the column. -/
def closeBlocks (column : Int) (s : Scanner) : Scanner :=
  if s.inFlow then s
  else
    let (n, indent, outerIndents) := leaveBlocks column s.indent s.outerIndents
    { s with
      entries := List.replicate n { token := .blockEnd } ++ s.entries
      indent, outerIndents }

/-! ## Tokens -/

/-- Adds a token whose characters, so many, are at the cursor. -/
def take (n : Nat) (t : Token) (s : Scanner) : Scanner :=
  (s.emit t).moveTo (s.cursor.skip n)

/-- Reads a token with a reader that stops behind it. -/
def takeBy (read : Cursor → Except Fault (Token × Cursor)) (s : Scanner) : Except Fault Scanner := do
  let (t, c) ← read s.cursor
  .ok ((s.emit t).moveTo c)

/-- Leaves everything that precedes the start or the end of a document. -/
def leaveAll (s : Scanner) : Except Fault Scanner := do
  let s ← (s.closeBlocks (-1)).dropKey
  .ok (s.allowKey false)

/-- Takes an opening bracket, which may be the start of a key, as may what follows it. -/
def openFlow (t : Token) (s : Scanner) : Except Fault Scanner := do
  let s ← s.saveKey
  .ok ({ s with outerStarts := s.keyStart :: s.outerStarts, keyStart := none, keyAllowed := true }.take 1 t)

/-- Takes a closing bracket. -/
def closeFlow (t : Token) (s : Scanner) : Except Fault Scanner := do
  let s ← s.dropKey
  let (keyStart, outerStarts) := match s.outerStarts with
    | k :: ks => (k, ks)
    | [] => (none, [])
  .ok ({ s with keyStart, outerStarts, keyAllowed := false }.take 1 t)

/-- Takes a comma. -/
def takeComma (s : Scanner) : Except Fault Scanner := do
  let s ← s.dropKey
  .ok ((s.allowKey true).take 1 .comma)

/-- Outside brackets, what opens a block of this kind has to stand where a key
could. -/
def openEntry (start : Token) (fault : Fault) (s : Scanner) : Except Fault Scanner :=
  if s.inFlow then .ok s
  else if s.keyAllowed then .ok (s.openBlock start)
  else .error fault

/-- Takes the hyphen of an item. -/
def takeItem (s : Scanner) : Except Fault Scanner := do
  let s ← s.openEntry .blockSequenceStart .misplacedItem
  let s ← s.dropKey
  .ok ((s.allowKey true).take 1 .item)

/-- Takes the question mark of a key. -/
def takeKey (s : Scanner) : Except Fault Scanner := do
  let s ← s.openEntry .blockMappingStart .misplacedKey
  let s ← s.dropKey
  .ok ((s.allowKey (!s.inFlow)).take 1 .key)

/-- A colon makes a key of what precedes it, if a key may have begun there. -/
def takeValue (s : Scanner) : Except Fault Scanner :=
  match s.keyStart with
  | some k =>
    let column : Int := k.mark.column
    let s := { s with keyStart := none, keyAllowed := false }
    let s :=
      if !s.inFlow && decide (s.indent < column) then
        { s.insert k.entry [.blockMappingStart, .key] with
          indent := column, outerIndents := s.indent :: s.outerIndents }
      else s.insert k.entry [.key]
    .ok (s.take 1 .value)
  | none => do
    let s ← s.openEntry .blockMappingStart .misplacedValue
    .ok ((s.allowKey (!s.inFlow)).take 1 .value)

/-- Reads something that may be a key. -/
def takeNode (read : Cursor → Except Fault (Token × Cursor)) (s : Scanner) : Except Fault Scanner := do
  let s ← s.saveKey
  (s.allowKey false).takeBy read

/-- Reads a scalar between quotes. -/
def takeQuoted (quote : Char) (s : Scanner) : Except Fault Scanner :=
  s.takeNode fun c => do
    let c := c.skip 1
    let (text, c) ← readQuoted quote [] .none none c.mark c.rest
    .ok (.scalar (if quote == '"' then .double else .single) text, c)

/-- A plain scalar; if it ends on another line, a key may begin behind it. -/
def takePlain (s : Scanner) : Except Fault Scanner := do
  let s ← s.saveKey
  let c := s.cursor
  let read ← readPlain s.inFlow (s.indent + 1) [] .none c.mark c.rest
  .ok (((s.allowKey read.broken).emit (.scalar .plain read.text)).moveTo read.cursor)

/-- Reads a scalar behind a bar or an angle. -/
def takeBlock (style : ScalarStyle) (s : Scanner) : Except Fault Scanner := do
  let s ← s.dropKey
  (s.allowKey true).takeBy fun c => do
    let (text, c) ← readBlock (style == .folded) s.indent (c.skip 1)
    .ok (.scalar style text, c)

/-- Characters that stand for themselves only within a plain scalar. -/
def openers : List Char :=
  ['-', '?', ':', ',', '[', ']', '\x7b', '\x7d', '#', '&', '*', '!', '|', '>', '\'', '"', '%', '@', '\x60']

/-- Can a plain scalar begin with this character, in front of the others? -/
def startsPlain (flow : Bool) (c : Char) (cs : List Char) : Bool :=
  !(isSpace c || openers.contains c) || (c == '-' && !cs.head?.any isBlank) ||
    (!flow && (c == '?' || c == ':') && !atSpace cs)

/-- Reads the next token, which begins with `c`. -/
def takeToken (s : Scanner) (c : Char) (cs : List Char) : Except Fault Scanner :=
  let atStart := s.cursor.mark.column == 0
  if atStart && c == '%' then do
    let s ← s.leaveAll
    s.takeBy fun c => readDirective (c.skip 1)
  else if atStart && isDocumentMark '-' (c :: cs) then do .ok ((← s.leaveAll).take 3 .documentStart)
  else if atStart && isDocumentMark '.' (c :: cs) then do .ok ((← s.leaveAll).take 3 .documentEnd)
  else if c == '[' then s.openFlow .flowSequenceStart
  else if c == '\x7b' then s.openFlow .flowMappingStart
  else if c == ']' then s.closeFlow .flowSequenceEnd
  else if c == '\x7d' then s.closeFlow .flowMappingEnd
  else if c == ',' then s.takeComma
  else if c == '-' && atSpace cs then s.takeItem
  else if c == '?' && (s.inFlow || atSpace cs) then s.takeKey
  else if c == ':' && (s.inFlow || atSpace cs) then s.takeValue
  else if c == '*' then s.takeNode fun c => do
    let (name, c) ← readAnchorName (c.skip 1)
    .ok (.alias name, c)
  else if c == '&' then s.takeNode fun c => do
    let (name, c) ← readAnchorName (c.skip 1)
    .ok (.anchor name, c)
  else if c == '!' then s.takeNode (readTag s.inFlow)
  else if c == '|' && !s.inFlow then s.takeBlock .literal
  else if c == '>' && !s.inFlow then s.takeBlock .folded
  else if c == '\'' || c == '"' then s.takeQuoted c
  else if startsPlain s.inFlow c cs then s.takePlain
  else .error .unexpectedCharacter

/-- Goes over blanks, line ends and comments. Outside brackets a key may begin
in a new line, and tabs do not stand where one may. -/
def skipTrivia (flow comment allowed : Bool) (mark : Mark) : List Char → Bool × Cursor
  | [] => (allowed, ⟨mark, []⟩)
  | c :: cs =>
    if isBreak c then skipTrivia flow false (allowed || !flow) (mark.next c) cs
    else if comment || c == '#' then skipTrivia flow true allowed (mark.next c) cs
    else if c == ' ' || (c == '\t' && (flow || !allowed)) || (c == byteOrderMark && mark.column == 0) then
      skipTrivia flow false allowed (mark.next c) cs
    else (allowed, ⟨mark, c :: cs⟩)

/-- Reads one more token, with the ends of the blocks in front of it; none is
left at the end of the text. -/
def step (s : Scanner) : Except Fault (Scanner ⊕ Scanner) := do
  let (allowed, c) := skipTrivia s.inFlow false s.keyAllowed s.cursor.mark s.cursor.rest
  let s ← { s with keyAllowed := allowed, cursor := c }.dropStale
  match c.rest with
  | [] => .ok (.inl (← s.leaveAll))
  | ch :: cs => .ok (.inr (← (s.closeBlocks c.mark.column).takeToken ch cs))

/-- Reads the tokens that are left; each takes a character at least. -/
def run : (fuel : Nat) → Scanner → Except Fault Scanner
  | 0, s => .ok s
  | fuel + 1, s => do
    match ← s.step with
    | .inl s => .ok s
    | .inr s => s.run fuel

end Scanner

/-- The tokens of a text. -/
def tokens (text : List Char) : Except Fault (List Token) := do
  if text.all isAllowed then
    let cs := normalize text
    let s ← Scanner.run (cs.length + 1) { cursor := ⟨{}, cs⟩ }
    .ok s.tokens
  else .error .forbiddenCharacter

end Pipework.Yaml
