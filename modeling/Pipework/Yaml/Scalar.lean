import Pipework.Json.Reader
import Pipework.Yaml.Fault
import Pipework.Yaml.Token

/-!
# Reading scalars

The text of a scalar may go over several lines. In plain and quoted scalars a
single line break stands for a blank and further ones for themselves; `Gap`
collects what lies between two words until it is known that a word follows.
Scalars behind a bar keep their lines, those behind an angle join them.
-/

namespace Pipework.Yaml

/-- What lies between two words of a scalar. -/
inductive Gap where
  | none
  | blanks (cs : List Char)
  /-- Line breaks; the first is absent if a backslash hid it. -/
  | breaks (first : Option Char) (more : List Char)
  deriving DecidableEq

namespace Gap

def isBroken : Gap → Bool
  | .breaks _ _ => true
  | _ => false

/-- What the gap becomes in the text. -/
def text : Gap → List Char
  | .none => []
  | .blanks cs => cs
  | .breaks (some '\n') [] => [' ']
  | .breaks (some '\n') more => more
  | .breaks (some c) more => c :: more
  | .breaks .none more => more

/-- One more blank; at the start of a line it means nothing. -/
def addBlank (c : Char) : Gap → Gap
  | .none => .blanks [c]
  | .blanks cs => .blanks (cs ++ [c])
  | .breaks first more => .breaks first more

/-- One more line break; blanks in front of the first mean nothing. -/
def addBreak (c : Char) : Gap → Gap
  | .breaks first more => .breaks first (more ++ [c])
  | _ => .breaks (some c) []

end Gap

/-- Does a document start or end here, at the start of a line? -/
def atDocumentMark (mark : Mark) (cs : List Char) : Bool :=
  mark.column == 0 && (isDocumentMark '-' cs || isDocumentMark '.' cs)

/-! ## Plain -/

/-- Characters that end a plain scalar between brackets. -/
def flowMarks : List Char := [',', '[', ']', '\x7b', '\x7d']

/-- A plain scalar that has been read: its text, whether lines lie between it
and the cursor, and the cursor. -/
structure PlainRead where
  text : String
  broken : Bool
  cursor : Cursor

/-- Does a plain scalar end in front of this character, which follows a gap?
It does where the indentation is too small, and at a comment. -/
def endsAfterGap (flow : Bool) (indent : Int) (gap : Gap) (mark : Mark) (cs : List Char) : Bool :=
  gap != .none &&
    ((!flow && decide ((mark.column : Int) < indent)) || atDocumentMark mark cs || cs.head? == some '#')

/-- Reads a plain scalar: `out` is what has been read, backwards, and `gap` what
lies behind it. -/
def readPlain (flow : Bool) (indent : Int) (out : List Char) (gap : Gap) (mark : Mark) :
    List Char → Except Fault PlainRead
  | [] => .ok ⟨String.ofList out.reverse, gap.isBroken, ⟨mark, []⟩⟩
  | c :: cs =>
    if isBreak c then readPlain flow indent out (gap.addBreak c) (mark.next c) cs
    else if isBlank c then
      if gap.isBroken && decide ((mark.column : Int) < indent) && c == '\t' then .error .tabIndentation
      else readPlain flow indent out (gap.addBlank c) (mark.next c) cs
    else if endsAfterGap flow indent gap mark (c :: cs) then
      .ok ⟨String.ofList out.reverse, gap.isBroken, ⟨mark, c :: cs⟩⟩
    else if flow && c == ':' && cs.head?.any fun d => d == '?' || flowMarks.contains d then
      .error .unexpectedColon
    else if (c == ':' && atSpace cs) || (flow && flowMarks.contains c) then
      .ok ⟨String.ofList out.reverse, gap.isBroken, ⟨mark, c :: cs⟩⟩
    else readPlain flow indent (c :: (gap.text.reverse ++ out)) .none (mark.next c) cs

/-! ## Quoted -/

/-- The escapes of one letter. -/
def unescapes : List (Char × Char) :=
  [('0', '\x00'), ('a', '\x07'), ('b', '\x08'), ('t', '\t'), ('\t', '\t'), ('n', '\n'), ('v', '\x0b'),
   ('f', '\x0c'), ('r', '\r'), ('e', '\x1b'), (' ', ' '), ('"', '"'), ('/', '/'), ('\\', '\\'),
   ('N', '\u0085'), ('_', '\u00a0'), ('L', '\u2028'), ('P', '\u2029')]

/-- How many hexadecimal digits follow the letter of an escape. -/
def escapeWidth? (c : Char) : Option Nat :=
  if c == 'x' then some 2 else if c == 'u' then some 4 else if c == 'U' then some 8 else none

/-- The character of a number, unless it is a surrogate or beyond all characters. -/
def charOf? (n : Nat) : Option Char :=
  if h : n.isValidChar then some (Char.ofNatAux n h) else none

/-- Reads a scalar behind its opening quote. `pending` is an escape that lacks
so many digits, with the value of those it has. -/
def readQuoted (quote : Char) (out : List Char) (gap : Gap) (pending : Option (Nat × Nat)) (mark : Mark) :
    List Char → Except Fault (String × Cursor)
  | [] => .error .unterminatedText
  | c :: cs =>
    let joined := gap.text.reverse ++ out
    match pending with
    | some (missing, n) =>
      match Json.hexValue? c with
      | none => .error .badEscape
      | some d =>
        if missing ≤ 1 then
          match charOf? (16 * n + d) with
          | some ch => readQuoted quote (ch :: out) .none .none (mark.next c) cs
          | none => .error .badEscape
        else readQuoted quote out gap (some (missing - 1, 16 * n + d)) (mark.next c) cs
    | none =>
      if isBreak c then readQuoted quote out (gap.addBreak c) .none (mark.next c) cs
      else if isBlank c then readQuoted quote out (gap.addBlank c) .none (mark.next c) cs
      else if atDocumentMark mark (c :: cs) then .error .documentMarkInText
      else if c == quote then
        match cs with
        | '\'' :: ds =>
          if quote == '\'' then
            readQuoted quote ('\'' :: joined) .none .none ((mark.next c).next c) ds
          else .ok (String.ofList joined.reverse, ⟨mark.next c, cs⟩)
        | _ => .ok (String.ofList joined.reverse, ⟨mark.next c, cs⟩)
      else if c == '\\' && quote == '"' then
        match cs with
        | [] => .error .badEscape
        | d :: ds =>
          let mark := (mark.next c).next d
          if isBreak d then readQuoted quote joined (.breaks .none []) .none mark ds
          else
            match unescapes.lookup d, escapeWidth? d with
            | some ch, _ => readQuoted quote (ch :: joined) .none .none mark ds
            | none, some width => readQuoted quote joined .none (some (width, 0)) mark ds
            | none, none => .error .badEscape
      else readQuoted quote (c :: joined) .none .none (mark.next c) cs

/-! ## Blocks -/

/-- What becomes of the line ends at the end of a block scalar. -/
inductive Chomping where
  | strip
  | clip
  | keep
  deriving DecidableEq, Repr

/-- What follows a bar or an angle: how ends are chomped, and the indentation
below that of the block around it. -/
structure BlockHeader where
  chomping : Chomping := .clip
  indentation : Option Nat := none

/-- Reads a sign for chomping, if there is one. -/
def takeChomping : List Char → Option Chomping × List Char
  | '+' :: cs => (some .keep, cs)
  | '-' :: cs => (some .strip, cs)
  | cs => (none, cs)

/-- Reads a digit for the indentation, if there is one. -/
def takeIndentation : List Char → Except Fault (Option Nat × List Char)
  | c :: cs =>
    if c == '0' then .error .badBlockHeader
    else if isAsciiDigit c then .ok (some (digitsValue [c]), cs)
    else .ok (none, c :: cs)
  | [] => .ok (none, [])

/-- Reads the header: a sign and a digit, each at most once, in either order. -/
def readHeader (cs : List Char) : Except Fault (BlockHeader × List Char) := do
  let (first, cs) := takeChomping cs
  let (indentation, cs) ← takeIndentation cs
  let (second, cs) := if first.isNone && indentation.isSome then takeChomping cs else (none, cs)
  .ok (⟨(first <|> second).getD .clip, indentation⟩, cs)

/-- The indentation of a block scalar that does not say it: that of its first
line with something in it, or of a longer one before that; `deepest` is the
longest so far, and `column` the blanks of the line that is being read. -/
def detectIndent (deepest column : Nat) : List Char → Except Fault Nat
  | [] => .ok (max deepest column)
  | c :: cs =>
    if c == ' ' then detectIndent deepest (column + 1) cs
    else if c == '\t' then .error .tabIndentation
    else if isBreak c then detectIndent (max deepest column) 0 cs
    else .ok (max deepest column)

/-- A block scalar while it is being read: the text backwards, the end of its
last line, the ends of empty lines behind that, and whether the last line
began with a blank. -/
structure BlockText where
  out : List Char := []
  ending : List Char := []
  empty : List Char := []
  blankStart : Bool := false

namespace BlockText

/-- The text with what lies between its last line and one that begins with `c`.
A line break is folded between two lines that do not begin with a blank. -/
def join (b : BlockText) (folded : Bool) (c : Char) : List Char :=
  let between :=
    if folded && b.ending == ['\n'] && !b.blankStart && !isBlank c then
      if b.empty.isEmpty then [' '] else b.empty
    else b.ending ++ b.empty
  between.reverse ++ b.out

/-- The whole text. -/
def finish (b : BlockText) (chomping : Chomping) : String :=
  String.ofList (b.out.reverse ++ match chomping with
    | .strip => []
    | .clip => b.ending
    | .keep => b.ending ++ b.empty)

end BlockText

/-- Reads the lines of a block scalar. `inside` says that the cursor is within
the text of a line, and not in front of it. -/
def readLines (folded : Bool) (indent : Nat) (b : BlockText) (inside : Bool) (mark : Mark) :
    List Char → Except Fault (BlockText × Cursor)
  | [] => .ok (b, ⟨mark, []⟩)
  | c :: cs =>
    if inside then
      if isBreak c then
        readLines folded indent { b with ending := [c], empty := [] } false (mark.next c) cs
      else readLines folded indent { b with out := c :: b.out } true (mark.next c) cs
    else if c == ' ' && decide (mark.column < indent) then
      readLines folded indent b false (mark.next c) cs
    else if c == '\t' && decide (mark.column < indent) then .error .tabIndentation
    else if isBreak c then
      readLines folded indent { b with empty := b.empty ++ [c] } false (mark.next c) cs
    else if mark.column == indent then
      let b : BlockText := { out := c :: b.join folded c, blankStart := isBlank c }
      readLines folded indent b true (mark.next c) cs
    else .ok (b, ⟨mark, c :: cs⟩)

/-- Reads a block scalar behind its bar or angle, within a block at `parent`. -/
def readBlock (folded : Bool) (parent : Int) (c : Cursor) : Except Fault (String × Cursor) := do
  let (header, rest) ← readHeader c.rest
  let c := (c.skip (c.rest.length - rest.length)).skipComment
  if !c.atLineEnd then .error .badBlockHeader
  else
    let c := c.skipBreak
    let indent ← match header.indentation with
      | some n => .ok (if 0 ≤ parent then parent.toNat + n else n)
      | none => do
        let deepest ← detectIndent 0 0 c.rest
        .ok (max (max deepest (parent + 1).toNat) 1)
    let (b, c) ← readLines folded indent {} false c.mark c.rest
    .ok (b.finish header.chomping, c)

end Pipework.Yaml
