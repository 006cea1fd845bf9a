import Pipework.Yaml.Chars

/-!
# Tokens of YAML

A document is first cut into tokens. Besides what is written there are tokens
for what indentation means: the start and the end of a block.
-/

namespace Pipework.Yaml

/-- A token. -/
inductive Token where
  | version (major minor : Nat)
  | tagShorthand (handle expansion : String)
  | documentStart
  | documentEnd
  | blockSequenceStart
  | blockMappingStart
  | blockEnd
  | flowSequenceStart
  | flowSequenceEnd
  | flowMappingStart
  | flowMappingEnd
  | item
  | comma
  | key
  | value
  | alias (name : String)
  | anchor (name : String)
  | tag (handle suffix : String)
  | scalar (style : ScalarStyle) (text : String)
  deriving DecidableEq, Repr

/-- A place in a text: characters before it, lines before it, and characters
before it in its line. -/
structure Mark where
  index : Nat := 0
  line : Nat := 0
  column : Nat := 0
  deriving DecidableEq, Repr, Inhabited

namespace Mark

/-- The place behind a character. -/
def next (m : Mark) (c : Char) : Mark :=
  if isBreak c then ⟨m.index + 1, m.line + 1, 0⟩ else ⟨m.index + 1, m.line, m.column + 1⟩

end Mark

/-- What is left of a text, and the place where it starts. -/
structure Cursor where
  mark : Mark
  rest : List Char
  deriving Inhabited

namespace Cursor

/-- The cursor behind so many characters. -/
def skip : Nat → Cursor → Cursor
  | 0, c => c
  | n + 1, ⟨mark, ch :: rest⟩ => skip n ⟨mark.next ch, rest⟩
  | _ + 1, c => c

/-- The characters up to the first that fails the test, and the cursor there. -/
def span (c : Cursor) (p : Char → Bool) : List Char × Cursor :=
  let taken := c.rest.takeWhile p
  (taken, c.skip taken.length)

/-- The cursor at the first character that fails the test. -/
def skipWhile (c : Cursor) (p : Char → Bool) : Cursor :=
  (c.span p).2

/-- Is the next character this one? -/
def at? (c : Cursor) (ch : Char) : Bool :=
  c.rest.head? == some ch

/-- Is there a blank, a tab, the end of the line or of the text? -/
def atSpace (c : Cursor) : Bool :=
  Yaml.atSpace c.rest

/-- Is there the end of the line or of the text? -/
def atLineEnd (c : Cursor) : Bool :=
  c.rest.head?.all isBreak

/-- The cursor behind blanks and a comment. -/
def skipComment (c : Cursor) : Cursor :=
  let c := c.skipWhile isBlank
  if c.at? '#' then c.skipWhile fun ch => !isBreak ch else c

/-- The cursor behind the line break, if there is one here. -/
def skipBreak (c : Cursor) : Cursor :=
  if c.rest.head?.any isBreak then c.skip 1 else c

end Cursor

end Pipework.Yaml
