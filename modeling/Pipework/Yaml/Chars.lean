/-!
# Characters in YAML

The classes of characters that YAML tells apart. A text has five kinds of line
break; `normalize` makes three of them line feeds, which is how all of them but
the two Unicode separators are read.
-/

namespace Pipework.Yaml

/-- Does the character end a line? -/
def isBreak (c : Char) : Bool :=
  c == '\n' || c == '\r' || c == '\u0085' || c == '\u2028' || c == '\u2029'

/-- Blank or tab. -/
def isBlank (c : Char) : Bool :=
  c == ' ' || c == '\t'

/-- Blank, tab, or the end of a line. -/
def isSpace (c : Char) : Bool :=
  isBlank c || isBreak c

/-- Is there nothing more, or a blank, a tab or the end of the line? -/
def atSpace (cs : List Char) : Bool :=
  cs.head?.all isSpace

/-- The mark that may stand at the start of a text and says nothing. -/
def byteOrderMark : Char := '\ufeff'

/-- May the character be written as it is? -/
def isPrintable (c : Char) : Bool :=
  c == '\n' || (' ' ≤ c && c ≤ '~') ||
    ('\u00a0' ≤ c && c != byteOrderMark && c != '\ufffe' && c != '\uffff')

/-- May the character occur in a document? -/
def isAllowed (c : Char) : Bool :=
  c == '\t' || c == '\r' || c == '\u0085' || c == byteOrderMark || isPrintable c

/-- Characters of the names of anchors, tag handles and directives. -/
def isNameChar (c : Char) : Bool :=
  c.isAlphanum || c == '_' || c == '-'

/-- The text with line feeds for carriage returns, pairs of the two, and next lines. -/
def normalize : List Char → List Char
  | '\r' :: '\n' :: cs => '\n' :: normalize cs
  | '\r' :: cs => '\n' :: normalize cs
  | '\u0085' :: cs => '\n' :: normalize cs
  | c :: cs => c :: normalize cs
  | [] => []

/-- Do three dots or hyphens stand here, alone? They start or end a document
when they stand at the start of a line. -/
def isDocumentMark (mark : Char) : List Char → Bool
  | a :: b :: c :: cs => a == mark && b == mark && c == mark && atSpace cs
  | _ => false

/-- How the text of a scalar is written. -/
inductive ScalarStyle where
  | plain
  | single
  | double
  | literal
  | folded
  deriving DecidableEq, Repr

end Pipework.Yaml
