import Pipework.Json.Fault
import Pipework.Json.Printer
import Pipework.Yaml.Chars
import Pipework.Yaml.Plain

/-!
# YAML text

A value as a YAML document in block style: a field or an item on each line, two
blanks for each level, and lists not indented under their key. Empty lists and
objects are written `[]` and `\x7b\x7d`.

A text stands without quotes where nothing else could be read from it. It is
put in single quotes where it would be read as something else, in double quotes
where it has characters that need an escape, and over several lines, behind a
bar, where it has line feeds and none of that.
-/

namespace Pipework.Yaml

/-! ## What a text allows -/

/-- Characters that a plain scalar cannot begin with. -/
def indicators : List Char :=
  ['#', ',', '[', ']', '\x7b', '\x7d', '&', '*', '!', '|', '>', '\'', '"', '%', '@', '\x60']

/-- Would the first character be read as more than itself? -/
def opensOther : List Char → Bool
  | [] => false
  | c :: cs => indicators.contains c || ((c == '?' || c == ':' || c == '-') && atSpace cs)

/-- Is there a colon that would end a key, or a hash that would start a
comment, behind the first character? -/
def hidesIndicator : List Char → Bool
  | c :: d :: cs =>
    (d == ':' && atSpace cs) || (d == '#' && isSpace c) || hidesIndicator (d :: cs)
  | _ => false

/-- Is one character directly followed by another, for some pair like this? -/
def hasPair (before after : Char → Bool) : List Char → Bool
  | c :: d :: cs => (before c && after d) || hasPair before after (d :: cs)
  | _ => false

/-- A blank that is no tab, or the end of a line. -/
def isEdge (c : Char) : Bool :=
  c == ' ' || isBreak c

/-- Does the text have several lines? -/
def isMultiline (cs : List Char) : Bool :=
  cs.any isBreak

/-- Can the text stand in single quotes? -/
def allowsSingle (cs : List Char) : Bool :=
  cs.all isPrintable && !hasPair isBreak (· == ' ') cs && !hasPair (· == ' ') isBreak cs

/-- Can the text stand without quotes? -/
def allowsPlain (cs : List Char) : Bool :=
  !cs.isEmpty && cs.all isPrintable && !isMultiline cs &&
    !cs.head?.any isEdge && !cs.getLast?.any isEdge &&
    !(['-', '-', '-'].isPrefixOf cs || ['.', '.', '.'].isPrefixOf cs) &&
    !opensOther cs && !hidesIndicator cs

/-- Can the text stand on lines of its own? -/
def allowsLiteral (cs : List Char) : Bool :=
  cs.all isPrintable && !hasPair (· == ' ') isBreak cs && cs.getLast? != some ' '

/-- How a text is written. -/
def styleOf (s : String) : ScalarStyle :=
  let cs := s.toList
  if cs.contains '\n' then if allowsLiteral cs then .literal else .double
  else if meaning s == .text && !isPaddedDigits cs && allowsPlain cs then .plain
  else if allowsSingle cs then .single
  else .double

/-! ## Scalars -/

/-- The escapes of one letter. -/
def escapes : List (Char × Char) :=
  [('\x00', '0'), ('\x07', 'a'), ('\x08', 'b'), ('\t', 't'), ('\n', 'n'), ('\x0b', 'v'),
   ('\x0c', 'f'), ('\r', 'r'), ('\x1b', 'e'), ('"', '"'), ('\\', '\\'), ('\u0085', 'N'),
   ('\u00a0', '_'), ('\u2028', 'L'), ('\u2029', 'P')]

/-- A number as so many hexadecimal digits in capitals. -/
def hexDigits : (width : Nat) → Nat → List Char
  | 0, _ => []
  | width + 1, n => hexDigits width (n / 16) ++ [(Nat.digitChar (n % 16)).toUpper]

/-- One character between double quotes. -/
def escaped (c : Char) : List Char :=
  if isPrintable c && !isBreak c && c != '"' && c != '\\' then [c]
  else match escapes.lookup c with
    | some letter => ['\\', letter]
    | none =>
      if c.toNat ≤ 0xFF then '\\' :: 'x' :: hexDigits 2 c.toNat
      else if c.toNat ≤ 0xFFFF then '\\' :: 'u' :: hexDigits 4 c.toNat
      else '\\' :: 'U' :: hexDigits 8 c.toNat

/-- So many blanks. -/
def blanks (n : Nat) : List Char :=
  List.replicate n ' '

/-- Lines with blanks in front of each that is not empty; `fresh` says that a
line is about to begin. -/
def indented (indent : Nat) (fresh : Bool) : List Char → List Char
  | [] => []
  | c :: cs =>
    if isBreak c then c :: indented indent true cs
    else (if fresh then blanks indent else []) ++ c :: indented indent false cs

/-- The text between single quotes: a quote is written twice. -/
def singleBody (indent : Nat) (cs : List Char) : List Char :=
  let lines := indented indent false (cs.flatMap fun c => if c == '\'' then ['\'', '\''] else [c])
  if cs.getLast?.any isBreak then lines ++ blanks indent else lines

/-- What follows the bar: the indentation, where the text does not show it, and
what becomes of the line ends at its end. -/
def literalHeader (cs : List Char) : List Char :=
  let indentation := if cs.head?.any isEdge then ['2'] else []
  let chomping := match cs.reverse with
    | [] => ['-']
    | [c] => if isBreak c then ['+'] else ['-']
    | c :: d :: _ => if isBreak c then if isBreak d then ['+'] else [] else ['-']
  indentation ++ chomping

/-- A text in its style; lines of their own are indented by `indent`. -/
def textChars (indent : Nat) (s : String) : List Char :=
  let cs := s.toList
  match styleOf s with
  | .plain => cs
  | .single => '\'' :: singleBody indent cs ++ ['\'']
  | .literal | .folded => '|' :: literalHeader cs ++ '\n' :: indented indent true cs
  | .double => '"' :: cs.flatMap escaped ++ ['"']

/-- How doubles are written in YAML. -/
def numberLayout : Decimal.Layout := ⟨some (-5, 15), ""⟩

/-- A number. -/
def numberText : Number → String
  | .integer i _ => toString i
  | .double x => x.toDecimal.text numberLayout

/-- Ends the line, unless a text on lines of its own has ended it already. -/
def endLine (cs : List Char) : List Char :=
  if cs.getLast?.any isBreak then cs else cs ++ ['\n']

/-- Can the text be a key on the line of its value? -/
def isSimpleKey (key : String) : Bool :=
  !isMultiline key.toList && decide (Json.byteSize key.toList ≤ 128)

/-! ## Documents -/

mutual

/-- What follows the colon of a key that stands at `indent`. -/
def afterKey (indent : Nat) : Json → List Char
  | .array [] => " []\n".toList
  | .array items => '\n' :: blanks indent ++ itemLines indent items
  | .object [] => [' ', '\x7b', '\x7d', '\n']
  | .object fields => '\n' :: blanks (indent + 2) ++ fieldLines (indent + 2) fields
  | .null => " null\n".toList
  | .bool b => (if b then " true\n" else " false\n").toList
  | .number n => ' ' :: (numberText n).toList ++ ['\n']
  | .string s => ' ' :: endLine (textChars (indent + 2) s)

/-- What follows a mark that stands at `indent`, on the same line. -/
def afterMark (indent : Nat) : Json → List Char
  | .array [] => " []\n".toList
  | .array items => ' ' :: itemLines (indent + 2) items
  | .object [] => [' ', '\x7b', '\x7d', '\n']
  | .object fields => ' ' :: fieldLines (indent + 2) fields
  | .null => " null\n".toList
  | .bool b => (if b then " true\n" else " false\n").toList
  | .number n => ' ' :: (numberText n).toList ++ ['\n']
  | .string s => ' ' :: endLine (textChars (indent + 2) s)

/-- Items at `indent`, the first of them where the text stands. -/
def itemLines (indent : Nat) : List Json → List Char
  | [] => []
  | [v] => '-' :: afterMark indent v
  | v :: vs => '-' :: afterMark indent v ++ blanks indent ++ itemLines indent vs

/-- Fields at `indent`, the first of them where the text stands. A key of several
lines or of more than 128 bytes is marked. -/
def fieldLines (indent : Nat) : List (String × Json) → List Char
  | [] => []
  | (k, v) :: fields =>
    let key := textChars (indent + 2) k
    let field :=
      if isSimpleKey k then key ++ ':' :: afterKey indent v
      else '?' :: ' ' :: endLine key ++ blanks indent ++ ':' :: afterMark indent v
    match fields with
    | [] => field
    | _ => field ++ blanks indent ++ fieldLines indent fields

end

/-- The document of an object, or of a value in general. -/
def documentChars : Json → List Char
  | .array (v :: vs) => itemLines 0 (v :: vs)
  | .object (f :: fs) => fieldLines 0 (f :: fs)
  | v => (afterMark 0 v).drop 1

/-- The value as a YAML document. -/
def print (v : Json) : String :=
  String.ofList (documentChars v)

end Pipework.Yaml
