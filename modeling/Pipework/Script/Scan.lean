import Pipework.Script.Token
import Pipework.Text.Classes

/-!
# From script text to tokens

A script is cut from left to right into pieces: blanks, comments and lexemes.
`pieceAt` decides what starts at a place and how far it reaches, so the pieces
put together are the text again; `scan` keeps the lexemes with their places.

What starts at a place is the first of these that fits: a mark; a text in
double or single quotes; a number; `true` or `false`, in lower case or with a
capital, unless a word character touches it; a word; blanks; a comment, from
`#` to the end of the line.
-/

namespace Pipework.Script

/-! ## Words -/

/-- May a word begin with this character? -/
def isWordStart (c : Char) : Bool :=
  c.isAlpha || c == '_'

/-- May a word go on with this character? -/
def isWordChar (c : Char) : Bool :=
  c.isAlphanum || c == '_'

/-- Does this character, standing beside a letter, belong to the same word?
Digits of any script do. No other character outside ASCII can stand in a
script at this place, so nothing hangs on which of them would. -/
def touches (c : Char) : Bool :=
  isWordChar c || Text.isDigit c

/-- The spellings of the two booleans. -/
def booleans : List (String × Bool) :=
  [("true", true), ("false", false), ("True", true), ("False", false)]

/-- The boolean that a word spells. -/
def boolean? (word : String) : Option Bool :=
  booleans.lookup word

/-- Is the text a word? -/
def isWord (s : String) : Bool :=
  match s.toList with
  | [] => false
  | c :: cs => isWordStart c && cs.all isWordChar

/-- Is the text a word that does not spell a boolean? -/
def isBareWord (s : String) : Bool :=
  isWord s && (boolean? s).isNone

/-! ## Texts -/

/-- The characters between the quotes of a text, with its escapes as written.
A backslash takes the next character with it, which may be a quote but not a
line break. -/
def quotedBody (quote : Char) : List Char → Option (List Char)
  | [] => none
  | [c] => if c = quote then some [] else none
  | c :: d :: cs =>
    if c = quote then some []
    else if c = '\\' then
      if d = '\n' then none else (quotedBody quote cs).map fun body => c :: d :: body
    else (quotedBody quote (d :: cs)).map (c :: ·)

/-- The text that was meant: a backslash hides a quote or a backslash, and
before anything else it stands for itself. -/
def unescape : List Char → List Char
  | '\\' :: c :: cs =>
    if c = '"' || c = '\'' || c = '\\' then c :: unescape cs else '\\' :: c :: unescape cs
  | c :: cs => c :: unescape cs
  | [] => []

/-! ## Numbers -/

/-- The spelling of a number at the front: a minus, digits, and after a point
any number of digits. Digits of any script count here. -/
def numeral? (cs : List Char) : Option (List Char) :=
  let (sign, cs) := match cs with
    | '-' :: cs => (['-'], cs)
    | cs => ([], cs)
  match cs.takeWhile Text.isDigit, cs.dropWhile Text.isDigit with
  | [], _ => none
  | whole, '.' :: rest => some (sign ++ whole ++ '.' :: rest.takeWhile Text.isDigit)
  | whole, _ => some (sign ++ whole)

/-- The number of a spelling: an integer if it has no point and fits a signed
word, a double otherwise. There is none for digits that are not ASCII, nor for
a number too large for a double. -/
def numeralValue? (raw : List Char) : Option Number :=
  let asDouble := (Double.ofText? raw).map Number.double
  let (negative, digits) := Decimal.takeSign raw
  if digits.all isAsciiDigit then
    let size : Int := digitsValue digits
    let value := if negative then -size else size
    if -9223372036854775808 ≤ value ∧ value < 9223372036854775808 then Number.ofInt? value
    else asDouble
  else asDouble

/-! ## Pieces -/

/-- What a part of a script is. -/
inductive Piece where
  | trivia
  | lexeme (l : Lexeme)
  | numberOutOfRange
  deriving DecidableEq

/-- The piece of a spelled-out lexeme and how many characters it has after the first. -/
def spelledPiece (l : Lexeme) (raw : List Char) : Piece × Nat :=
  (.lexeme l, raw.length - 1)

/-- The word at the front of `c :: cs`, or the boolean if it spells one and
stands alone. -/
def wordPiece (before : Option Char) (c : Char) (cs : List Char) : Piece × Nat :=
  let raw := c :: cs.takeWhile isWordChar
  let name := String.ofList raw
  let alone := !before.any touches && !(cs.dropWhile isWordChar).head?.any touches
  match boolean? name with
  | some b => spelledPiece (if alone then .bool b else .word name) raw
  | none => spelledPiece (.word name) raw

/-- The piece that starts with `c` and goes on in `cs`, and how many characters
of `cs` belong to it; `before` is the character in front of it. -/
def pieceAt (before : Option Char) (c : Char) (cs : List Char) : Option (Piece × Nat) :=
  match Mark.ofChar? c with
  | some m => some (.lexeme (.mark m), 0)
  | none =>
    if c = '"' ∨ c = '\'' then
      (quotedBody c cs).map fun body =>
        (.lexeme (.text (String.ofList (unescape body))), body.length + 1)
    else match numeral? (c :: cs) with
      | some raw =>
        match numeralValue? raw with
        | some n => some (spelledPiece (.number n) raw)
        | none => some (.numberOutOfRange, raw.length - 1)
      | none =>
        if isWordStart c then some (wordPiece before c cs)
        else if Text.isBlank c then some (.trivia, (cs.takeWhile Text.isBlank).length)
        else if c = '#' then some (.trivia, (cs.takeWhile (· != '\n')).length)
        else none

/-! ## The scan -/

/-- The tokens of what is left of a script, the last one marking its end. -/
def scanFrom (position : Position) (before : Option Char) :
    List Char → Except PipelineError (List Token)
  | [] => .ok [⟨.finish, position⟩]
  | c :: cs =>
    match pieceAt before c cs with
    | none =>
      .error (.malformed "a token" ("unexpected character '" ++ String.singleton c ++ "'")
        position.line position.column)
    | some (piece, extra) =>
      let taken := c :: cs.take extra
      let rest := scanFrom (position.advance taken) taken.getLast? (cs.drop extra)
      match piece with
      | .trivia => rest
      | .lexeme l => rest.map (⟨l, position⟩ :: ·)
      | .numberOutOfRange =>
        .error (.malformed "a number within range" ("NUMBER " ++ String.ofList taken)
          position.line position.column)
termination_by cs => cs.length
decreasing_by rw [List.length_drop, List.length_cons]; omega

/-- The tokens of a script. -/
def tokenize (text : String) : Except PipelineError (List Token) :=
  scanFrom .start none text.toList

end Pipework.Script
