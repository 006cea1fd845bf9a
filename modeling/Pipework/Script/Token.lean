import Pipework.Error
import Pipework.Json.Printer

/-!
# Tokens of a script

A script is the text form of a pipeline. Its tokens are marks, texts, numbers,
booleans and words, and a last token that stands for the end. A `Lexeme` is
what a token is; a `Token` adds where it was found. The kinds have names, which
messages use to say what was needed and what was there instead.
-/

namespace Pipework.Script

/-- A single punctuation character. -/
inductive Mark where
  | pipe
  | dot
  | leftParen
  | rightParen
  | leftBrace
  | rightBrace
  | leftBracket
  | rightBracket
  | comma
  | equals
  | colon
  | at
  | dollar
  deriving DecidableEq, Repr

namespace Mark

def all : List Mark :=
  [.pipe, .dot, .leftParen, .rightParen, .leftBrace, .rightBrace, .leftBracket, .rightBracket,
   .comma, .equals, .colon, .at, .dollar]

/-- The character itself. -/
def char : Mark → Char
  | .pipe => '|'
  | .dot => '.'
  | .leftParen => '('
  | .rightParen => ')'
  | .leftBrace => '{'
  | .rightBrace => '}'
  | .leftBracket => '['
  | .rightBracket => ']'
  | .comma => ','
  | .equals => '='
  | .colon => ':'
  | .at => '@'
  | .dollar => '$'

def ofChar? (c : Char) : Option Mark :=
  all.find? (·.char == c)

def name : Mark → String
  | .pipe => "PIPE"
  | .dot => "DOT"
  | .leftParen => "LPAREN"
  | .rightParen => "RPAREN"
  | .leftBrace => "LBRACE"
  | .rightBrace => "RBRACE"
  | .leftBracket => "LBRACKET"
  | .rightBracket => "RBRACKET"
  | .comma => "COMMA"
  | .equals => "EQUALS"
  | .colon => "COLON"
  | .at => "AT"
  | .dollar => "DOLLAR"

end Mark

/-- The kinds of tokens. Line breaks have a kind of their own in the list of
kinds, though they are read as blanks. -/
inductive Kind where
  | mark (m : Mark)
  | text
  | number
  | bool
  | word
  | lineBreak
  | finish
  deriving DecidableEq, Repr

namespace Kind

def all : List Kind :=
  Mark.all.map Kind.mark ++ [.text, .number, .bool, .word, .lineBreak, .finish]

def name : Kind → String
  | .mark m => m.name
  | .text => "STRING"
  | .number => "NUMBER"
  | .bool => "BOOL"
  | .word => "IDENTIFIER"
  | .lineBreak => "NEWLINE"
  | .finish => "end of input"

end Kind

/-- What a token is, with its decoded value. -/
inductive Lexeme where
  | mark (m : Mark)
  | text (value : String)
  | number (value : Number)
  | bool (value : Bool)
  | word (name : String)
  | finish
  deriving DecidableEq, Inhabited

namespace Lexeme

def kind : Lexeme → Kind
  | .mark m => .mark m
  | .text _ => .text
  | .number _ => .number
  | .bool _ => .bool
  | .word _ => .word
  | .finish => .finish

/-- The decoded value; a mark or a word stands for its own spelling. -/
def value : Lexeme → Json
  | .mark m => .string (String.singleton m.char)
  | .text s => .string s
  | .number n => .number n
  | .bool b => .bool b
  | .word s => .string s
  | .finish => .null

/-- How messages describe what was found. -/
def describe (l : Lexeme) : String :=
  match l with
  | .finish => l.kind.name
  | .text _ | .number _ | .bool _ => l.kind.name ++ " " ++ l.value.compact
  | .mark m => l.kind.name ++ " '" ++ String.singleton m.char ++ "'"
  | .word s => l.kind.name ++ " '" ++ s ++ "'"

end Lexeme

/-- A place in a script: the bytes before it, its line, and its column in
characters, both counted from 1. -/
structure Position where
  offset : Nat
  line : Nat
  column : Nat
  deriving DecidableEq, Repr, Inhabited

namespace Position

/-- Where a script begins. -/
def start : Position := ⟨0, 1, 1⟩

/-- The place behind a character. -/
def next (p : Position) (c : Char) : Position :=
  if c = '\n' then ⟨p.offset + c.utf8Size, p.line + 1, 1⟩
  else ⟨p.offset + c.utf8Size, p.line, p.column + 1⟩

/-- The place behind some characters. -/
def advance (p : Position) (cs : List Char) : Position :=
  cs.foldl next p

end Position

/-- A lexeme and the place of its first character. -/
structure Token where
  lexeme : Lexeme
  position : Position
  deriving DecidableEq, Inhabited

namespace Token

def describe (t : Token) : String := t.lexeme.describe

/-- The error of finding this token where something else was needed. -/
def unexpected (t : Token) (expected : String) : PipelineError :=
  .malformed expected t.describe t.position.line t.position.column

end Token

end Pipework.Script
