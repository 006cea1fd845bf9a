import Pipework.Proofs.Json.Fields
import Pipework.Script.Parse

/-!
# Derivation trees of scripts

The grammar of scripts (it is spelled out in `Pipework.Script.Parse`) as data: a type for each
nonterminal, whose values are the derivation trees below it. Nothing here reads tokens.

Two functions say what a tree is a tree OF.

- `spelling` is its yield, the lexemes at its leaves from left to right. A list of lexemes is
  derivable exactly when it is the spelling of some tree.
- `meaning` is what it denotes. Text order is kept throughout; a later entry of an object or a
  later variable replaces the value of an earlier one at the earlier one's place, which is what
  `Fields.ofList` does.

The one condition that is no matter of grammar is `Call.KeysUnique`: an unnamed argument counts as
`_argN`, where `N` unnamed arguments stand before it, and no key may occur twice in a call.
-/

namespace Pipework.Script.Tree

/-! ## Sequences -/

/-- Parts with commas between them, and one behind the last if `comma` says so. Where there is no
part there is no comma. -/
def joined (comma : Bool) : List (List Lexeme) → List Lexeme
  | [] => []
  | part :: parts =>
    part ++ (if comma || !parts.isEmpty then [.mark .comma] else []) ++ joined comma parts

@[simp] theorem joined_nil (comma : Bool) : joined comma [] = [] := rfl

/-- A last part with no comma behind it. -/
@[simp] theorem joined_single_false (part : List Lexeme) : joined false [part] = part := by
  simp only [joined, List.isEmpty_nil, Bool.not_true, Bool.or_self, Bool.false_eq_true, ↓reduceIte,
    List.append_nil]

@[simp] theorem joined_single_true (part : List Lexeme) :
    joined true [part] = part ++ [.mark .comma] := by
  simp only [joined, Bool.true_or, ↓reduceIte, List.append_nil]

/-- A part that is not the last always has its comma. -/
@[simp] theorem joined_cons_cons (comma : Bool) (part next : List Lexeme)
    (parts : List (List Lexeme)) :
    joined comma (part :: next :: parts) = part ++ .mark .comma :: joined comma (next :: parts) := by
  simp only [joined, List.isEmpty_cons, Bool.not_false, Bool.or_true, ↓reduceIte, List.append_assoc,
    List.singleton_append]

/-- In front of any sequence one more part can be put, with a comma behind it. -/
theorem exists_joined_cons (comma : Bool) (part : List Lexeme) (parts : List (List Lexeme)) :
    ∃ comma', joined comma' (part :: parts) = part ++ .mark .comma :: joined comma parts := by
  cases parts with
  | nil => exact ⟨true, by rw [joined_single_true, joined_nil]⟩
  | cons next parts => exact ⟨comma, joined_cons_cons comma part next parts⟩

/-- Behind a part stands a comma, or it is the last one and nothing does. -/
theorem joined_cons_cases (comma : Bool) (part : List Lexeme) (parts : List (List Lexeme)) :
    joined comma (part :: parts) = part ++ .mark .comma :: joined comma parts ∨
      (parts = [] ∧ joined comma (part :: parts) = part) := by
  cases parts with
  | nil =>
    cases comma with
    | true => exact .inl (by rw [joined_single_true, joined_nil])
    | false => exact .inr ⟨rfl, joined_single_false part⟩
  | cons next parts => exact .inl (joined_cons_cons comma part next parts)

/-! ## Values -/

/-- A name that may be written as a word or as a text. -/
inductive Key where
  | word (name : String)
  | text (name : String)

namespace Key

/-- The name itself. -/
def name : Key → String
  | .word name => name
  | .text name => name

/-- The one lexeme of a name. -/
def lexeme : Key → Lexeme
  | .word name => .word name
  | .text name => .text name

end Key

/-- A value as written. `comma` says whether a comma stands behind the last part. -/
inductive Value where
  | text (s : String)
  | number (n : Number)
  | bool (b : Bool)
  | word (name : String)
  | reference (name : String)
  | object (entries : List (Key × Value)) (comma : Bool)
  | list (items : List Value) (comma : Bool)

mutual

/-- The lexemes of a value. -/
def Value.spelling : Value → List Lexeme
  | .text s => [.text s]
  | .number n => [.number n]
  | .bool b => [.bool b]
  | .word name => [.word name]
  | .reference name => [.mark .dollar, .word name]
  | .object entries comma =>
    .mark .leftBrace :: joined comma (entrySpellings entries) ++ [.mark .rightBrace]
  | .list items comma =>
    .mark .leftBracket :: joined comma (itemSpellings items) ++ [.mark .rightBracket]

/-- The lexemes of each entry of an object. -/
def entrySpellings : List (Key × Value) → List (List Lexeme)
  | [] => []
  | (key, value) :: entries =>
    (key.lexeme :: .mark .colon :: value.spelling) :: entrySpellings entries

/-- The lexemes of each item of a list. -/
def itemSpellings : List Value → List (List Lexeme)
  | [] => []
  | value :: values => value.spelling :: itemSpellings values

end

mutual

/-- The value that a tree denotes. -/
def Value.meaning : Value → Json
  | .text s => .string s
  | .number n => .number n
  | .bool b => .bool b
  | .word name => wordValue name
  | .reference name => .string ("$" ++ name)
  | .object entries _ => .object (Fields.ofList (entryMeanings entries))
  | .list items _ => .array (itemMeanings items)

/-- The entries of an object in text order, doubles included. -/
def entryMeanings : List (Key × Value) → List (String × Json)
  | [] => []
  | (key, value) :: entries => (key.name, value.meaning) :: entryMeanings entries

/-- The items of a list in text order. -/
def itemMeanings : List Value → List Json
  | [] => []
  | value :: values => value.meaning :: itemMeanings values

end

/-! ## Calls -/

/-- An argument: with a name or without. -/
structure Argument where
  name : Option String
  value : Value

namespace Argument

/-- The lexemes of an argument. -/
def spelling : Argument → List Lexeme
  | ⟨some name, value⟩ => .word name :: .mark .equals :: value.spelling
  | ⟨none, value⟩ => value.spelling

/-- The parameters that arguments denote, when `unnamed` arguments without a name stand before
them. -/
def params (unnamed : Nat) : List Argument → Params
  | [] => []
  | ⟨some name, value⟩ :: arguments => (name, value.meaning) :: params unnamed arguments
  | ⟨none, value⟩ :: arguments =>
    (positionalKey unnamed, value.meaning) :: params (unnamed + 1) arguments

end Argument

/-- The arguments of a call between its parentheses. -/
structure Arguments where
  list : List Argument
  comma : Bool

/-- A call. Without arguments the parentheses may be missing as well. -/
structure Call where
  module : String
  action : String
  arguments : Option Arguments

namespace Call

/-- The lexemes of a call. -/
def spelling (call : Call) : List Lexeme :=
  .word call.module :: .mark .dot :: .word call.action ::
    match call.arguments with
    | none => []
    | some arguments =>
      .mark .leftParen :: joined arguments.comma (arguments.list.map Argument.spelling) ++
        [.mark .rightParen]

/-- The parameters of a call. -/
def params (call : Call) : Params :=
  match call.arguments with
  | none => []
  | some arguments => Argument.params 0 arguments.list

/-- No key occurs twice among the parameters, whether it was written or counted. -/
def KeysUnique (call : Call) : Prop := call.params.Distinct

instance (call : Call) : Decidable call.KeysUnique :=
  inferInstanceAs (Decidable (Fields.Distinct call.params))

/-- The step of a call; `fallback` takes the place of a type that does not exist. -/
def meaning (fallback : AtomType) (call : Call) : Step :=
  { atom := ⟨(AtomType.ofName? call.module).getD fallback, call.action, call.params⟩ }

end Call

/-! ## Scripts -/

/-- The lexemes of calls, with pipes between them. -/
def callSpellings : List Call → List Lexeme
  | [] => []
  | call :: calls => call.spelling ++ calls.flatMap fun call => .mark .pipe :: call.spelling

/-- A whole script. -/
structure Source where
  header : Option Key
  vars : List (String × Value)
  calls : List Call

/-- The lexemes of a declaration. -/
def variableSpelling (declared : String × Value) : List Lexeme :=
  .mark .dollar :: .word declared.1 :: .mark .equals :: declared.2.spelling

/-- The lexemes of a header. -/
def headerSpelling : Option Key → List Lexeme
  | none => []
  | some key => [.mark .at, .word "pipeline", key.lexeme, .mark .colon]

/-- The variables that declarations denote. -/
def declarations (vars : List (String × Value)) : List (String × Json) :=
  vars.map fun declared => (declared.1, declared.2.meaning)

namespace Source

/-- The lexemes of a script, the mark of its end left out. -/
def spelling (script : Source) : List Lexeme :=
  headerSpelling script.header ++ script.vars.flatMap variableSpelling ++
    callSpellings script.calls

/-- No call of the script gives a key twice. -/
def KeysUnique (script : Source) : Prop := ∀ call ∈ script.calls, call.KeysUnique

instance (script : Source) : Decidable script.KeysUnique :=
  inferInstanceAs (Decidable (∀ call ∈ script.calls, call.KeysUnique))

/-- The pipeline of a script. -/
def meaning (fallback : AtomType) (script : Source) : Pipeline :=
  { name := (script.header.map Key.name).getD Pipeline.defaultName
    vars := Fields.ofList (declarations script.vars)
    steps := script.calls.map (Call.meaning fallback) }

end Source

end Pipework.Script.Tree
