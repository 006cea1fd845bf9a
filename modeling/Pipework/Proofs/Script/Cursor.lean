import Pipework.Script.Parse

/-!
# A cursor over tokens

The readers of `Pipework.Script.Parse` take the tokens that are left and answer with fewer. Here they
are walks: the tokens stay as they are, and a cursor stands at a place among them. A walk can go wrong
where a reader cannot. It can look where no token is, and it can go on for ever; so a look outside and a
bound that is used up are endings of their own (`Stop`), told apart from a token that does not fit.

What a walk does on its way is kept (`Event`): where it looks, how it moves, and each turn of each of
its loops. There are three primitive routines, `current`, `peek` and `advance`; the others are put
together from these, one for each rule of the grammar, and a loop for each repetition in it. That they
do what the readers do is shown in `Pipework.Proofs.Script.Progress`.
-/

namespace Pipework.Script.Cursor

/-! ## Walks -/

/-- What a cursor does. -/
inductive Event where
  /-- It looks at the token at a place. -/
  | look (place : Nat)
  /-- It goes from one place to another. -/
  | move (source target : Nat)
  /-- It begins a turn, counted from 1, of the loop that it came to at a place. -/
  | turn (entered number : Nat)
  deriving DecidableEq

/-- Why a walk gives nothing. -/
inductive Stop where
  /-- A token does not fit. -/
  | refused (e : PipelineError)
  /-- There is no token at the place where one is needed. -/
  | outside (place : Nat)
  /-- The bound on nesting and on turns is used up. -/
  | unfinished

/-- A walk: how it ends, where, and what happened on the way. -/
structure Walk (α : Type) where
  outcome : Except Stop α
  place : Nat
  events : List Event

/-- What walks over some tokens from a place on. -/
def Routine (α : Type) : Type := List Token → Nat → Walk α

/-- One routine where the other one ends, if that gives something. -/
instance : Monad Routine where
  pure a _ place := ⟨.ok a, place, []⟩
  bind first next tokens place :=
    let walk := first tokens place
    match walk.outcome with
    | .error stop => ⟨.error stop, walk.place, walk.events⟩
    | .ok a =>
      let rest := next a tokens walk.place
      ⟨rest.outcome, rest.place, walk.events ++ rest.events⟩

section

variable {α : Type}

def stop (why : Stop) : Routine α := fun _ place => ⟨.error why, place, []⟩

def note (event : Event) : Routine Unit := fun _ place => ⟨.ok (), place, [event]⟩

def here : Routine Nat := fun _ place => ⟨.ok place, place, []⟩

/-! ## Single tokens -/

/-- The token at the place, which has to be there. -/
def current : Routine Token := fun tokens place =>
  ⟨match tokens[place]? with
    | some t => .ok t
    | none => .error (.outside place), place, [.look place]⟩

/-- What the token at a later place is; the end, if there is none. -/
def peek (ahead : Nat) : Routine Lexeme := fun tokens place =>
  ⟨.ok ((tokens[place + ahead]?.map Token.lexeme).getD .finish), place, [.look (place + ahead)]⟩

def forward : Routine Unit := fun _ place => ⟨.ok (), place + 1, [.move place (place + 1)]⟩

def check (kind : Kind) : Routine Bool := do
  return (← current).lexeme.kind == kind

/-- Goes to the next token, but never behind the end. -/
def advance : Routine Unit := do
  if ← check .finish then pure () else forward

def refuse (expected : String) : Routine α := do
  stop (.refused ((← current).unexpected expected))

def expect (kind : Kind) : Routine Unit := do
  if ← check kind then advance else refuse kind.name

/-- The text of a token of this kind. -/
def expectText (kind : Kind) : Routine String := do
  if ← check kind then
    let text := (← current).lexeme.value.string?.getD ""
    advance
    return text
  else refuse kind.name

/-- A word or a text. -/
def expectName (expected : String) : Routine String := do
  match (← current).lexeme.kind with
  | .word => expectText .word
  | .text => expectText .text
  | _ => refuse expected

/-- Behind a part of a sequence stands a comma, which is taken, or the mark that closes it. -/
def separator (close : Mark) (expected : String) : Routine Unit := do
  if ← check (.mark .comma) then advance
  else if ← check (.mark close) then pure ()
  else refuse expected

/-! ## Loops -/

/-- The turns of a loop behind those that it has made. -/
def turns (test : α → Routine Bool) (body : α → Routine α) (entered : Nat) :
    (bound made : Nat) → α → Routine α
  | 0, _, _ => stop .unfinished
  | bound + 1, made, a => do
    if ← test a then
      note (.turn entered (made + 1))
      let a ← body a
      turns test body entered bound (made + 1) a
    else return a

/-- The body again and again, as long as the test says so. -/
def loop (test : α → Routine Bool) (body : α → Routine α) (bound : Nat) (a : α) : Routine α := do
  turns test body (← here) bound 0 a

/-- The body again and again up to a mark, and the mark. -/
def loopTo (close : Mark) (body : α → Routine α) (bound : Nat) (a : α) : Routine α := do
  let a ← loop (fun _ => do return !(← check (.mark close))) body bound a
  expect (.mark close)
  return a

end

/-! ## Values -/

/-- One more entry of an object, with a routine for its value. -/
def entry (value : Routine Json) (fields : Fields) : Routine Fields := do
  let key ← expectName "object key"
  expect (.mark .colon)
  let value ← value
  separator .rightBrace "',' or '\x7d'"
  return fields.insert key value

/-- An object, with a routine for the values in it. -/
def object (value : Routine Json) (bound : Nat) : Routine Json := do
  expect (.mark .leftBrace)
  return .object (← loopTo .rightBrace (entry value) bound [])

/-- One more item of a list, with a routine for it. -/
def item (value : Routine Json) (items : List Json) : Routine (List Json) := do
  let item ← value
  separator .rightBracket "',' or ']'"
  return items ++ [item]

/-- A list, with a routine for the values in it. -/
def list (value : Routine Json) (bound : Nat) : Routine Json := do
  expect (.mark .leftBracket)
  return .array (← loopTo .rightBracket (item value) bound [])

/-- A value. -/
def value : (bound : Nat) → Routine Json
  | 0 => stop .unfinished
  | bound + 1 => do
    match (← current).lexeme.kind with
    | .text | .number | .bool =>
      let v := (← current).lexeme.value
      advance
      return v
    | .mark .dollar =>
      advance
      return .string ("$" ++ (← expectText .word))
    | .mark .leftBrace => object (value bound) bound
    | .mark .leftBracket => list (value bound) bound
    | .word => return wordValue (← expectText .word)
    | _ => refuse "value"

/-! ## Steps -/

/-- Whether an equals sign stands behind a word. -/
def isNamed : Routine Bool := do
  if ← check .word then return (← peek 1).kind == .mark .equals else return false

/-- One argument of a call: its key, its value, and how many without a name there are with it. -/
def argument (bound unnamed : Nat) : Routine (String × Json × Nat) := do
  if ← isNamed then
    let key ← expectText .word
    expect (.mark .equals)
    return (key, ← value bound, unnamed)
  else return (positionalKey unnamed, ← value bound, unnamed + 1)

/-- One more argument of a call, with the number of those without a name. -/
def param (bound : Nat) : Params × Nat → Routine (Params × Nat) := fun (params, unnamed) => do
  let place := (← current).position
  let (key, value, unnamed) ← argument bound unnamed
  if params.contains key then
    stop (.refused (.malformed "unique parameter names" ("duplicate parameter '" ++ key ++ "'")
      place.line place.column))
  else
    separator .rightParen "',' or ')'"
    return (params.insert key value, unnamed)

/-- The arguments of a call, with the parentheses around them. -/
def params (bound : Nat) : Routine Params := do
  expect (.mark .leftParen)
  return (← loopTo .rightParen (param bound) bound ([], 0)).1

/-- The arguments of a call, if there are parentheses. -/
def params? (bound : Nat) : Routine Params := do
  if ← check (.mark .leftParen) then params bound else return []

/-- The step of a call. -/
def made (unknown : UnknownTypes) (call : Call) : Routine Step :=
  match call.toStep unknown with
  | .ok (_, step) => return step
  | .error e => stop (.refused e)

/-- A step. -/
def step (unknown : UnknownTypes) (bound : Nat) : Routine Step := do
  let place := (← current).position
  let module ← expectText .word
  expect (.mark .dot)
  let action ← expectText .word
  made unknown ⟨module, place, action, ← params? bound⟩

/-! ## Pipelines -/

/-- Whether the word stands here that begins a header. -/
def isKeyword : Routine Bool := do
  if ← check .word then return (← current).lexeme.value.string? == some "pipeline" else return false

/-- The header. -/
def header : Routine String := do
  expect (.mark .at)
  if ← isKeyword then
    advance
    let name ← expectName "pipeline name"
    expect (.mark .colon)
    return name
  else refuse "'pipeline' after '@'"

/-- The header, if there is one. -/
def header? : Routine String := do
  if ← check (.mark .at) then header else return Pipeline.defaultName

/-- A variable. -/
def binding (bound : Nat) : Routine (String × Json) := do
  expect (.mark .dollar)
  let name ← expectText .word
  expect (.mark .equals)
  return (name, ← value bound)

/-- One more variable. -/
def declared (bound : Nat) (vars : Fields) : Routine Fields := do
  let (name, value) ← binding bound
  return vars.insert name value

/-- One more step, and whether a pipe stands behind it. -/
def piped (unknown : UnknownTypes) (bound : Nat) : List Step × Bool → Routine (List Step × Bool) :=
  fun (steps, _) => do
    let step ← step unknown bound
    if ← check (.mark .pipe) then
      advance
      return (steps ++ [step], true)
    else if ← check .finish then return (steps ++ [step], false)
    else refuse "'|' or end of input"

/-- The steps, up to one with no pipe behind it. -/
def steps (unknown : UnknownTypes) (bound : Nat) : Routine (List Step) := do
  return (← loop (fun (_, more) => pure more) (piped unknown bound) bound ([], true)).1

/-- A whole pipeline. -/
def pipeline (unknown : UnknownTypes) (bound : Nat) : Routine Pipeline := do
  let name ← header?
  let vars ← loop (fun _ => check (.mark .dollar)) (declared bound) bound []
  if ← check .finish then return { name, vars }
  else return { name, vars, steps := ← steps unknown bound }

end Pipework.Script.Cursor
