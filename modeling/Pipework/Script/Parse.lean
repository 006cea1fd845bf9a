import Pipework.Error
import Pipework.Pipeline
import Pipework.Script.Scan

/-!
# From tokens to a pipeline

The grammar of scripts, read with one token of lookahead:

    pipeline  := [header] {variable} [step {'|' step}]
    header    := '@' 'pipeline' (WORD | TEXT) ':'
    variable  := '$' WORD '=' value
    step      := WORD '.' WORD ['(' params ')']
    params    := [param {',' param} [',']]
    param     := WORD '=' value | value
    value     := TEXT | NUMBER | BOOL | 'null' | 'None' | '$' WORD | WORD | object | list
    object    := '{' [(WORD | TEXT) ':' value {',' ...} [',']] '}'
    list      := '[' [value {',' value} [',']] ']'

Each reader takes the tokens that are left and answers with what it read and
the tokens after it, or with the error at the first token that does not fit.
Values nest, so their readers carry a bound; twice the number of tokens is
always enough, because every second step takes a token.

A step's module name may be no atom type. `UnknownTypes` says whether that is
an error or another type takes its place; taking its place is reported.
-/

namespace Pipework.Script

/-- What becomes of a module name that is no atom type. -/
inductive UnknownTypes where
  | substitute (type : AtomType)
  | reject
  deriving DecidableEq, Repr

instance : Inhabited UnknownTypes := ⟨.substitute .data⟩

/-! ## Single tokens -/

/-- The next token; a list of tokens always ends with one for the end. -/
def current (ts : List Token) : Token :=
  ts.head?.getD default

/-- The error of a next token that does not fit. -/
def fail {α : Type} (expected : String) (ts : List Token) : Except PipelineError α :=
  .error ((current ts).unexpected expected)

/-- Takes a mark. -/
def takeMark (m : Mark) : List Token → Except PipelineError (List Token)
  | [] => fail m.name []
  | t :: ts => if t.lexeme = .mark m then .ok ts else fail m.name (t :: ts)

/-- Takes a word. -/
def takeWord : List Token → Except PipelineError (String × List Token)
  | ⟨.word name, _⟩ :: ts => .ok (name, ts)
  | ts => fail Kind.word.name ts

/-- Takes a word or a text where a name is needed. -/
def takeName (expected : String) : List Token → Except PipelineError (String × List Token)
  | ⟨.word name, _⟩ :: ts => .ok (name, ts)
  | ⟨.text name, _⟩ :: ts => .ok (name, ts)
  | ts => fail expected ts

/-! ## Values -/

/-- The value of a word that stands alone: nothing, or its own spelling. -/
def wordValue (name : String) : Json :=
  if name = "null" ∨ name = "None" then .null else .string name

mutual

/-- A value. -/
def readValue : (bound : Nat) → List Token → Except PipelineError (Json × List Token)
  | bound + 1, ⟨.mark .leftBrace, _⟩ :: ts => do
    let (fields, ts) ← readEntries bound [] ts
    .ok (.object fields, ts)
  | bound + 1, ⟨.mark .leftBracket, _⟩ :: ts => do
    let (items, ts) ← readItems bound ts
    .ok (.array items, ts)
  | _ + 1, ⟨.mark .dollar, _⟩ :: ts => do
    let (name, ts) ← takeWord ts
    .ok (.string ("$" ++ name), ts)
  | _ + 1, ⟨.text s, _⟩ :: ts => .ok (.string s, ts)
  | _ + 1, ⟨.number n, _⟩ :: ts => .ok (.number n, ts)
  | _ + 1, ⟨.bool b, _⟩ :: ts => .ok (.bool b, ts)
  | _ + 1, ⟨.word name, _⟩ :: ts => .ok (wordValue name, ts)
  | _, ts => fail "value" ts

/-- The entries of an object after `fields`, up to the closing brace. -/
def readEntries : (bound : Nat) → Fields → List Token → Except PipelineError (Fields × List Token)
  | 0, _, ts => fail "value" ts
  | _ + 1, fields, ⟨.mark .rightBrace, _⟩ :: ts => .ok (fields, ts)
  | bound + 1, fields, ts => do
    let (key, ts) ← takeName "object key" ts
    let ts ← takeMark .colon ts
    let (value, ts) ← readValue bound ts
    let fields := fields.insert key value
    match ts with
    | ⟨.mark .comma, _⟩ :: ts => readEntries bound fields ts
    | ⟨.mark .rightBrace, _⟩ :: ts => .ok (fields, ts)
    | ts => fail "',' or '\x7d'" ts

/-- The items of a list, up to the closing bracket. -/
def readItems : (bound : Nat) → List Token → Except PipelineError (List Json × List Token)
  | 0, ts => fail "value" ts
  | _ + 1, ⟨.mark .rightBracket, _⟩ :: ts => .ok ([], ts)
  | bound + 1, ts => do
    let (item, ts) ← readValue bound ts
    match ts with
    | ⟨.mark .comma, _⟩ :: ts => do
      let (items, ts) ← readItems bound ts
      .ok (item :: items, ts)
    | ⟨.mark .rightBracket, _⟩ :: ts => .ok ([item], ts)
    | ts => fail "',' or ']'" ts

end

/-! ## Steps -/

/-- One argument of a call: its key and its value. `unnamed` arguments without
a name came before it. -/
def readParam (bound unnamed : Nat) :
    List Token → Except PipelineError ((String × Json × Nat) × List Token)
  | ⟨.word key, _⟩ :: ⟨.mark .equals, _⟩ :: ts => do
    let (value, ts) ← readValue bound ts
    .ok ((key, value, unnamed), ts)
  | ts => do
    let (value, ts) ← readValue bound ts
    .ok ((positionalKey unnamed, value, unnamed + 1), ts)

/-- The arguments of a call after `params`, up to the closing parenthesis. No
key may occur twice, whether it was written or counted. -/
def readParams : (bound : Nat) → (unnamed : Nat) → Params → List Token →
    Except PipelineError (Params × List Token)
  | 0, _, _, ts => fail "value" ts
  | _ + 1, _, params, ⟨.mark .rightParen, _⟩ :: ts => .ok (params, ts)
  | bound + 1, unnamed, params, ts => do
    let place := (current ts).position
    let ((key, value, unnamed), ts) ← readParam bound unnamed ts
    if params.contains key then
      .error (.malformed "unique parameter names" ("duplicate parameter '" ++ key ++ "'")
        place.line place.column)
    else
      let params := params.insert key value
      match ts with
      | ⟨.mark .comma, _⟩ :: ts => readParams bound unnamed params ts
      | ⟨.mark .rightParen, _⟩ :: ts => .ok (params, ts)
      | ts => fail "',' or ')'" ts

/-- A call as written: its module name and where that stands, its action and
its arguments. -/
structure Call where
  module : String
  position : Position
  action : String
  params : Params

/-- A call, with or without parentheses. -/
def readCall (ts : List Token) : Except PipelineError (Call × List Token) := do
  let place := (current ts).position
  let (module, ts) ← takeWord ts
  let ts ← takeMark .dot ts
  let (action, ts) ← takeWord ts
  match ts with
  | ⟨.mark .leftParen, _⟩ :: ts => do
    let (params, ts) ← readParams (2 * ts.length + 1) 0 [] ts
    .ok (⟨module, place, action, params⟩, ts)
  | ts => .ok (⟨module, place, action, []⟩, ts)

/-- The step of a call, and what is to be reported about it. -/
def Call.toStep (unknown : UnknownTypes) (call : Call) : Except PipelineError (List Report × Step) :=
  match AtomType.ofName? call.module, unknown with
  | some type, _ => .ok ([], { atom := ⟨type, call.action, call.params⟩ })
  | none, .substitute type =>
    .ok ([⟨.warn, "Unknown atom type '" ++ call.module ++ "' at line " ++
        toString call.position.line ++ "; using '" ++ type.name ++ "'"⟩],
      { atom := ⟨type, call.action, call.params⟩ })
  | none, .reject =>
    .error (.unknownAtomType call.module call.position.line call.position.column)

/-- A result with the lines reported on the way to it. -/
structure Reported (α : Type) where
  reports : List Report
  result : Except PipelineError α

/-- The steps up to the end, joined by pipes; the bound is on their number. -/
def readSteps (unknown : UnknownTypes) : (bound : Nat) → List Token → Reported (List Step)
  | 0, ts => ⟨[], fail "'|' or end of input" ts⟩
  | bound + 1, ts =>
    match readCall ts with
    | .error e => ⟨[], .error e⟩
    | .ok (call, ts) =>
      match call.toStep unknown with
      | .error e => ⟨[], .error e⟩
      | .ok (reports, step) =>
        match ts with
        | ⟨.finish, _⟩ :: _ => ⟨reports, .ok [step]⟩
        | ⟨.mark .pipe, _⟩ :: ts =>
          let rest := readSteps unknown bound ts
          ⟨reports ++ rest.reports, rest.result.map (step :: ·)⟩
        | ts => ⟨reports, fail "'|' or end of input" ts⟩

/-! ## Pipelines -/

/-- The header after its `@`: the word `pipeline`, a name, a colon. -/
def readHeader : List Token → Except PipelineError (String × List Token)
  | ⟨.word "pipeline", _⟩ :: ts => do
    let (name, ts) ← takeName "pipeline name" ts
    let ts ← takeMark .colon ts
    .ok (name, ts)
  | ts => fail "'pipeline' after '@'" ts

/-- A variable after its `$`: a word, an equals sign, a value. -/
def readVariable (ts : List Token) : Except PipelineError ((String × Json) × List Token) := do
  let (name, ts) ← takeWord ts
  let ts ← takeMark .equals ts
  let (value, ts) ← readValue (2 * ts.length) ts
  .ok ((name, value), ts)

/-- The variables after `declared`, as many as there are; the bound is on their number. -/
def readVariables : (bound : Nat) → Fields → List Token → Except PipelineError (Fields × List Token)
  | bound + 1, declared, ⟨.mark .dollar, _⟩ :: ts => do
    let ((name, value), ts) ← readVariable ts
    readVariables bound (declared.insert name value) ts
  | _, declared, ts => .ok (declared, ts)

/-- Everything before the first step: the name, if there is a header, and the variables. -/
def readPreamble (ts : List Token) : Except PipelineError (Pipeline × List Token) := do
  let (name, ts) ← match ts with
    | ⟨.mark .at, _⟩ :: ts => readHeader ts
    | ts => .ok (Pipeline.defaultName, ts)
  let (vars, ts) ← readVariables ts.length [] ts
  .ok ({ name, vars }, ts)

/-- The pipeline of a whole list of tokens. -/
def readPipeline (unknown : UnknownTypes) (ts : List Token) : Reported Pipeline :=
  match readPreamble ts with
  | .error e => ⟨[], .error e⟩
  | .ok (pipeline, ts) =>
    match ts with
    | ⟨.finish, _⟩ :: _ => ⟨[], .ok pipeline⟩
    | ts =>
      let steps := readSteps unknown ts.length ts
      ⟨steps.reports, steps.result.map fun steps => { pipeline with steps }⟩

/-- What is reported when a script has been read. -/
def readingReport (p : Pipeline) : Report :=
  ⟨.debug, "Parsed pipeline '" ++ p.name ++ "': " ++ toString p.vars.length ++
    " variables, " ++ toString p.steps.length ++ " steps"⟩

/-- Reads a script, with the lines reported on the way. -/
def read (unknown : UnknownTypes) (text : String) : Reported Pipeline :=
  match tokenize text with
  | .error e => ⟨[], .error e⟩
  | .ok ts =>
    let whole := readPipeline unknown ts
    match whole.result with
    | .ok p => ⟨whole.reports ++ [readingReport p], .ok p⟩
    | .error e => ⟨whole.reports, .error e⟩

/-- The pipeline of a script. -/
def parse (unknown : UnknownTypes) (text : String) : Except PipelineError Pipeline :=
  (read unknown text).result

end Pipework.Script
