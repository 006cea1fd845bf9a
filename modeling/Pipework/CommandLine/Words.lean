/-!
# The words of a command line

A program is called with words. Some name options, which may take a value;
others are operands, told apart by their order; and one may name a command,
which has its own options and operands for all words behind it.

An option is a letter behind a hyphen or a name behind two. Letters may be
joined in one word, and a value may be joined to either, behind an equals sign
or, for a letter, without one. Behind a word of two hyphens all are operands.

A value is judged when the next option or operand comes, or the end, so a word
that nothing is known of is reported before a bad value in front of it.
-/

namespace Pipework.CommandLine

/-- Why words give no command. The first two are wishes, the others faults. -/
inductive Halt where
  | help
  | version
  | noWords
  | missingCommand
  | unknownCommand (word : String)
  | unknownArgument (word : String)
  | missingOperand (name : String)
  | missingValue (name : String)
  /-- The value is none of those that there are, or empty where it may not be. -/
  | refusedValue (name value : String)
  | malformedValue (name value : String)
  | surplusValue (name : String)
  | repeated (name : String)
  | conflict (name other : String)
  deriving DecidableEq, Repr

/-- What a parameter is for. -/
inductive Use where
  | help
  | version
  /-- Is given or not. -/
  | flag
  /-- Has a value, and is given at most once. -/
  | one
  /-- Has a value, and may be given again. -/
  | many
  deriving DecidableEq, Repr

/-- An option, or an operand, which needs a name to speak of it only. -/
structure Parameter where
  name : String
  letter : Option Char := none
  use : Use := .one
  /-- What is wrong with a value, if anything. -/
  check : String → Option Halt := fun _ => none

/-- Does a value belong to the parameter? -/
def Parameter.takesValue (p : Parameter) : Bool :=
  p.use == .one || p.use == .many

/-- What words a command knows. -/
structure Grammar where
  options : List Parameter
  operands : List Parameter := []
  commands : List String := []

/-- Words in the middle of being read. -/
structure Reading where
  /-- The parameters that have been given, with their values, in order. -/
  given : List (String × String) := []
  /-- A parameter whose value is still to be judged, or still to come. -/
  pending : Option (Parameter × Option String) := none
  /-- The operands still to come. -/
  operands : List Parameter
  /-- Are there only operands now? -/
  trailing : Bool := false

namespace Reading

/-- Has the parameter been given? -/
def has (r : Reading) (name : String) : Bool :=
  r.given.any (·.1 == name)

/-- The value of a parameter. -/
def value? (r : Reading) (name : String) : Option String :=
  r.given.lookup name

/-- The values of a parameter that may be given again. -/
def values (r : Reading) (name : String) : List String :=
  (r.given.filter (·.1 == name)).map Prod.snd

/-- Takes a parameter as given, if it may be given and the value is good. -/
def give (r : Reading) (p : Parameter) (value : String) : Except Halt Reading :=
  if p.use != .many && r.has p.name then .error (.repeated p.name)
  else match p.check value with
    | some halt => .error halt
    | none => .ok { r with given := r.given ++ [(p.name, value)] }

/-- Judges the value that is pending. -/
def settle (r : Reading) : Except Halt Reading :=
  match r.pending with
  | none => .ok r
  | some (p, none) => .error (.missingValue p.name)
  | some (p, some value) => { r with pending := none }.give p value

/-- Is the next word the value of an option? -/
def expectsValue (r : Reading) : Bool :=
  !r.trailing && r.pending.any (·.2.isNone)

/-- Takes an option, with the value that is joined to it, if there is one. -/
def takeOption (r : Reading) (p : Parameter) (joined : Option String) : Except Halt Reading :=
  match joined with
  | some value =>
    if p.takesValue then do (← r.settle).give p value else .error (.surplusValue p.name)
  | none => do
    let r ← r.settle
    match p.use with
    | .help => .error .help
    | .version => .error .version
    | .flag => r.give p "true"
    | .one | .many => .ok { r with pending := some (p, none) }

/-- Takes an option by its name. -/
def takeNamed (g : Grammar) (r : Reading) (name : String) (joined : Option String) :
    Except Halt Reading :=
  match g.options.find? (·.name == name) with
  | some p => r.takeOption p joined
  | none => .error (.unknownArgument ("--" ++ name))

/-- Takes options by their letters, up to the first that has a value, which is
the rest of the word. -/
def takeLetters (g : Grammar) : Reading → List Char → Except Halt Reading
  | r, [] => .ok r
  | r, c :: cs =>
    match g.options.find? (·.letter == some c) with
    | none => .error (.unknownArgument (String.ofList ['-', c]))
    | some p =>
      if p.takesValue then
        r.takeOption p (match cs with
          | [] => none
          | '=' :: cs => some (String.ofList cs)
          | cs => some (String.ofList cs))
      else do takeLetters g (← r.takeOption p none) cs

/-- Takes an operand. -/
def takeOperand (g : Grammar) (r : Reading) (word : String) : Except Halt Reading :=
  match r.operands with
  | p :: operands => do .ok { ← r.settle with pending := some (p, some word), operands }
  | [] =>
    if g.commands.isEmpty || (r.trailing && g.commands.contains word) then .error (.unknownArgument word)
    else .error (.unknownCommand word)

end Reading

/-- What a word looks like. -/
inductive Shape where
  | separator
  | name (name : String) (joined : Option String)
  | letters (cs : List Char)
  | plain
  deriving DecidableEq, Repr

/-- What a word looks like, where there may be options. A lone hyphen is plain. -/
def shapeOf (word : String) : Shape :=
  match word.toList with
  | ['-', '-'] => .separator
  | '-' :: '-' :: cs =>
    let name := String.ofList (cs.takeWhile (· != '='))
    match cs.dropWhile (· != '=') with
    | _ :: value => .name name (some (String.ofList value))
    | [] => .name name none
  | '-' :: c :: cs => .letters (c :: cs)
  | _ => .plain

/-- Reads words up to the end or to the name of a command; in that case the
name and the words behind it are left. -/
def readWords (g : Grammar) :
    Reading → List String → Except Halt (Reading × Option (String × List String))
  | r, [] => .ok (r, none)
  | r, word :: words =>
    if r.trailing then do readWords g (← r.takeOperand g word) words
    else if !r.expectsValue && g.commands.contains word then .ok (r, some (word, words))
    else
      match shapeOf word with
      | .separator => readWords g { r with trailing := true } words
      | .name name joined => do readWords g (← r.takeNamed g name joined) words
      | .letters cs => do readWords g (← r.takeLetters g cs) words
      | .plain =>
        match r.pending with
        | some (p, none) => readWords g { r with pending := some (p, some word) } words
        | _ => do readWords g (← r.takeOperand g word) words

/-- Reads all words of a command that has no commands of its own. -/
def readAll (g : Grammar) (words : List String) : Except Halt Reading := do
  let (r, _) ← readWords { g with commands := [] } { operands := g.operands } words
  r.settle

/-- Complains of the first operand that is missing. -/
def Reading.complete (r : Reading) (g : Grammar) : Except Halt Reading :=
  match g.operands.find? (!r.has ·.name) with
  | some p => .error (.missingOperand p.name)
  | none => .ok r

end Pipework.CommandLine
