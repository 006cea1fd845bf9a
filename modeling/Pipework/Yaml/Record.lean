import Pipework.Yaml.Node
import Pipework.Yaml.Plain

/-!
# Reading records from a document

What a node is read as depends on what is asked for: a text takes any scalar,
whatever it spells, while a value takes a plain scalar by its meaning. An alias
is read as the node that it stands for, and the number of aliases that may be
followed is limited, as is the depth of lists and mappings.

A record is a mapping with keys from a fixed set. Keys outside the set are
passed over with their values; one of the set must not come twice.
-/

namespace Pipework.Yaml

/-- How deep lists and mappings may be nested. -/
def maxDepth : Nat := 128

/-- Reading in a document; the state is how many aliases have been followed. -/
abbrev Decode := ReaderT Document (StateT Nat (Except Fault))

/-- Reads something from a node, within which so many lists and mappings may be
nested. -/
abbrev Reader (α : Type) := (depth : Nat) → Node Nat → Decode α

/-- The node that an alias stands for; any other stands for itself. -/
def follow : Node Nat → Decode (Node Nat)
  | .alias n => do
    let document ← read
    modify (· + 1)
    if document.maxJumps < (← get) then throw .tooManyAliases
    match document.target? n with
    | some node => return node
    | none => throw .unknownAnchor
  | node => return node

/-! ## Scalars -/

/-- The tag of a kind that is known to all documents. -/
def commonTag (kind : String) : String :=
  "tag:yaml.org,2002:" ++ kind

/-- Is the tag one of the document's own? -/
def Label.isLocal (label : Label Nat) : Bool :=
  label.tag.any (·.startsWith "!")

/-- A text: that of any scalar. -/
def readText : Reader String := fun _ node => do
  match ← follow node with
  | .scalar _ _ text => return text
  | _ => throw (.wrongType "a string")

/-- A plain scalar, or one behind a bar that is tagged as of the kind. -/
def plainText? (kind : String) : Node Nat → Option String
  | .scalar label style text =>
    if style == .plain || (style == .literal && label.tag == some (commonTag kind)) then some text else none
  | _ => none

/-- A whole number of the unsigned 64-bit range. -/
def readUnsigned : Reader UInt64 := fun _ node => do
  match (plainText? "int" (← follow node)).bind (unsigned? ·.toList) with
  | some n => if n < twoTo 64 then return n.toUInt64 else throw (.wrongType "u64")
  | none => throw (.wrongType "u64")

/-- A boolean; null is none. -/
def readBool : Reader Bool := fun _ node => do
  match (plainText? "bool" (← follow node)).bind boolean? with
  | some b => return b
  | none => throw (.wrongType "a boolean")

/-- Is there nothing, or null? A scalar that is tagged as null has to be. -/
def isAbsent : Node Nat → Except Fault Bool
  | .scalar label .plain text =>
    match label.tag with
    | none => .ok (text.isEmpty || isNullText text)
    | some tag =>
      if tag != commonTag "null" then .ok false
      else if isNullText text then .ok true
      else .error (.wrongType "null")
  | _ => .ok false

/-- Nothing or null, or something. -/
def readOptional {α : Type} (read : Reader α) : Reader (Option α) := fun depth node => do
  let node ← follow node
  if ← isAbsent node then return none else return some (← read depth node)

/-- One of a fixed set of names, as a scalar, or as a tag in front of nothing. -/
def readVariant {α : Type} (ofName? : String → Option α) : Reader α := fun _ node => do
  let choose (name : String) : Decode α :=
    match ofName? name with
    | some a => return a
    | none => throw (.unknownVariant name)
  match ← follow node with
  | .scalar label style text =>
    if label.isLocal then do
      let a ← choose (String.ofList ((label.tag.getD "").toList.drop 1))
      if style == .plain && (text.isEmpty || isNullText text) then return a
      else throw (.wrongType "unit variant")
    else choose text
  | _ => throw (.wrongType "a variant")

/-! ## Values -/

/-- The value of a scalar's meaning. -/
def valueOf (text : String) : Meaning → Except Fault Json
  | .null | .notFinite => .ok .null
  | .bool b => .ok (.bool b)
  | .number n => .ok (.number n)
  | .tooLarge => .error .numberTooLarge
  | .text => .ok (.string text)

/-- The double that a text spells, as a value. -/
def floatOf (text : String) : Except Fault Json :=
  if notFinite.contains text then .ok .null
  else match double? text.toList with
    | some x => .ok (.number (.double x))
    | none => .error (.wrongType "a float")

/-- The whole number that a text spells, as a value. -/
def integerOf (text : String) : Except Fault Json :=
  match (whole? text.toList).map Number.ofInt? with
  | some (some n) => .ok (.number n)
  | some none => .error .numberTooLarge
  | none => .error (.wrongType "an integer")

/-- The value of a scalar: a plain one is what it means, any other is a text,
and a tag has its say before that. -/
def scalarValue (label : Label Nat) (style : ScalarStyle) (text : String) : Except Fault Json :=
  match label.tag with
  | none => if style == .plain then valueOf text (meaning text) else .ok (.string text)
  | some tag =>
    if label.isLocal then .error (.wrongType "any valid JSON value")
    else if tag == commonTag "bool" then
      match boolean? text with
      | some b => .ok (.bool b)
      | none => .error (.wrongType "a boolean")
    else if tag == commonTag "int" then integerOf text
    else if tag == commonTag "float" then floatOf text
    else if tag == commonTag "null" then
      if isNullText text then .ok .null else .error (.wrongType "null")
    else .ok (.string text)

/-- A list or a mapping must not have a tag of the document's own. -/
def checkTag (label : Label Nat) : Decode Unit :=
  if label.isLocal then throw (.wrongType "any valid JSON value") else return

/-- A value. -/
def readValue : Reader Json
  | 0, node => do
    match ← follow node with
    | .scalar label style text => scalarValue label style text
    | _ => throw .tooDeep
  | depth + 1, node => do
    match ← follow node with
    | .alias _ => throw .unknownAnchor
    | .scalar label style text => scalarValue label style text
    | .sequence label items =>
      checkTag label
      return .array (← items.mapM (readValue depth))
    | .mapping label entries =>
      checkTag label
      let fields ← entries.foldlM (fun (fields : Fields) (k, v) => do
        let key ← readText depth k
        return fields.insert key (← readValue depth v)) []
      return .object fields

/-! ## Containers -/

/-- Is nothing written here? -/
def isBlankNode : Node Nat → Bool
  | .scalar _ .plain text => text.isEmpty
  | _ => false

/-- The items of a list; nothing is a list without items. -/
def readItems {α : Type} (read : Reader α) : Reader (List α) := fun depth node => do
  match depth, ← follow node with
  | 0, .sequence _ _ => throw .tooDeep
  | depth + 1, .sequence _ items => items.mapM (read depth)
  | _, node => if isBlankNode node then return [] else throw (.wrongType "a sequence")

/-- The entries of a mapping, in order, read one by one into a draft; nothing is
a mapping without entries. -/
def foldEntries {σ : Type} (read : (depth : Nat) → σ → (key : String) → Node Nat → Decode σ)
    (blank : σ) : Reader σ :=
  fun depth node => do
    match depth, ← follow node with
    | 0, .mapping _ _ => throw .tooDeep
    | depth + 1, .mapping _ entries =>
      entries.foldlM (fun draft (k, v) => do read depth draft (← readText depth k) v) blank
    | _, node => if isBlankNode node then return blank else throw (.wrongType "a map")

/-- Values under any keys. -/
def readMap : Reader Fields :=
  foldEntries (fun depth (fields : Fields) key node => do
    return fields.insert key (← readValue depth node)) []

/-- One field of a record of which `σ` is the draft. -/
structure Member (σ : Type) where
  name : String
  /-- Has the draft got the field already? -/
  present : σ → Bool
  /-- Reads the field into the draft. -/
  read : (depth : Nat) → σ → Node Nat → Decode σ

/-- A member that sets its part of the draft with what `read` reads. -/
def Member.of {σ α : Type} (name : String) (get : σ → Option α) (set : σ → α → σ)
    (read : Reader α) : Member σ where
  name := name
  present draft := (get draft).isSome
  read depth draft node := do return set draft (← read depth node)

/-- The draft of a record. -/
def readRecord {σ : Type} (members : List (Member σ)) (blank : σ) : Reader σ :=
  foldEntries (fun depth draft key node => do
    match members.find? (·.name == key) with
    | none => return draft
    | some m =>
      if m.present draft then throw (.repeatedField key) else m.read depth draft node) blank

/-- What the whole of a text is read as. -/
def decode {α : Type} (read : Reader α) (text : String) : Except Fault α := do
  let document ← Document.ofText text
  let (a, _) ← (read maxDepth document.root).run document |>.run 0
  .ok a

end Pipework.Yaml
