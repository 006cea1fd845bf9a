import Pipework.Yaml.Scan

/-!
# The tree of a document

The tokens of a document form a tree of scalars, lists and mappings. A node may
be named by an anchor, and an alias stands for the node that was last given its
name. `Node String` is the tree with the names as written; in `Node Nat` the
names are numbers, and `Document.target?` finds the node of a number.

A name gets the number of different names before it, also when it is given
again, so it can take over the number of another.
-/

namespace Pipework.Yaml

/-- What may stand in front of a node: an anchor and a tag. -/
structure Label (ν : Type) where
  anchor : Option ν := none
  tag : Option String := none
  deriving DecidableEq

/-- A node, with names of type `ν`. -/
inductive Node (ν : Type) where
  | alias (name : ν)
  | scalar (label : Label ν) (style : ScalarStyle) (text : String)
  | sequence (label : Label ν) (items : List (Node ν))
  | mapping (label : Label ν) (entries : List (Node ν × Node ν))

namespace Node

/-- A node where nothing is written. -/
def empty {ν : Type} : Node ν := .scalar {} .plain ""

end Node

/-! ## From tokens -/

/-- Reads the anchor and the tag in front of a node, in either order. -/
def parseLabel (known : Shorthands) : List Token → Except Fault (Label String × List Token)
  | .anchor a :: .tag h s :: ts | .tag h s :: .anchor a :: ts => do
    .ok ({ anchor := some a, tag := some (← known.expand h s) }, ts)
  | .anchor a :: ts => .ok ({ anchor := some a }, ts)
  | .tag h s :: ts => do .ok ({ tag := some (← known.expand h s) }, ts)
  | ts => .ok ({}, ts)

/-- The label of a scalar that is written out; a lone exclamation mark says nothing. -/
def Label.ofScalar (label : Label String) : Label String :=
  if label.tag == some "!" then { label with tag := none } else label

/-- The empty scalar behind an anchor or a tag; without them a node is missing. -/
def emptyBehind (label : Label String) (ts : List Token) : Except Fault (Node String × List Token) :=
  if label.anchor.isNone && label.tag.isNone then .error .missingNode
  else .ok (.scalar label .plain "", ts)

/-- Reads a node, unless a token comes that may follow an empty one. -/
def nodeUnless (ends : List Token) (read : List Token → Except Fault (Node String × List Token)) :
    List Token → Except Fault (Node String × List Token)
  | [] => read []
  | t :: ts => if ends.contains t then .ok (.empty, t :: ts) else read (t :: ts)

/-- Goes over the comma between two parts; there is none in front of the first. -/
def skipComma (first : Bool) : List Token → Except Fault (List Token)
  | .comma :: ts => if first then .ok (.comma :: ts) else .ok ts
  | ts => if first then .ok ts else .error .missingSeparator

/-- Reads the value behind a key, which may be missing. -/
def valueAfter (ends : List Token) (read : List Token → Except Fault (Node String × List Token)) :
    List Token → Except Fault (Node String × List Token)
  | .value :: ts => nodeUnless ends read ts
  | ts => .ok (.empty, ts)

mutual

/-- Reads a node. Blocks stand only outside brackets, and the items of a list
that is the value of a key need no indentation. -/
def parseNode (known : Shorthands) (block loose : Bool) :
    (fuel : Nat) → List Token → Except Fault (Node String × List Token)
  | 0, _ => .error .missingNode
  | _ + 1, .alias name :: ts => .ok (.alias name, ts)
  | fuel + 1, ts => do
    let (label, ts) ← parseLabel known ts
    match ts with
    | .scalar style text :: ts => .ok (.scalar label.ofScalar style text, ts)
    | .flowSequenceStart :: ts =>
      let (items, ts) ← parseFlowItems known true fuel ts
      .ok (.sequence label items, ts)
    | .flowMappingStart :: ts =>
      let (entries, ts) ← parseFlowEntries known true fuel ts
      .ok (.mapping label entries, ts)
    | .item :: _ =>
      if loose then
        let (items, ts) ← parseLooseItems known fuel ts
        .ok (.sequence label items, ts)
      else emptyBehind label ts
    | .blockSequenceStart :: rest =>
      if block then
        let (items, ts) ← parseItems known fuel rest
        .ok (.sequence label items, ts)
      else emptyBehind label ts
    | .blockMappingStart :: rest =>
      if block then
        let (entries, ts) ← parseEntries known fuel rest
        .ok (.mapping label entries, ts)
      else emptyBehind label ts
    | _ => emptyBehind label ts

/-- Reads the items of a list up to the end of its block. -/
def parseItems (known : Shorthands) :
    (fuel : Nat) → List Token → Except Fault (List (Node String) × List Token)
  | 0, _ => .error .missingItem
  | fuel + 1, .item :: ts => do
    let (item, ts) ← nodeUnless [.item, .blockEnd] (parseNode known true false fuel) ts
    let (items, ts) ← parseItems known fuel ts
    .ok (item :: items, ts)
  | _ + 1, .blockEnd :: ts => .ok ([], ts)
  | _ + 1, _ => .error .missingItem

/-- Reads the items of a list that has no block of its own. -/
def parseLooseItems (known : Shorthands) :
    (fuel : Nat) → List Token → Except Fault (List (Node String) × List Token)
  | 0, _ => .error .missingItem
  | fuel + 1, .item :: ts => do
    let (item, ts) ← nodeUnless [.item, .key, .value, .blockEnd] (parseNode known true false fuel) ts
    let (items, ts) ← parseLooseItems known fuel ts
    .ok (item :: items, ts)
  | _ + 1, ts => .ok ([], ts)

/-- Reads the entries of a mapping up to the end of its block. -/
def parseEntries (known : Shorthands) :
    (fuel : Nat) → List Token → Except Fault (List (Node String × Node String) × List Token)
  | 0, _ => .error .missingKey
  | fuel + 1, .key :: ts => do
    let ends : List Token := [.key, .value, .blockEnd]
    let (key, ts) ← nodeUnless ends (parseNode known true true fuel) ts
    let (value, ts) ← valueAfter ends (parseNode known true true fuel) ts
    let (entries, ts) ← parseEntries known fuel ts
    .ok ((key, value) :: entries, ts)
  | _ + 1, .blockEnd :: ts => .ok ([], ts)
  | _ + 1, _ => .error .missingKey

/-- Reads what stands between square brackets, behind the first. An item may be
a key with its value, which is a mapping of one entry; if nothing is written
for the key, the token behind its question mark is passed over. -/
def parseFlowItems (known : Shorthands) (first : Bool) :
    (fuel : Nat) → List Token → Except Fault (List (Node String) × List Token)
  | 0, _ => .error .missingSeparator
  | _ + 1, .flowSequenceEnd :: ts => .ok ([], ts)
  | fuel + 1, ts => do
    match ← skipComma first ts with
    | .flowSequenceEnd :: ts => .ok ([], ts)
    | .key :: ts =>
      let (key, ts) ← match ts with
        | .value :: ts | .comma :: ts | .flowSequenceEnd :: ts => .ok (.empty, ts)
        | ts => parseNode known false false fuel ts
      let (value, ts) ← valueAfter [.comma, .flowSequenceEnd] (parseNode known false false fuel) ts
      let (items, ts) ← parseFlowItems known false fuel ts
      .ok (.mapping {} [(key, value)] :: items, ts)
    | ts =>
      let (item, ts) ← parseNode known false false fuel ts
      let (items, ts) ← parseFlowItems known false fuel ts
      .ok (item :: items, ts)

/-- Reads what stands between braces, behind the first. A key without a value
needs no question mark. -/
def parseFlowEntries (known : Shorthands) (first : Bool) :
    (fuel : Nat) → List Token → Except Fault (List (Node String × Node String) × List Token)
  | 0, _ => .error .missingSeparator
  | _ + 1, .flowMappingEnd :: ts => .ok ([], ts)
  | fuel + 1, ts => do
    let ends : List Token := [.comma, .flowMappingEnd]
    match ← skipComma first ts with
    | .flowMappingEnd :: ts => .ok ([], ts)
    | .key :: ts =>
      let (key, ts) ← nodeUnless (.value :: ends) (parseNode known false false fuel) ts
      let (value, ts) ← valueAfter ends (parseNode known false false fuel) ts
      let (entries, ts) ← parseFlowEntries known false fuel ts
      .ok ((key, value) :: entries, ts)
    | ts =>
      let (key, ts) ← parseNode known false false fuel ts
      let (entries, ts) ← parseFlowEntries known false fuel ts
      .ok ((key, .empty) :: entries, ts)

end

/-- What the directives of a document say so far. -/
structure Directives where
  versioned : Bool := false
  shorthands : Shorthands := []

/-- Reads the directives in front of a document. -/
def parseDirectives (d : Directives) : List Token → Except Fault (Directives × List Token)
  | .version major minor :: ts =>
    if d.versioned then .error .repeatedDirective
    else if major = 1 ∧ (minor = 1 ∨ minor = 2) then parseDirectives { d with versioned := true } ts
    else .error .badVersion
  | .tagShorthand handle expansion :: ts =>
    if (d.shorthands.lookup handle).isSome then .error .repeatedDirective
    else parseDirectives { d with shorthands := d.shorthands ++ [(handle, expansion)] } ts
  | ts => .ok (d, ts)

/-- Reads the only document of a text. Behind its end there may be marks of
document ends, but no second document. -/
def parseDocument (ts : List Token) : Except Fault (Node String) := do
  let fuel := 2 * ts.length + 4
  if ts.isEmpty then return .empty
  let (d, rest) ← parseDirectives {} ts
  let known := d.shorthands ++ Shorthands.standard
  let (node, rest) ← match rest with
    | .documentStart :: ts =>
      if ts.head?.all fun t => t == .documentStart || t == .documentEnd then .ok (.empty, ts)
      else nodeUnless [] (parseNode known true false fuel) ts
    | _ =>
      if d.versioned || !d.shorthands.isEmpty then .error .missingDocumentStart
      else parseNode known true false fuel rest
  if rest.all (· == .documentEnd) then .ok node else .error .severalDocuments

/-! ## Names and numbers -/

/-- The names that have been given, with their numbers. -/
abbrev Names := List (String × Nat)

/-- Gives a name, and says its number. -/
def Names.give (names : Names) (name : String) : Names × Nat :=
  let n := names.length
  if (names.lookup name).isSome then (names.map fun (m, i) => if m == name then (m, n) else (m, i), n)
  else (names ++ [(name, n)], n)

/-- A label with a number for its name. -/
def Label.number (label : Label String) (names : Names) : Label Nat × Names :=
  match label.anchor with
  | none => ({ tag := label.tag }, names)
  | some name =>
    let (names, n) := names.give name
    ({ anchor := some n, tag := label.tag }, names)

mutual

/-- The tree with numbers for names, and the names at its end. An alias has to
come behind its name. -/
def Node.number : Node String → Names → Except Fault (Node Nat × Names)
  | .alias name, names =>
    match names.lookup name with
    | some n => .ok (.alias n, names)
    | none => .error .unknownAnchor
  | .scalar label style text, names =>
    let (label, names) := label.number names
    .ok (.scalar label style text, names)
  | .sequence label items, names => do
    let (label, names) := label.number names
    let (items, names) ← numberItems items names
    .ok (.sequence label items, names)
  | .mapping label entries, names => do
    let (label, names) := label.number names
    let (entries, names) ← numberEntries entries names
    .ok (.mapping label entries, names)

/-- The nodes of a list with numbers for names. -/
def numberItems : List (Node String) → Names → Except Fault (List (Node Nat) × Names)
  | [], names => .ok ([], names)
  | v :: vs, names => do
    let (v, names) ← v.number names
    let (vs, names) ← numberItems vs names
    .ok (v :: vs, names)

/-- The entries of a mapping with numbers for names. -/
def numberEntries :
    List (Node String × Node String) → Names → Except Fault (List (Node Nat × Node Nat) × Names)
  | [], names => .ok ([], names)
  | (k, v) :: es, names => do
    let (k, names) ← k.number names
    let (v, names) ← v.number names
    let (es, names) ← numberEntries es names
    .ok ((k, v) :: es, names)

end

mutual

/-- The nodes that have a number, each before those within it. -/
def Node.numbered : Node Nat → List (Nat × Node Nat)
  | .alias _ => []
  | .scalar label style text => label.anchor.toList.map fun n => (n, .scalar label style text)
  | .sequence label items =>
    (label.anchor.toList.map fun n => (n, .sequence label items)) ++ numberedItems items
  | .mapping label entries =>
    (label.anchor.toList.map fun n => (n, .mapping label entries)) ++ numberedEntries entries

/-- The nodes of a list, and those within them, that have a number. -/
def numberedItems : List (Node Nat) → List (Nat × Node Nat)
  | [] => []
  | v :: vs => v.numbered ++ numberedItems vs

/-- The nodes of the entries of a mapping, and those within them, that have a number. -/
def numberedEntries : List (Node Nat × Node Nat) → List (Nat × Node Nat)
  | [] => []
  | (k, v) :: es => k.numbered ++ v.numbered ++ numberedEntries es

end

mutual

/-- The size of a tree: one for each scalar and alias, two for each list and mapping. -/
def Node.size : Node Nat → Nat
  | .alias _ => 1
  | .scalar _ _ _ => 1
  | .sequence _ items => sizeItems items + 2
  | .mapping _ entries => sizeEntries entries + 2

/-- The size of the nodes of a list. -/
def sizeItems : List (Node Nat) → Nat
  | [] => 0
  | v :: vs => v.size + sizeItems vs

/-- The size of the entries of a mapping. -/
def sizeEntries : List (Node Nat × Node Nat) → Nat
  | [] => 0
  | (k, v) :: es => k.size + v.size + sizeEntries es

end

/-- A document: its tree, the nodes that aliases stand for, and how many aliases
may be followed. -/
structure Document where
  root : Node Nat
  targets : List (Nat × Node Nat)
  maxJumps : Nat

namespace Document

/-- The node of a number: the last that got it. -/
def target? (d : Document) (n : Nat) : Option (Node Nat) :=
  d.targets.reverse.lookup n

/-- The document of a text. A text of blanks and comments is one with nothing in it. -/
def ofText (text : String) : Except Fault Document := do
  let (root, _) ← (← parseDocument (← tokens text.toList)).number []
  .ok { root, targets := root.numbered, maxJumps := 100 * root.size }

end Document

end Pipework.Yaml
