import Pipework.Json.Reader

/-!
# Identifiers of runs

A run is known by a 128-bit identifier, written as 32 hexadecimal digits in
groups of 8, 4, 4, 4 and 12. Reading is more lenient than writing: the digits
may also stand without hyphens, in braces, or behind the name of the scheme.
A text that is none of these has a fault, worded in `Uuid.Fault.message`.
-/

namespace Pipework

/-- A 128-bit identifier. -/
structure Uuid where
  value : BitVec 128
  deriving DecidableEq, Repr

namespace Uuid

/-- The identifier that stands for none. -/
def nil : Uuid := ⟨0⟩

instance : Inhabited Uuid := ⟨nil⟩

/-- The 32 digits. -/
def digits (id : Uuid) : List Char :=
  let digits := Nat.toDigits 16 id.value.toNat
  List.replicate (32 - digits.length) '0' ++ digits

/-- The digits in groups, with hyphens between them. -/
def text (id : Uuid) : String :=
  let ds := id.digits
  let group (start size : Nat) := String.ofList ((ds.drop start).take size)
  "-".intercalate [group 0 8, group 8 4, group 12 4, group 16 4, group 20 12]

/-- The first group, by which listings name a run. -/
def short (id : Uuid) : String :=
  String.ofList (id.digits.take 8)

/-- The identifier of random bits: version 4 of the standard layout. -/
def ofRandom (bits : Nat) : Uuid :=
  let low := bits % twoTo 62
  let middle := bits / twoTo 62 % twoTo 12
  let high := bits / twoTo 74 % twoTo 48
  ⟨BitVec.ofNat 128 (high * twoTo 80 + 4 * twoTo 76 + middle * twoTo 64 + 2 * twoTo 62 + low)⟩

/-! ## Reading -/

/-- Why a text is no identifier. -/
inductive Fault where
  /-- A character that is neither a digit nor a hyphen, and the bytes before it. -/
  | character (c : Char) (index : Nat)
  /-- Digits only, and not 32 of them. -/
  | simpleLength (length : Nat)
  /-- Hyphens, and not four of them. -/
  | groupCount (count : Nat)
  /-- The first of five groups that does not have its size. -/
  | groupLength (group length : Nat)
  deriving DecidableEq, Repr

/-- The sizes of the groups. -/
def groupSizes : List Nat := [8, 4, 4, 4, 12]

/-- Where the groups start. -/
def groupStarts : List Nat := [0, 9, 14, 19, 24]

/-- The wording of a fault. -/
def Fault.message : Fault → String
  | .character c index =>
    "invalid character: found \x60" ++ String.singleton c ++ "\x60 at " ++ toString index
  | .simpleLength length =>
    "invalid length: expected length 32 for simple format, found " ++ toString length
  | .groupCount count => "invalid group count: expected 5, found " ++ toString count
  | .groupLength group length =>
    "invalid group length in group " ++ toString group ++ ": expected " ++
      toString (groupSizes[group]?.getD 0) ++ ", found " ++ toString length

/-- The name of the scheme that may stand in front. -/
def scheme : List Char := "urn:uuid:".toList

/-- What stands inside braces or behind the scheme, how many bytes are in front
of it, and whether there was neither. -/
def unwrap (cs : List Char) : List Char × Nat × Bool :=
  if 2 ≤ cs.length && cs.head? == some '{' && cs.getLast? == some '}' then
    ((cs.drop 1).dropLast, 1, false)
  else if cs.take 9 == scheme then (cs.drop 9, 9, false)
  else (cs, 0, true)

/-- What is wrong with a text that is no identifier. -/
def faultOf (cs : List Char) : Fault :=
  let (body, offset, bare) := unwrap cs
  match body.zipIdx.find? fun (c, _) => c != '-' && (Json.hexValue? c).isNone with
  | some (c, i) => .character c (Json.byteSize (body.take i) + offset)
  | none =>
    let hyphens := body.zipIdx.filterMap fun (c, i) => if c == '-' then some i else none
    if hyphens.isEmpty && bare then .simpleLength cs.length
    else if hyphens.length ≠ 4 then .groupCount (hyphens.length + 1)
    else
      let ends := (hyphens.zip (groupStarts.zip (groupStarts.drop 1))).zipIdx
      match ends.find? fun ((place, _, next), _) => place + 1 != next with
      | some ((place, start, _), group) => .groupLength group (place - start)
      | none => .groupLength 4 (cs.length - 24)

/-- The value of hexadecimal digits. -/
def hexNumber? (cs : List Char) : Option Nat :=
  cs.foldlM (fun n c => (Json.hexValue? c).map fun d => 16 * n + d) 0

/-- The digits of an identifier with its hyphens in their places. -/
def groupedDigits? (cs : List Char) : Option (List Char) :=
  let isHyphenPlace (i : Nat) := i == 8 || i == 13 || i == 18 || i == 23
  if cs.length == 36 && cs.zipIdx.all fun (c, i) => (c == '-') == isHyphenPlace i then
    some (cs.filter (· != '-'))
  else none

/-- The digits of an identifier in any of its spellings. -/
def digitsOf? (cs : List Char) : Option (List Char) :=
  if cs.length = 32 then some cs
  else if cs.length = 36 ∨ cs.length = 38 ∨ cs.length = 45 then groupedDigits? (unwrap cs).1
  else none

/-- The identifier that a text denotes. -/
def parse (s : String) : Except Fault Uuid :=
  match (digitsOf? s.toList).bind hexNumber? with
  | some n => .ok ⟨BitVec.ofNat 128 n⟩
  | none => .error (faultOf s.toList)

end Uuid

end Pipework
