import Pipework.Number.Double

/-!
# Decimal numerals

The decimal side of a double: a sign, the digits as one whole number, and the
power of ten of the last digit. Three things are done with it.

* `ofText?` reads a numeral, `toDouble?` rounds it to the nearest double.
* `Double.toDecimal` finds the shortest numeral that rounds back to a double.
* `text` lays a numeral out: a `Layout` says which numbers are written with an
  exponent, and how the exponent looks.
-/

namespace Pipework

/-- The number `± digits · 10 ^ exponent`. -/
structure Decimal where
  negative : Bool
  digits : Nat
  exponent : Int
  deriving DecidableEq, Repr, Inhabited

/-- Is this one of the ten ASCII digits? -/
def isAsciiDigit (c : Char) : Bool :=
  '0' ≤ c && c ≤ '9'

/-- The number that a run of ASCII digits denotes. -/
def digitsValue (cs : List Char) : Nat :=
  cs.foldl (fun n c => 10 * n + (c.toNat - '0'.toNat)) 0

namespace Decimal

/-! ## Reading -/

/-- A leading sign: whether it is a minus, and what follows it. -/
def takeSign : List Char → Bool × List Char
  | '-' :: cs => (true, cs)
  | '+' :: cs => (false, cs)
  | cs => (false, cs)

/-- The exponent part of a numeral, which must be all of `cs`. -/
def exponentOf? : List Char → Option Int
  | [] => some 0
  | c :: cs =>
    if c = 'e' || c = 'E' then
      let (negative, ds) := takeSign cs
      if ds.isEmpty || !ds.all isAsciiDigit then none
      else some (if negative then -(digitsValue ds : Int) else digitsValue ds)
    else none

/-- Reads a whole numeral: a sign, digits with a point anywhere among or around
them (at least one digit), and an exponent. Sign and exponent may be absent. -/
def ofText? (cs : List Char) : Option Decimal := do
  let (negative, cs) := takeSign cs
  let whole := cs.takeWhile isAsciiDigit
  let cs := cs.dropWhile isAsciiDigit
  let (fraction, cs) := match cs with
    | '.' :: cs => (cs.takeWhile isAsciiDigit, cs.dropWhile isAsciiDigit)
    | cs => ([], cs)
  if whole.isEmpty && fraction.isEmpty then none
  else
    let exponent ← exponentOf? cs
    some ⟨negative, digitsValue (whole ++ fraction), exponent - fraction.length⟩

/-- The nearest double; `none` beyond the finite range. Numerals that are out of
range by their size alone are settled before any power is computed. -/
def toDouble? (d : Decimal) : Option Double :=
  let size := (Nat.toDigits 10 d.digits).length + d.exponent
  if d.digits = 0 then some (Double.zero d.negative)
  else if 310 < size then none
  else if size < -330 then some (Double.zero d.negative)
  else match d.exponent with
    | .ofNat e => Double.ofMagnitude d.negative (d.digits * tenTo e * twoTo 1074) 1
    | .negSucc e => Double.ofMagnitude d.negative (d.digits * twoTo 1074) (tenTo (e + 1))

/-! ## Layout -/

/-- How a format writes a numeral: the leading exponents that it spells out
with zeros (all of them when absent), and what stands before a positive
exponent otherwise. -/
structure Layout where
  positional : Option (Int × Int)
  plus : String

/-- Digits and point, no exponent, at least one digit on both sides of the point. -/
def positionalText (digits : List Char) (exponent : Int) : List Char :=
  match exponent with
  | .ofNat e => digits ++ List.replicate e '0' ++ ['.', '0']
  | .negSucc e =>
    let places := e + 1
    if places < digits.length then
      digits.take (digits.length - places) ++ ['.'] ++ digits.drop (digits.length - places)
    else ['0', '.'] ++ List.replicate (places - digits.length) '0' ++ digits

/-- One digit, the others after a point if there are any, and the exponent. -/
def scientificText (plus : String) (digits : List Char) (leading : Int) : List Char :=
  let point := match digits with
    | d :: (e :: rest) => d :: '.' :: e :: rest
    | ds => ds
  let mark := if leading < 0 then ['-'] else plus.toList
  point ++ ['e'] ++ mark ++ Nat.toDigits 10 leading.natAbs

/-- The numeral in the given layout. -/
def text (layout : Layout) (d : Decimal) : String :=
  let digits := Nat.toDigits 10 d.digits
  let leading := d.exponent + digits.length - 1
  let isPositional := match layout.positional with
    | none => true
    | some (low, high) => decide (low ≤ leading) && decide (leading ≤ high)
  let body :=
    if isPositional then positionalText digits d.exponent
    else scientificText layout.plus digits leading
  String.ofList (if d.negative then '-' :: body else body)

end Decimal

/-! ## The shortest numeral of a double -/

namespace Double

/-- All digits of the exact value. -/
def exactDecimal (x : Double) : Decimal :=
  if 1074 ≤ x.shift then ⟨x.negative, x.mantissa * twoTo (x.shift - 1074), 0⟩
  else ⟨x.negative, x.mantissa * Nat.pow 5 (1074 - x.shift), -((1074 - x.shift : Nat) : Int)⟩

/-- The two neighbours of a value on the grid of multiples of `10 ^ exponent`,
the nearer one first; of two equally near, the even one. -/
def neighbours (x : Double) (exponent : Int) : List Decimal :=
  let (num, den) := match exponent with
    | .ofNat e => (x.magnitude, twoTo 1074 * tenTo e)
    | .negSucc e => (x.magnitude * tenTo (e + 1), twoTo 1074)
  let low := num / den
  let near := nearestEven num den
  let far := if near = low then low + 1 else low
  [⟨x.negative, near, exponent⟩, ⟨x.negative, far, exponent⟩]

/-- Exponents to try for the last digit: from above the leading digit down to
more digits than any double needs. -/
def gridExponents (x : Double) : List Int :=
  let top := ((x.magnitude.log2 : Int) - 1074) * 30103 / 100000 + 1
  (List.range 22).map fun (i : Nat) => top - (i : Int)

/-- The shortest numeral that rounds to this double: the coarsest decimal grid
that has a point doing so, and on it the nearest such point. -/
def toDecimal (x : Double) : Decimal :=
  if x.mantissa = 0 then ⟨x.negative, 0, 0⟩
  else
    let candidates := x.gridExponents.flatMap x.neighbours
    (candidates.find? fun d => d.toDouble? = some x).getD x.exactDecimal

/-- The numeral with so many places after the point that is nearest to this
double; of two equally near, the even one. -/
def toPlaces (places : Nat) (x : Double) : Decimal :=
  ⟨x.negative, nearestEven (x.magnitude * tenTo places) (twoTo 1074), -(places : Int)⟩

/-- The double that a whole text denotes, if it is a numeral within range. -/
def ofText? (cs : List Char) : Option Double :=
  (Decimal.ofText? cs).bind Decimal.toDouble?

end Double

end Pipework
