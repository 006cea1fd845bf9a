/-!
# Doubles

A finite IEEE 754 double, without the bits. Every finite double is a whole
multiple of 2⁻¹⁰⁷⁴, the least positive one, so a double is kept as a sign and
a magnitude `mantissa · 2 ^ shift` counted in those multiples. `Canonical`
fixes the one way each magnitude is written; equal doubles are then equal
values, and the two zeros stay apart.

Comparison, sums, products and quotients are exact arithmetic on that count
followed by at most one rounding (`ofMagnitude`: to the nearest double, a tie to
the even mantissa). An operation that leaves the finite range answers `none`;
nothing in a pipeline ever computes further with an infinity.
-/

namespace Pipework

/-- Two to the power of `n`. -/
def twoTo (n : Nat) : Nat := Nat.pow 2 n

/-- Ten to the power of `n`. -/
def tenTo (n : Nat) : Nat := Nat.pow 10 n

/-- The one way a magnitude is written: 53 bits of mantissa, all of them used
unless the number is below the normal range (`shift = 0`). -/
def Double.Canonical (mantissa shift : Nat) : Prop :=
  mantissa < twoTo 53 ∧ shift ≤ 2045 ∧ (shift = 0 ∨ twoTo 52 ≤ mantissa)

instance (mantissa shift : Nat) : Decidable (Double.Canonical mantissa shift) :=
  inferInstanceAs (Decidable (_ ∧ _ ∧ (_ ∨ _)))

/-- A finite double: `± mantissa · 2 ^ shift` multiples of 2⁻¹⁰⁷⁴. -/
structure Double where
  negative : Bool
  mantissa : Nat
  shift : Nat
  canonical : Double.Canonical mantissa shift
  deriving DecidableEq

namespace Double

/-- The zero of the given sign. -/
def zero (negative : Bool) : Double :=
  ⟨negative, 0, 0, by decide⟩

instance : Inhabited Double := ⟨zero false⟩

/-- How many multiples of 2⁻¹⁰⁷⁴ the absolute value is. -/
def magnitude (x : Double) : Nat :=
  x.mantissa * twoTo x.shift

/-- The exact value, counted in multiples of 2⁻¹⁰⁷⁴. -/
def units (x : Double) : Int :=
  if x.negative then -(x.magnitude : Int) else x.magnitude

/-- A double from its parts, if they are a canonical pair. -/
def ofParts? (negative : Bool) (mantissa shift : Nat) : Option Double :=
  if h : Canonical mantissa shift then some ⟨negative, mantissa, shift, h⟩ else none

/-- The whole number nearest to `num / den`; of two equally near, the even one. -/
def nearestEven (num den : Nat) : Nat :=
  let q := num / den
  let twice := 2 * (num % den)
  if twice < den then q else if den < twice then q + 1 else q + q % 2

/-- The double nearest to `± num / den` multiples of 2⁻¹⁰⁷⁴, ties to the even
mantissa; `none` when the nearest would be beyond the largest double. -/
def ofMagnitude (negative : Bool) (num den : Nat) : Option Double :=
  let shift := (num / den).log2 - 52
  let mantissa := nearestEven num (den * twoTo shift)
  if mantissa = twoTo 53 then ofParts? negative (twoTo 52) (shift + 1)
  else ofParts? negative mantissa shift

/-- The double nearest to a whole number. -/
def ofInt? (i : Int) : Option Double :=
  ofMagnitude (i < 0) (i.natAbs * twoTo 1074) 1

/-! ## Order and arithmetic -/

/-- The numeric order; the two zeros are equal in it. -/
def cmp (x y : Double) : Ordering :=
  compare x.units y.units

/-- The sum, rounded. An exact zero is negative only as a sum of negative zeros. -/
def add? (x y : Double) : Option Double :=
  let total := x.units + y.units
  if total = 0 then some (zero (x.negative && y.negative))
  else ofMagnitude (total < 0) total.natAbs 1

/-- The product, rounded. -/
def mul? (x y : Double) : Option Double :=
  ofMagnitude (x.negative != y.negative) (x.magnitude * y.magnitude) (twoTo 1074)

/-- The quotient by a double that is not zero, rounded. -/
def div? (x y : Double) : Option Double :=
  ofMagnitude (x.negative != y.negative) (x.magnitude * twoTo 1074) y.magnitude

/-- The quotient by a positive whole number, rounded. -/
def divNat? (x : Double) (n : Nat) : Option Double :=
  ofMagnitude x.negative x.magnitude n

/-- The sum of a list from left to right; `none` once it leaves the finite range. -/
def sum? (xs : List Double) : Option Double :=
  xs.foldlM add? (zero true)

end Double

end Pipework
