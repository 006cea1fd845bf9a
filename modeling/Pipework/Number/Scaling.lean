import Pipework.Number.Double

/-!
# Doubles step by step

The numbers of a JSON document are not rounded at once. Of their digits those
are kept that fit a word; the double nearest to them is multiplied by a power of
ten, or divided by one, and that power is itself only the nearest double to it.
Each step rounds, so that a numeral can be read as a neighbour of the double
nearest to it: `0.09090909090909091` is read as `0.09090909090909093`.
-/

namespace Pipework

/-- Appends digits to a number while it stays below a bound: the number, and the
digits that are left. -/
def fill (bound n : Nat) : List Char → Nat × List Char
  | [] => (n, [])
  | c :: cs =>
    let more := 10 * n + (c.toNat - '0'.toNat)
    if more < bound then fill bound more cs else (n, c :: cs)

namespace Double

/-- The double nearest to a power of ten, up to the greatest there is one for. -/
def tenTo? (e : Nat) : Option Double :=
  if e ≤ 308 then ofInt? (tenTo e) else none

/-- The number divided by a power of ten, as many places at a time as there is a
power for. -/
def shrink? (x : Double) (places : Nat) : Option Double :=
  if places ≤ 308 then do x.div? (← tenTo? places)
  else if x.mantissa = 0 then some x
  else do
    let y ← x.div? (← tenTo? 308)
    y.shrink? (places - 308)
termination_by places

/-- The number times a power of ten. -/
def scale? (x : Double) : Int → Option Double
  | .ofNat e => if x.mantissa = 0 then some x else do x.mul? (← tenTo? e)
  | .negSucc e => x.shrink? (e + 1)

/-- The double of digits and the power of ten of the last digit. -/
def ofDigits? (negative : Bool) (digits : Nat) (exponent : Int) : Option Double := do
  (← ofMagnitude negative (digits * twoTo 1074) 1).scale? exponent

end Double

end Pipework
