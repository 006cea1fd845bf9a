import Pipework.Json.Basic
import Pipework.Proofs.Number.Rounding

/-!
# Rounding keeps the order

A fraction is rounded to a multiple of a power of two that grows with the fraction. On one grid the
nearest multiples keep the order, and no multiple of a finer grid that is used exceeds one of a
coarser grid (`roundedMagnitude_mono`). Everything else follows from this and from what rounds to
itself: a fraction below a double rounds to no more than this double, the sum of two doubles leaves
the finite range exactly from half a step beyond the greatest double on, and a mean never leaves it.

The order is kept, but not strictly. Different whole numbers may have one nearest double; no two of
them do up to 2⁵³.
-/

namespace Pipework

namespace Double

/-! ## Nearest whole numbers -/

theorem nearestEven_between (num den : Nat) :
    num / den ≤ nearestEven num den ∧ nearestEven num den ≤ num / den + 1 := by
  simp only [nearestEven]
  split
  · omega
  · split <;> omega

theorem nearestEven_mono {num num' : Nat} (den : Nat) (le : num ≤ num') :
    nearestEven num den ≤ nearestEven num' den := by
  rcases Nat.lt_or_eq_of_le (Nat.div_le_div_right (c := den) le) with before | same
  · have above := (nearestEven_between num den).2
    have below := (nearestEven_between num' den).1
    omega
  · -- the quotient is the same, so it is the remainders that are in order
    have whole := Nat.div_add_mod num den
    have whole' := Nat.div_add_mod num' den
    simp only [nearestEven]
    rw [same] at whole ⊢
    have rest : num % den ≤ num' % den := by omega
    split <;> split <;> (try split) <;> (try split) <;> omega

/-! ## Grids -/

/-- The exponent of the power of two to whose multiples a fraction is rounded. -/
def gridShift (num den : Nat) : Nat := (num / den).log2 - 52

/-- The magnitude that a fraction is rounded to if there is no greatest double. -/
def roundedMagnitude (num den : Nat) : Nat :=
  nearestEven num (den * twoTo (gridShift num den)) * twoTo (gridShift num den)

/-- A fraction has 53 binary digits on its grid, or fewer on the finest one. -/
theorem nearestEven_grid (num den : Nat) :
    nearestEven num (den * twoTo (gridShift num den)) ≤ twoTo 53 ∧
    (gridShift num den = 0 ∨
      twoTo 52 ≤ nearestEven num (den * twoTo (gridShift num den))) := by
  obtain ⟨below, above⟩ := nearestEven_between num (den * twoTo (gridShift num den))
  rw [← Nat.div_div_eq_div_mul] at below above
  have less : num / den / twoTo (gridShift num den) < twoTo 53 := by
    rw [Nat.div_lt_iff_lt_mul (twoTo_pos _), ← twoTo_add]
    refine Nat.lt_of_lt_of_le Nat.lt_log2_self (twoTo_le_twoTo ?_)
    unfold gridShift
    omega
  refine ⟨by omega, (Nat.eq_zero_or_pos (gridShift num den)).imp_right fun coarse => ?_⟩
  refine Nat.le_trans ?_ below
  have positive : num / den ≠ 0 := by
    intro zero
    rw [gridShift, zero] at coarse
    exact absurd coarse (by decide)
  rw [Nat.le_div_iff_mul_le (twoTo_pos _), ← twoTo_add]
  have digits : 52 + gridShift num den = (num / den).log2 := by unfold gridShift at *; omega
  rw [digits]
  exact Nat.log2_self_le positive

/-- A greater fraction has no finer grid. -/
theorem gridShift_mono {num den num' den' : Nat} (le : num / den ≤ num' / den') :
    gridShift num den ≤ gridShift num' den' := by
  refine Nat.sub_le_sub_right ?_ 52
  rcases Nat.eq_zero_or_pos (num / den) with zero | pos
  · rw [zero]
    exact Nat.zero_le _
  · rw [Nat.le_log2 (by omega)]
    exact Nat.le_trans (Nat.log2_self_le (Nat.ne_of_gt pos)) le

/-- **Rounding keeps the order** of fractions. -/
theorem roundedMagnitude_mono {num den num' den' : Nat} (pos : 0 < den) (pos' : 0 < den')
    (le : num * den' ≤ num' * den) : roundedMagnitude num den ≤ roundedMagnitude num' den' := by
  have quotients : num / den ≤ num' / den' := by
    rw [← Nat.mul_div_mul_right num den pos', ← Nat.mul_div_mul_right num' den' pos,
      Nat.mul_comm den' den]
    exact Nat.div_le_div_right le
  have shifts := gridShift_mono quotients
  unfold roundedMagnitude
  rcases Nat.lt_or_eq_of_le shifts with finer | same
  · have upper := (nearestEven_grid num den).1
    have lower := (nearestEven_grid num' den').2.resolve_left (Nat.ne_of_gt (Nat.zero_lt_of_lt finer))
    calc nearestEven num (den * twoTo (gridShift num den)) * twoTo (gridShift num den)
      _ ≤ twoTo 53 * twoTo (gridShift num den) := Nat.mul_le_mul_right _ upper
      _ = twoTo 52 * twoTo (gridShift num den + 1) := by
        rw [← twoTo_add, ← twoTo_add, Nat.add_comm _ 1, ← Nat.add_assoc]
      _ ≤ twoTo 52 * twoTo (gridShift num' den') := Nat.mul_le_mul_left _ (twoTo_le_twoTo finer)
      _ ≤ _ := Nat.mul_le_mul_right _ lower
  · rw [same]
    refine Nat.mul_le_mul_right _ ?_
    have common : den * twoTo (gridShift num' den') * den' =
        den' * twoTo (gridShift num' den') * den := by
      rw [Nat.mul_right_comm, Nat.mul_comm den den', Nat.mul_right_comm]
    rw [← nearestEven_expand num _ pos', ← nearestEven_expand num' _ pos, common]
    exact nearestEven_mono _ le

/-! ## Doubles -/

theorem magnitude_lt (x : Double) : x.magnitude < twoTo 2098 := by
  obtain ⟨negative, mantissa, shift, small, bounded, normal⟩ := x
  calc mantissa * twoTo shift
    _ < twoTo 53 * twoTo shift := Nat.mul_lt_mul_of_pos_right small (twoTo_pos _)
    _ ≤ twoTo 53 * twoTo 2045 := Nat.mul_le_mul_left _ (twoTo_le_twoTo bounded)
    _ = twoTo 2098 := (twoTo_add 53 2045).symm

/-- A double is determined by its sign and its magnitude. -/
theorem eq_of_magnitude {x y : Double} (sign : x.negative = y.negative)
    (size : x.magnitude = y.magnitude) : x = y := by
  have rounded := ofMagnitude_magnitude x
  rw [sign, size, ofMagnitude_magnitude] at rounded
  exact (Option.some.inj rounded).symm

theorem parts_of_ofParts? {negative : Bool} {mantissa shift : Nat} {x : Double}
    (made : ofParts? negative mantissa shift = some x) :
    x.negative = negative ∧ x.mantissa = mantissa ∧ x.shift = shift := by
  obtain ⟨_, ⟨⟩⟩ := Option.dite_none_right_eq_some.mp made
  exact ⟨rfl, rfl, rfl⟩

/-- The parts of the nearest double: a mantissa that is rounded up to 54 digits is carried. -/
theorem ofMagnitude_eq (negative : Bool) (num den : Nat) :
    ofMagnitude negative num den =
      if nearestEven num (den * twoTo (gridShift num den)) = twoTo 53
      then ofParts? negative (twoTo 52) (gridShift num den + 1)
      else ofParts? negative (nearestEven num (den * twoTo (gridShift num den)))
        (gridShift num den) := rfl

/-- The nearest double has the rounded magnitude. -/
theorem magnitude_of_ofMagnitude {negative : Bool} {num den : Nat} {x : Double}
    (rounded : ofMagnitude negative num den = some x) :
    x.negative = negative ∧ x.magnitude = roundedMagnitude num den := by
  rw [ofMagnitude_eq] at rounded
  unfold roundedMagnitude magnitude
  split at rounded
  next carried =>
    obtain ⟨sign, mantissa, shift⟩ := parts_of_ofParts? rounded
    refine ⟨sign, ?_⟩
    have carry (g : Nat) : twoTo 52 * twoTo (g + 1) = twoTo 53 * twoTo g := by
      rw [← twoTo_add, ← twoTo_add, show 52 + (g + 1) = 53 + g by omega]
    rw [mantissa, shift, carried, carry]
  next =>
    obtain ⟨sign, mantissa, shift⟩ := parts_of_ofParts? rounded
    exact ⟨sign, by rw [mantissa, shift]⟩

/-- Only beyond the greatest double there is no nearest one. -/
theorem exists_ofMagnitude {num den : Nat} (negative : Bool)
    (small : roundedMagnitude num den < twoTo 2098) :
    ∃ x, ofMagnitude negative num den = some x := by
  have bounded {m s : Nat} (large : twoTo 52 ≤ m) (less : m * twoTo s < twoTo 2098) : s ≤ 2045 := by
    refine Nat.le_of_lt_succ (Nat.lt_of_not_le fun beyond => Nat.not_lt.mpr ?_ less)
    have := Nat.mul_le_mul large (twoTo_le_twoTo beyond)
    rwa [← twoTo_add] at this
  obtain ⟨upper, lower⟩ := nearestEven_grid num den
  rw [ofMagnitude_eq]
  unfold roundedMagnitude at small
  split
  next carried =>
    rw [carried, show (53 : Nat) = 52 + 1 from rfl, twoTo_add, Nat.mul_assoc, ← twoTo_add,
      Nat.add_comm 1] at small
    exact ⟨_, dif_pos ⟨by decide, bounded (Nat.le_refl _) small, .inr (Nat.le_refl _)⟩⟩
  next plain =>
    refine ⟨_, dif_pos ⟨Nat.lt_of_le_of_ne upper plain, ?_, lower⟩⟩
    rcases lower with finest | large
    · rw [finest]
      exact Nat.zero_le _
    · exact bounded large small

theorem ofMagnitude_eq_none_iff {negative : Bool} {num den : Nat} :
    ofMagnitude negative num den = none ↔ twoTo 2098 ≤ roundedMagnitude num den := by
  constructor
  · intro none
    refine Nat.le_of_not_lt fun small => ?_
    obtain ⟨x, rounded⟩ := exists_ofMagnitude negative small
    rw [none] at rounded
    cases rounded
  · intro large
    refine Option.eq_none_iff_forall_ne_some.mpr fun x rounded => ?_
    exact Nat.not_lt.mpr large ((magnitude_of_ofMagnitude rounded).2 ▸ x.magnitude_lt)

/-- A fraction up to a double is rounded to no more than the double. -/
theorem roundedMagnitude_le {num den : Nat} (pos : 0 < den) {x : Double}
    (le : num ≤ x.magnitude * den) : roundedMagnitude num den ≤ x.magnitude := by
  rw [(magnitude_of_ofMagnitude (ofMagnitude_magnitude x)).2]
  exact roundedMagnitude_mono pos Nat.one_pos (by rwa [Nat.mul_one])

/-- A fraction from a double on is rounded to no less than the double. -/
theorem le_roundedMagnitude {num den : Nat} (pos : 0 < den) {x : Double}
    (le : x.magnitude * den ≤ num) : x.magnitude ≤ roundedMagnitude num den := by
  rw [(magnitude_of_ofMagnitude (ofMagnitude_magnitude x)).2]
  exact roundedMagnitude_mono Nat.one_pos pos (by rwa [Nat.mul_one])

/-! ## Sums and means -/

/-- Half a step beyond the greatest double. -/
def limit : Nat := (twoTo 54 - 1) * twoTo 2044

theorem add?_eq (x y : Double) :
    x.add? y =
      if x.units + y.units = 0 then some (zero (x.negative && y.negative))
      else ofMagnitude (x.units + y.units < 0) (x.units + y.units).natAbs 1 := rfl

/-- A sum leaves the finite range from half a step beyond the greatest double on. -/
theorem add?_eq_none_iff {x y : Double} :
    x.add? y = none ↔ limit ≤ (x.units + y.units).natAbs := by
  have beyond : twoTo 2098 ≤ roundedMagnitude limit 1 := by decide +kernel
  have within : roundedMagnitude (limit - 1) 1 < twoTo 2098 := by decide +kernel
  have positive : 0 < limit := by decide +kernel
  rw [add?_eq]
  split
  next zero =>
    rw [zero]
    exact iff_of_false nofun (Nat.not_le.mpr positive)
  next =>
    rw [ofMagnitude_eq_none_iff]
    constructor
    · intro large
      refine Nat.le_of_not_lt fun less => Nat.not_lt.mpr large (Nat.lt_of_le_of_lt ?_ within)
      exact roundedMagnitude_mono Nat.one_pos Nat.one_pos (Nat.mul_le_mul_right 1 (by omega))
    · intro large
      refine Nat.le_trans beyond ?_
      exact roundedMagnitude_mono Nat.one_pos Nat.one_pos (Nat.mul_le_mul_right 1 large)

/-- A mean does not leave the finite range. -/
theorem exists_divNat? (x : Double) {n : Nat} (pos : 0 < n) : ∃ y, x.divNat? n = some y := by
  refine exists_ofMagnitude x.negative (Nat.lt_of_le_of_lt ?_ x.magnitude_lt)
  exact roundedMagnitude_le pos (Nat.le_mul_of_pos_right _ pos)

theorem natAbs_units (x : Double) : x.units.natAbs = x.magnitude := by
  unfold units
  split
  · rw [Int.natAbs_neg, Int.natAbs_natCast]
  · exact Int.natAbs_natCast _

/-- A sum up to a double is rounded to no more than the double. -/
theorem exists_add? {x y bound : Double} (le : (x.units + y.units).natAbs ≤ bound.magnitude) :
    ∃ z, x.add? y = some z ∧ z.magnitude ≤ bound.magnitude := by
  rw [add?_eq]
  split
  · exact ⟨_, rfl, Nat.le_trans (Nat.le_of_eq (Nat.zero_mul _)) (Nat.zero_le _)⟩
  · have small : roundedMagnitude (x.units + y.units).natAbs 1 ≤ bound.magnitude :=
      roundedMagnitude_le Nat.one_pos (by rwa [Nat.mul_one])
    obtain ⟨z, rounded⟩ := exists_ofMagnitude (decide (x.units + y.units < 0))
      (Nat.lt_of_le_of_lt small bound.magnitude_lt)
    exact ⟨z, rounded, (magnitude_of_ofMagnitude rounded).2 ▸ small⟩

/-! ## Whole numbers -/

theorem natAbs_le_of_inWordRange {i : Int} (inRange : InWordRange i) : i.natAbs ≤ twoTo 64 := by
  have : twoTo 64 = 18446744073709551616 := rfl
  omega

/-- A whole number of the word ranges has a nearest double. -/
theorem exists_ofInt? {i : Int} (inRange : InWordRange i) : ∃ x, ofInt? i = some x := by
  have small := natAbs_le_of_inWordRange inRange
  refine exists_ofMagnitude (decide (i < 0)) (Nat.lt_of_le_of_lt (roundedMagnitude_mono Nat.one_pos
    Nat.one_pos (Nat.mul_le_mul_right 1 (Nat.mul_le_mul_right (twoTo 1074) small))) ?_)
  decide +kernel

/-- The units of the nearest double of a whole number. -/
theorem units_of_ofInt? {i : Int} {x : Double} (rounded : ofInt? i = some x) :
    x.units = if i < 0 then -(roundedMagnitude (i.natAbs * twoTo 1074) 1 : Int)
      else roundedMagnitude (i.natAbs * twoTo 1074) 1 := by
  obtain ⟨sign, size⟩ := magnitude_of_ofMagnitude rounded
  simp only [units, sign, size, decide_eq_true_eq]

/-- The nearest doubles of whole numbers are in their order. -/
theorem units_le_of_le {i j : Int} {x y : Double} (le : i ≤ j) (left : ofInt? i = some x)
    (right : ofInt? j = some y) : x.units ≤ y.units := by
  have mono {m n : Nat} (le : m ≤ n) :
      roundedMagnitude (m * twoTo 1074) 1 ≤ roundedMagnitude (n * twoTo 1074) 1 :=
    roundedMagnitude_mono Nat.one_pos Nat.one_pos
      (Nat.mul_le_mul_right 1 (Nat.mul_le_mul_right (twoTo 1074) le))
  rw [units_of_ofInt? left, units_of_ofInt? right]
  split
  next negative =>
    split
    next negative' =>
      have := mono (show j.natAbs ≤ i.natAbs by omega)
      omega
    next => omega
  next positive =>
    rw [if_neg (by omega)]
    have := mono (show i.natAbs ≤ j.natAbs by omega)
    omega

/-- The nearest double of a whole number is negative if the number is. -/
theorem units_neg_iff {i : Int} {x : Double} (rounded : ofInt? i = some x) :
    x.units < 0 ↔ i < 0 := by
  obtain ⟨one, -, unit⟩ :=
    exists_magnitude_eq (n := 1) (e := 1074) (by decide) (by decide) (by decide) false
  have pos := twoTo_pos 1074
  rw [units_of_ofInt? rounded]
  split
  next negative =>
    have : one.magnitude ≤ roundedMagnitude (i.natAbs * twoTo 1074) 1 := by
      refine le_roundedMagnitude Nat.one_pos ?_
      rw [unit, Nat.mul_one]
      exact Nat.mul_le_mul_right _ (by omega)
    omega
  next => omega

/-- Whole numbers have one nearest double if neither of their doubles is less. -/
theorem ofInt?_eq_of_units {i j : Int} {x y : Double} (left : ofInt? i = some x)
    (right : ofInt? j = some y) (same : x.units = y.units) : ofInt? i = ofInt? j := by
  have sign : x.negative = y.negative := by
    rw [(magnitude_of_ofMagnitude left).1, (magnitude_of_ofMagnitude right).1,
      decide_eq_decide, ← units_neg_iff left, ← units_neg_iff right, same]
  have size : x.magnitude = y.magnitude := by rw [← natAbs_units, ← natAbs_units, same]
  rw [left, right, eq_of_magnitude sign size]

/-- Whole numbers up to 2⁵³ have nearest doubles of their own. -/
theorem eq_of_ofInt? {i j : Int} (left : i.natAbs ≤ twoTo 53) (right : j.natAbs ≤ twoTo 53)
    (same : ofInt? i = ofInt? j) : i = j := by
  obtain ⟨x, rounded, units⟩ := exists_units_eq left
  obtain ⟨y, rounded', units'⟩ := exists_units_eq right
  obtain rfl : x = y := Option.some.inj (rounded.symm.trans (same.trans rounded'))
  have pos : (twoTo 1074 : Int) ≠ 0 := Int.natCast_ne_zero.mpr (Nat.ne_of_gt (twoTo_pos 1074))
  exact Int.eq_of_mul_eq_mul_right pos (units.symm.trans units')

end Double

end Pipework
