import Pipework.Number.Scaling
import Pipework.Proofs.Number.Numeral
import Pipework.Proofs.Number.Order

/-!
# Step by step within the finite range

A numeral that is read step by step may miss the nearest double, and by its steps it could leave the
finite range where the numeral does not. How far the steps can lead is bounded: a rounding adds at most
one part in 2⁵³ to a fraction, so two of them stay within the range unless the numeral rounds to one of
the two greatest doubles (`exists_ofDigits?`). Division never leads out of it.
-/

namespace Pipework

/-! ## Digits that fit -/

/-- More digits do not make a number less. -/
theorem le_ofDigitChars (cs : List Char) (n : Nat) : n ≤ Nat.ofDigitChars 10 cs n := by
  rw [Nat.ofDigitChars_eq_ofDigitChars_zero]
  exact Nat.le_add_right_of_le (Nat.le_mul_of_pos_left _ (Nat.pow_pos (by decide)))

/-- All digits are kept if together they stay below the bound. -/
theorem fill_of_lt {bound n : Nat} {cs : List Char} (small : Nat.ofDigitChars 10 cs n < bound) :
    fill bound n cs = (Nat.ofDigitChars 10 cs n, []) := by
  induction cs generalizing n with
  | nil => rfl
  | cons c cs ih =>
    rw [Nat.ofDigitChars_cons] at small ⊢
    rw [fill, if_pos (Nat.lt_of_le_of_lt (le_ofDigitChars cs _) small)]
    exact ih small

/-- What is kept stays below the bound. -/
theorem fill_lt {bound n : Nat} (small : n < bound) (cs : List Char) :
    (fill bound n cs).1 < bound := by
  induction cs generalizing n with
  | nil => exact small
  | cons c cs ih =>
    rw [fill]
    split
    next less => exact ih less
    next => exact small

/-- With zeros for the digits that are left, what is kept is no more than all digits. -/
theorem fill_le (bound n : Nat) (cs : List Char) :
    (fill bound n cs).1 * 10 ^ (fill bound n cs).2.length ≤ Nat.ofDigitChars 10 cs n := by
  induction cs generalizing n with
  | nil => exact Nat.le_of_eq (Nat.mul_one n)
  | cons c cs ih =>
    rw [fill]
    split
    next => exact ih _
    next =>
      rw [Nat.ofDigitChars_eq_ofDigitChars_zero, Nat.mul_comm n]
      exact Nat.le_add_right _ _

/-- Digits that are left are some of those there were. -/
theorem length_fill_le (bound n : Nat) (cs : List Char) :
    (fill bound n cs).2.length ≤ cs.length := by
  induction cs generalizing n with
  | nil => exact Nat.le_refl _
  | cons c cs ih =>
    rw [fill]
    split
    next => exact Nat.le_succ_of_le (ih _)
    next => exact Nat.le_refl _

/-- A numeral is rounded to a double of its sign. -/
theorem Decimal.negative_of_toDouble? {d : Decimal} {x : Double} (rounds : d.toDouble? = some x) :
    x.negative = d.negative := by
  obtain ⟨negative, digits, exponent⟩ := d
  simp only [Decimal.toDouble?] at rounds
  split at rounds
  next =>
    cases rounds
    rfl
  split at rounds
  next => cases rounds
  split at rounds
  next =>
    cases rounds
    rfl
  cases exponent <;> exact (Double.magnitude_of_ofMagnitude rounds).1

namespace Double

/-! ## One step -/

/-- A rounded quotient exceeds the quotient by half at most. -/
theorem nearestEven_mul_le (num : Nat) {den : Nat} (pos : 0 < den) :
    2 * (nearestEven num den * den) ≤ 2 * num + den := by
  have parts := Nat.div_add_mod num den
  have rest := Nat.mod_lt num pos
  have upper : nearestEven num den * den ≤ den * (num / den) + den := by
    have := Nat.mul_le_mul_right den (nearestEven_between num den).2
    rwa [Nat.add_mul, Nat.one_mul, Nat.mul_comm (num / den)] at this
  by_cases down : 2 * (num % den) < den
  · have : nearestEven num den = num / den := by simp only [nearestEven, down, ↓reduceIte]
    rw [this, Nat.mul_comm (num / den)]
    omega
  · omega

/-- A rounding adds at most one part in 2⁵³, if the fraction is not below the normal range. -/
theorem roundedMagnitude_mul_le {num den : Nat} (pos : 0 < den) (normal : den * twoTo 52 ≤ num) :
    roundedMagnitude num den * den * twoTo 53 ≤ num * (twoTo 53 + 1) := by
  have grid : den * twoTo (gridShift num den) * twoTo 52 ≤ num := by
    rcases Nat.eq_zero_or_pos (gridShift num den) with finest | coarse
    · rwa [finest, show twoTo 0 = 1 from rfl, Nat.mul_one]
    · have quotient : num / den ≠ 0 := by
        intro zero
        rw [gridShift, zero] at coarse
        exact absurd coarse (by decide)
      have digits : gridShift num den + 52 = (num / den).log2 := by unfold gridShift at *; omega
      rw [Nat.mul_assoc, ← twoTo_add, digits]
      exact Nat.le_trans (Nat.mul_le_mul_left den (Nat.log2_self_le quotient))
        (Nat.mul_div_le num den)
  have half := nearestEven_mul_le num (Nat.mul_pos pos (twoTo_pos (gridShift num den)))
  have double : twoTo 53 = 2 * twoTo 52 := rfl
  rw [roundedMagnitude]
  generalize nearestEven num (den * twoTo (gridShift num den)) = kept at *
  generalize twoTo (gridShift num den) = step at *
  calc kept * step * den * twoTo 53
    _ = 2 * (kept * (den * step)) * twoTo 52 := by rw [double]; ac_rfl
    _ ≤ (2 * num + den * step) * twoTo 52 := Nat.mul_le_mul_right _ half
    _ = num * twoTo 53 + den * step * twoTo 52 := by rw [Nat.add_mul, double]; ac_rfl
    _ ≤ num * twoTo 53 + num := Nat.add_le_add_left grid _
    _ = num * (twoTo 53 + 1) := (Nat.mul_succ _ _).symm

/-- The nearest double of a whole number that is not zero exceeds it by at most one part in 2⁵³. -/
theorem magnitude_mul_le {negative : Bool} {n : Nat} {x : Double} (some : 0 < n)
    (rounded : ofMagnitude negative (n * twoTo 1074) 1 = .some x) :
    x.magnitude * twoTo 53 ≤ n * twoTo 1074 * (twoTo 53 + 1) := by
  have normal : 1 * twoTo 52 ≤ n * twoTo 1074 := by
    rw [Nat.one_mul]
    exact Nat.le_trans (twoTo_le_twoTo (by decide)) (Nat.le_mul_of_pos_left _ some)
  have step := roundedMagnitude_mul_le Nat.one_pos normal
  rwa [Nat.mul_one, ← (magnitude_of_ofMagnitude rounded).2] at step

/-- A fraction stays within the finite range if one that is no less does. -/
theorem exists_ofMagnitude_of_le (negative : Bool) {num den num' den' : Nat} (pos : 0 < den)
    (pos' : 0 < den') (le : num * den' ≤ num' * den)
    (within : roundedMagnitude num' den' < twoTo 2098) :
    ∃ x, ofMagnitude negative num den = some x ∧ x.negative = negative := by
  obtain ⟨x, rounded⟩ :=
    exists_ofMagnitude negative (Nat.lt_of_le_of_lt (roundedMagnitude_mono pos pos' le) within)
  exact ⟨x, rounded, (magnitude_of_ofMagnitude rounded).1⟩

/-! ## Powers of ten -/

/-- There is a double for each power of ten up to the 308th. It is no less than one, and exceeds the
power by at most one part in 2⁵³. -/
theorem exists_tenTo? {e : Nat} (small : e ≤ 308) : ∃ p, tenTo? e = some p ∧ p.negative = false ∧
    twoTo 1074 ≤ p.magnitude ∧ p.magnitude * twoTo 53 ≤ tenTo e * twoTo 1074 * (twoTo 53 + 1) := by
  have whole : tenTo? e = ofMagnitude false (tenTo e * twoTo 1074) 1 := by
    have positive : decide ((tenTo e : Int) < 0) = false := decide_eq_false (by omega)
    rw [tenTo?, if_pos small, ofInt?, positive, Int.natAbs_natCast]
  have greatest : roundedMagnitude (tenTo 308 * twoTo 1074) 1 < twoTo 2098 := by decide +kernel
  have less : tenTo e * twoTo 1074 * 1 ≤ tenTo 308 * twoTo 1074 * 1 :=
    Nat.mul_le_mul_right 1 (Nat.mul_le_mul_right _ (tenTo_le_tenTo small))
  obtain ⟨p, rounded, sign⟩ :=
    exists_ofMagnitude_of_le false Nat.one_pos Nat.one_pos less greatest
  refine ⟨p, whole.trans rounded, sign, ?_, magnitude_mul_le (tenTo_pos e) rounded⟩
  obtain ⟨one, -, unit⟩ :=
    exists_magnitude_eq (n := 1) (e := 1074) (by decide) (by decide) (by decide) false
  rw [Nat.one_mul] at unit
  rw [← unit, (magnitude_of_ofMagnitude rounded).2]
  refine le_roundedMagnitude Nat.one_pos ?_
  rw [unit, Nat.mul_one]
  exact Nat.le_mul_of_pos_left _ (tenTo_pos e)

/-- A quotient by one or more does not leave the finite range. -/
theorem exists_div? (x : Double) {p : Double} (sign : p.negative = false)
    (large : twoTo 1074 ≤ p.magnitude) : ∃ y, x.div? p = some y ∧ y.negative = x.negative := by
  have less : x.magnitude * twoTo 1074 ≤ x.magnitude * p.magnitude := Nat.mul_le_mul_left _ large
  have pos : 0 < p.magnitude := Nat.lt_of_lt_of_le (twoTo_pos 1074) large
  obtain ⟨y, rounded⟩ := exists_ofMagnitude (x.negative != p.negative)
    (Nat.lt_of_le_of_lt (roundedMagnitude_le pos less) x.magnitude_lt)
  refine ⟨y, rounded, ?_⟩
  rw [(magnitude_of_ofMagnitude rounded).1, sign, Bool.bne_false]

/-- As many places as there is a power for are taken away at once. -/
theorem shrink?_of_le (x : Double) {places : Nat} (few : places ≤ 308) :
    x.shrink? places = (tenTo? places).bind x.div? := by
  rw [shrink?, if_pos few]
  rfl

/-- More of them are taken away in parts, until nothing is left. -/
theorem shrink?_of_lt (x : Double) {places : Nat} (many : ¬ places ≤ 308) : x.shrink? places =
    if x.mantissa = 0 then some x
    else (tenTo? 308).bind fun p => (x.div? p).bind fun y => y.shrink? (places - 308) := by
  rw [shrink?, if_neg many]
  rfl

/-- A quotient by a power of ten does not leave the finite range, however many places it takes away. -/
theorem exists_shrink? (x : Double) (places : Nat) :
    ∃ y, x.shrink? places = some y ∧ y.negative = x.negative := by
  induction places using Nat.strongRecOn generalizing x with
  | ind places ih =>
    by_cases few : places ≤ 308
    · obtain ⟨p, power, sign, large, -⟩ := exists_tenTo? few
      rw [shrink?_of_le x few, power, Option.bind_some]
      exact exists_div? x sign large
    · rw [shrink?_of_lt x few]
      split
      next => exact ⟨x, rfl, rfl⟩
      next =>
        obtain ⟨p, power, sign, large, -⟩ := exists_tenTo? (Nat.le_refl 308)
        obtain ⟨y, quotient, same⟩ := exists_div? x sign large
        obtain ⟨z, shrunk, same'⟩ := ih (places - 308) (by omega) y
        refine ⟨z, ?_, same'.trans same⟩
        rw [power, Option.bind_some, quotient, Option.bind_some, shrunk]

/-! ## All steps -/

/-- Half a step below the second greatest double. -/
def nearLimit : Nat := (twoTo 54 - 5) * twoTo 2044

/-- A fraction from there on rounds to one of the two greatest doubles. -/
theorem le_magnitude_of_nearLimit {negative : Bool} {num den : Nat} {x : Double} (pos : 0 < den)
    (large : nearLimit * den ≤ num) (rounded : ofMagnitude negative num den = some x) :
    (twoTo 53 - 2) * twoTo 2045 ≤ x.magnitude := by
  have second : roundedMagnitude nearLimit 1 = (twoTo 53 - 2) * twoTo 2045 := by decide +kernel
  rw [(magnitude_of_ofMagnitude rounded).2, ← second]
  exact roundedMagnitude_mono Nat.one_pos pos (by rwa [Nat.mul_one])

/-- So a numeral that rounds to another double is below, without its power of ten. -/
theorem lt_nearLimit {negative : Bool} {digits : Nat} {exponent : Int} {x : Double}
    (rounds : (Decimal.mk negative digits exponent).toDouble? = some x)
    (other : x.magnitude < (twoTo 53 - 2) * twoTo 2045) :
    digits * tenTo exponent.toNat * twoTo 1074 < nearLimit * tenTo (-exponent).toNat := by
  have unit : twoTo 1074 < nearLimit := by decide +kernel
  have limit : 0 < nearLimit := Nat.lt_trans (twoTo_pos _) unit
  rcases Nat.eq_zero_or_pos digits with rfl | pos
  · rw [Nat.zero_mul, Nat.zero_mul]
    exact Nat.mul_pos limit (tenTo_pos _)
  by_cases bounded : (Nat.toDigits 10 digits).length + exponent ≤ 310
  case neg =>
    simp only [Decimal.toDouble?, Nat.ne_of_gt pos, Int.not_le.mp bounded, ↓reduceIte] at rounds
    cases rounds
  by_cases visible : -330 ≤ (Nat.toDigits 10 digits).length + exponent
  · rw [Decimal.toDouble?_of_sized (Nat.ne_of_gt pos) bounded visible] at rounds
    refine Nat.lt_of_not_le fun large => Nat.not_lt.mpr ?_ other
    exact le_magnitude_of_nearLimit (tenTo_pos _) large rounds
  · -- The power of ten takes away more places than there are digits.
    have small : digits < 10 ^ (Nat.toDigits 10 digits).length :=
      (Nat.length_toDigits_le_iff (by decide) Nat.length_toDigits_pos).mp (Nat.le_refl _)
    have places : (Nat.toDigits 10 digits).length ≤ (-exponent).toNat := by omega
    have none : exponent.toNat = 0 := by omega
    have few : digits ≤ tenTo (-exponent).toNat :=
      Nat.le_trans (Nat.le_of_lt small) (tenTo_le_tenTo places)
    simp only [none]
    rw [show tenTo 0 = 1 from rfl, Nat.mul_one, Nat.mul_comm nearLimit]
    exact Nat.mul_lt_mul_of_le_of_lt few unit (tenTo_pos _)

/-- The same of those of its digits that fit a word. -/
theorem lt_nearLimit_of_cut {digits n k : Nat} {exponent : Int} (word : digits < twoTo 64)
    (cut : digits * 10 ^ k ≤ n) (less : n * tenTo exponent.toNat * twoTo 1074 <
      nearLimit * tenTo (-exponent).toNat) :
    digits * tenTo (exponent + k).toNat * twoTo 1074 < nearLimit := by
  by_cases down : exponent + k ≤ 0
  · have room : twoTo 64 * twoTo 1074 ≤ nearLimit := by decide +kernel
    rw [Int.toNat_eq_zero.mpr down, show tenTo 0 = 1 from rfl, Nat.mul_one]
    exact Nat.lt_of_lt_of_le (Nat.mul_lt_mul_of_pos_right word (twoTo_pos _)) room
  have places : (exponent + k).toNat + (-exponent).toNat = k + exponent.toNat := by omega
  have powers : tenTo (exponent + k).toNat * tenTo (-exponent).toNat =
      10 ^ k * tenTo exponent.toNat := by
    simp only [tenTo_eq]
    rw [← Nat.pow_add, ← Nat.pow_add, places]
  refine Nat.lt_of_mul_lt_mul_right (a := tenTo (-exponent).toNat) (Nat.lt_of_le_of_lt ?_ less)
  generalize twoTo 1074 = unit
  calc digits * tenTo (exponent + k).toNat * unit * tenTo (-exponent).toNat
    _ = digits * (tenTo (exponent + k).toNat * tenTo (-exponent).toNat) * unit := by ac_rfl
    _ = digits * 10 ^ k * tenTo exponent.toNat * unit := by rw [powers, ← Nat.mul_assoc digits]
    _ ≤ n * tenTo exponent.toNat * unit :=
      Nat.mul_le_mul_right _ (Nat.mul_le_mul_right _ cut)

/-- A product that is less than half a step beyond the greatest double is within the range. -/
theorem exists_mul? {x p : Double} (sign : p.negative = false)
    (less : x.magnitude * p.magnitude < limit * twoTo 1074) :
    ∃ y, x.mul? p = some y ∧ y.negative = x.negative := by
  have within : roundedMagnitude (limit * twoTo 1074 - 1) (twoTo 1074) < twoTo 2098 := by
    decide +kernel
  have pos := twoTo_pos 1074
  have le := Nat.mul_le_mul_right (twoTo 1074) (Nat.le_sub_one_of_lt less)
  obtain ⟨y, rounded, same⟩ :=
    exists_ofMagnitude_of_le (x.negative != p.negative) pos pos le within
  exact ⟨y, rounded, by rw [same, sign, Bool.bne_false]⟩

/-- Two roundings do not lead beyond the greatest double what is not close to it. -/
theorem exists_mul_tenTo? {negative : Bool} {n e : Nat} {x : Double} (some : 0 < n)
    (rounded : ofMagnitude negative (n * twoTo 1074) 1 = .some x)
    (less : n * tenTo e * twoTo 1074 < nearLimit) :
    ∃ y, (tenTo? e >>= x.mul?) = .some y ∧ y.negative = x.negative := by
  have small : e ≤ 308 := by
    refine Nat.le_of_lt_succ (Nat.lt_of_not_le fun beyond => Nat.not_lt.mpr ?_ less)
    have limit : nearLimit ≤ tenTo 309 * twoTo 1074 := by decide +kernel
    refine Nat.le_trans limit (Nat.mul_le_mul_right _ ?_)
    exact Nat.le_trans (tenTo_le_tenTo beyond) (Nat.le_mul_of_pos_left _ some)
  obtain ⟨p, power, sign, -, upper⟩ := exists_tenTo? small
  have upper' := magnitude_mul_le some rounded
  have room : nearLimit * ((twoTo 53 + 1) * (twoTo 53 + 1)) ≤ limit * (twoTo 53 * twoTo 53) := by
    decide +kernel
  have positive : 0 < (twoTo 53 + 1) * (twoTo 53 + 1) := by decide +kernel
  have pos := twoTo_pos 1074
  simp only [power, Option.bind_eq_bind, Option.bind_some]
  refine exists_mul? sign (Nat.lt_of_mul_lt_mul_right (a := twoTo 53 * twoTo 53) ?_)
  generalize twoTo 53 + 1 = above at *
  generalize twoTo 53 = below, twoTo 1074 = unit, nearLimit = near, limit = far at *
  calc x.magnitude * p.magnitude * (below * below)
    _ = x.magnitude * below * (p.magnitude * below) := Nat.mul_mul_mul_comm _ _ _ _
    _ ≤ n * unit * above * (tenTo e * unit * above) := Nat.mul_le_mul upper' upper
    _ = n * tenTo e * unit * (above * above) * unit := by ac_rfl
    _ < near * (above * above) * unit :=
      Nat.mul_lt_mul_of_pos_right (Nat.mul_lt_mul_of_pos_right less positive) pos
    _ ≤ far * (below * below) * unit := Nat.mul_le_mul_right _ room
    _ = far * unit * (below * below) := Nat.mul_right_comm _ _ _

/-- Digits that fit a word are read step by step, if what they denote is not close to the greatest
double. -/
theorem exists_ofDigits? (negative : Bool) {digits : Nat} {exponent : Int}
    (word : digits < twoTo 64) (less : digits * tenTo exponent.toNat * twoTo 1074 < nearLimit) :
    ∃ y, ofDigits? negative digits exponent = some y ∧ y.negative = negative := by
  have greatest : roundedMagnitude (twoTo 64 * twoTo 1074) 1 < twoTo 2098 := by decide +kernel
  have le : digits * twoTo 1074 * 1 ≤ twoTo 64 * twoTo 1074 * 1 :=
    Nat.mul_le_mul_right 1 (Nat.mul_le_mul_right _ (Nat.le_of_lt word))
  obtain ⟨x, rounded, rfl⟩ :=
    exists_ofMagnitude_of_le negative Nat.one_pos Nat.one_pos le greatest
  simp only [ofDigits?, rounded, Option.bind_eq_bind, Option.bind_some]
  cases exponent with
  | negSucc e => exact exists_shrink? x (e + 1)
  | ofNat e =>
    rw [scale?]
    split
    next => exact ⟨x, rfl, rfl⟩
    next nonzero =>
      have some : 0 < digits := by
        refine Nat.pos_of_ne_zero fun zero => nonzero ?_
        have none : ofMagnitude x.negative 0 1 = .some (Double.zero x.negative) := rfl
        rw [zero, Nat.zero_mul, none] at rounded
        rw [← Option.some.inj rounded]
        rfl
      exact exists_mul_tenTo? some rounded less

end Double

end Pipework
