import Mathlib.Algebra.Group.Nat.Defs
import Pipework.Number.Decimal

/-!
# Rounding to doubles

Two laws of rounding carry what is proved about numerals. A fraction and the same fraction expanded
round alike, and a magnitude that some double has rounds to that double. So a numeral that denotes
the exact value of a double, whatever its digits are, rounds to it. So does a whole number up to 2⁵³,
since there is a double for it.
-/

namespace Pipework

/-- Two to the power of `n`, as the library has it. -/
theorem twoTo_eq (n : Nat) : twoTo n = 2 ^ n := rfl

/-- Ten to the power of `n`, as the library has it. -/
theorem tenTo_eq (n : Nat) : tenTo n = 10 ^ n := rfl

theorem twoTo_add (m n : Nat) : twoTo (m + n) = twoTo m * twoTo n := Nat.pow_add 2 m n

theorem twoTo_le_twoTo {m n : Nat} (le : m ≤ n) : twoTo m ≤ twoTo n :=
  Nat.pow_le_pow_right (by decide) le

theorem tenTo_le_tenTo {m n : Nat} (le : m ≤ n) : tenTo m ≤ tenTo n :=
  Nat.pow_le_pow_right (by decide) le

theorem twoTo_pos (n : Nat) : 0 < twoTo n := Nat.pow_pos (by decide)

theorem tenTo_pos (n : Nat) : 0 < tenTo n := Nat.pow_pos (by decide)

namespace Double

/-! ## Expanding a fraction -/

/-- Expanding a fraction leaves the nearest whole number as it is. -/
theorem nearestEven_expand (num den : Nat) {k : Nat} (pos : 0 < k) :
    nearestEven (num * k) (den * k) = nearestEven num den := by
  simp only [nearestEven, Nat.mul_div_mul_right num den pos, Nat.mul_mod_mul_right]
  have less (a b : Nat) : 2 * (a * k) < b * k ↔ 2 * a < b := by
    rw [← Nat.mul_assoc, Nat.mul_lt_mul_right pos]
  have more (a b : Nat) : a * k < 2 * (b * k) ↔ a < 2 * b := by
    rw [← Nat.mul_assoc, Nat.mul_lt_mul_right pos]
  simp only [less, more]

/-- Expanding a fraction leaves the nearest double as it is. -/
theorem ofMagnitude_expand (negative : Bool) (num den : Nat) {k : Nat} (pos : 0 < k) :
    ofMagnitude negative (num * k) (den * k) = ofMagnitude negative num den := by
  have aligned (s : Nat) : nearestEven (num * k) (den * k * s) = nearestEven num (den * s) := by
    rw [Nat.mul_right_comm den k s, nearestEven_expand num (den * s) pos]
  simp only [ofMagnitude, Nat.mul_div_mul_right num den pos, aligned]

/-- Equal fractions round alike. -/
theorem ofMagnitude_congr (negative : Bool) {num den num' den' : Nat} (pos : 0 < den)
    (pos' : 0 < den') (same : num * den' = num' * den) :
    ofMagnitude negative num den = ofMagnitude negative num' den' := by
  rw [← ofMagnitude_expand negative num den pos', ← ofMagnitude_expand negative num' den' pos, same,
    Nat.mul_comm den den']

/-! ## The magnitude of a double -/

/-- A whole number is the nearest one to itself. -/
theorem nearestEven_self (n : Nat) : nearestEven n 1 = n := by
  simp only [nearestEven, Nat.div_one, Nat.mod_one, Nat.mul_zero, Nat.zero_lt_one, ↓reduceIte]

/-- The shift of a double can be read off its magnitude: the mantissa has 53 binary digits, or there
is no shift. -/
theorem log2_magnitude (x : Double) : x.magnitude.log2 - 52 = x.shift := by
  obtain ⟨negative, mantissa, shift, small, bounded, normal⟩ := x
  simp only [magnitude, twoTo_eq] at *
  rcases Nat.eq_zero_or_pos mantissa with rfl | pos
  · rcases normal with rfl | large
    · rfl
    · exact absurd large (by decide)
  have nonzero : mantissa * 2 ^ shift ≠ 0 := Nat.ne_of_gt (Nat.mul_pos pos (Nat.two_pow_pos shift))
  have upper : (mantissa * 2 ^ shift).log2 < 53 + shift := by
    rw [Nat.log2_lt nonzero, Nat.pow_add]
    exact Nat.mul_lt_mul_of_pos_right small (Nat.two_pow_pos shift)
  rcases normal with rfl | large
  · omega
  · have lower : 52 + shift ≤ (mantissa * 2 ^ shift).log2 := by
      rw [Nat.le_log2 nonzero, Nat.pow_add]
      exact Nat.mul_le_mul_right _ large
    omega

/-- The magnitude of a double rounds to the double. -/
theorem ofMagnitude_magnitude (x : Double) : ofMagnitude x.negative x.magnitude 1 = some x := by
  have mantissa : nearestEven x.magnitude (1 * twoTo x.shift) = x.mantissa := by
    rw [magnitude, nearestEven_expand _ _ (twoTo_pos _), nearestEven_self]
  have small : x.mantissa ≠ twoTo 53 := Nat.ne_of_lt x.canonical.1
  simp only [ofMagnitude, Nat.div_one, log2_magnitude, mantissa, small, ↓reduceIte, ofParts?,
    x.canonical, ↓reduceDIte]

/-- A fraction that equals the magnitude of a double rounds to the double. -/
theorem ofMagnitude_exact (x : Double) {num den : Nat} (pos : 0 < den)
    (exact : num = x.magnitude * den) : ofMagnitude x.negative num den = some x := by
  have same : num * 1 = x.magnitude * den := by rw [Nat.mul_one, exact]
  rw [ofMagnitude_congr x.negative pos Nat.one_pos same, ofMagnitude_magnitude]

/-! ## Whole numbers -/

/-- Whole numbers up to 2⁵³, times a power of two that is neither too small nor too great, are
magnitudes of doubles. -/
theorem exists_magnitude_eq {n e : Nat} (small : n ≤ twoTo 53) (low : 52 ≤ e) (high : e ≤ 2044)
    (negative : Bool) : ∃ x : Double, x.negative = negative ∧ x.magnitude = n * twoTo e := by
  rcases Nat.eq_zero_or_pos n with rfl | pos
  · refine ⟨zero negative, rfl, ?_⟩
    rw [Nat.zero_mul]
    exact Nat.zero_mul _
  rcases Nat.eq_or_lt_of_le small with rfl | small
  · refine ⟨⟨negative, twoTo 52, e + 1, by decide, by omega, .inr (Nat.le_refl _)⟩, rfl, ?_⟩
    show twoTo 52 * twoTo (e + 1) = twoTo 53 * twoTo e
    rw [← twoTo_add, ← twoTo_add, show 52 + (e + 1) = 53 + e by omega]
  -- the mantissa is `n` with zeros behind it
  have nonzero : n ≠ 0 := Nat.ne_of_gt pos
  have short : n.log2 < 53 := (Nat.log2_lt nonzero).mpr small
  have lower : twoTo 52 ≤ n * twoTo (52 - n.log2) := by
    have := Nat.mul_le_mul_right (twoTo (52 - n.log2)) (Nat.log2_self_le nonzero)
    rwa [← twoTo_eq, ← twoTo_add, Nat.add_sub_cancel' (by omega)] at this
  have upper : n * twoTo (52 - n.log2) < twoTo 53 := by
    have := Nat.mul_lt_mul_of_pos_right (Nat.lt_log2_self (n := n)) (twoTo_pos (52 - n.log2))
    rwa [← twoTo_eq, ← twoTo_add, show n.log2 + 1 + (52 - n.log2) = 53 by omega] at this
  refine ⟨⟨negative, _, e - 52 + n.log2, upper, by omega, .inr lower⟩, rfl, ?_⟩
  show n * twoTo (52 - n.log2) * twoTo (e - 52 + n.log2) = n * twoTo e
  rw [Nat.mul_assoc, ← twoTo_add, show 52 - n.log2 + (e - 52 + n.log2) = e by omega]

/-- Whole numbers up to 2⁵³ are their nearest doubles. -/
theorem exists_units_eq {i : Int} (small : i.natAbs ≤ twoTo 53) :
    ∃ x, ofInt? i = some x ∧ x.units = i * twoTo 1074 := by
  obtain ⟨x, sign, size⟩ :=
    exists_magnitude_eq (e := 1074) small (by decide) (by decide) (decide (i < 0))
  have rounded : ofInt? i = some x := by
    rw [ofInt?, ← sign]
    exact ofMagnitude_exact x Nat.one_pos (by rw [size, Nat.mul_one])
  refine ⟨x, rounded, ?_⟩
  rw [units, sign, size, Int.natCast_mul]
  by_cases negative : i < 0
  · rw [if_pos (decide_eq_true negative), ← Int.neg_mul, Int.ofNat_natAbs_of_nonpos (by omega),
      Int.neg_neg]
  · rw [if_neg (by simpa using negative), Int.natAbs_of_nonneg (by omega)]

end Double

end Pipework
