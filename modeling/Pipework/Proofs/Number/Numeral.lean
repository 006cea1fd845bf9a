import Mathlib.Data.List.TakeWhile
import Pipework.Proofs.Number.Rounding
import Pipework.Proofs.Text.Span

/-!
# The numeral of a double

The numeral that a double is written as rounds back to the double, and the text of a numeral without
an exponent reads back as a numeral that rounds the same.

`Double.toDecimal` tries short numerals and keeps one only if it rounds to the double, so that all
there is to prove is that the numeral with all digits, which it falls back on, does.
-/

namespace Pipework

/-! ## Sizes -/

/-- How many digits a number has that is large enough. -/
theorem lt_length_toDigits {n k : Nat} (large : 10 ^ k ≤ n) : k < (Nat.toDigits 10 n).length := by
  rcases Nat.eq_zero_or_pos k with rfl | pos
  · exact Nat.length_toDigits_pos
  · refine Nat.not_le.mp fun short => ?_
    exact Nat.not_lt.mpr large ((Nat.length_toDigits_le_iff (by decide) pos).mp short)

/-- Zeros at the end are so many digits more. -/
theorem length_toDigits_mul_pow {n : Nat} (pos : 0 < n) (k : Nat) :
    (Nat.toDigits 10 (n * 10 ^ k)).length = (Nat.toDigits 10 n).length + k := by
  have nonempty : 0 < (Nat.toDigits 10 n).length := Nat.length_toDigits_pos
  have upper : n < 10 ^ (Nat.toDigits 10 n).length :=
    (Nat.length_toDigits_le_iff (by decide) nonempty).mp (Nat.le_refl _)
  have upper' : (Nat.toDigits 10 (n * 10 ^ k)).length ≤ (Nat.toDigits 10 n).length + k := by
    refine (Nat.length_toDigits_le_iff (by decide) (by omega)).mpr ?_
    rw [Nat.pow_add]
    exact Nat.mul_lt_mul_of_pos_right upper (Nat.pow_pos (by decide))
  have lower : 10 ^ ((Nat.toDigits 10 n).length - 1) ≤ n := by
    rcases Nat.eq_zero_or_pos ((Nat.toDigits 10 n).length - 1) with short | long
    · rw [short]
      exact pos
    · refine Nat.not_lt.mp fun small => ?_
      have := (Nat.length_toDigits_le_iff (by decide) long).mpr small
      omega
  have lower' : (Nat.toDigits 10 n).length - 1 + k < (Nat.toDigits 10 (n * 10 ^ k)).length := by
    refine lt_length_toDigits ?_
    rw [Nat.pow_add]
    exact Nat.mul_le_mul_right _ lower
  omega

/-! ## Numerals that round alike -/

namespace Decimal

/-- A numeral that its size does not settle rounds by its value. -/
theorem toDouble?_of_sized {negative : Bool} {digits : Nat} {exponent : Int}
    (nonzero : digits ≠ 0) (bounded : (Nat.toDigits 10 digits).length + exponent ≤ 310)
    (visible : -330 ≤ (Nat.toDigits 10 digits).length + exponent) :
    (Decimal.mk negative digits exponent).toDouble? = Double.ofMagnitude negative
      (digits * tenTo exponent.toNat * twoTo 1074) (tenTo (-exponent).toNat) := by
  simp only [toDouble?, nonzero, ↓reduceIte, Int.not_lt.mpr bounded, Int.not_lt.mpr visible]
  cases exponent with
  | ofNat e =>
    have none : (-Int.ofNat e).toNat = 0 := Int.toNat_neg_natCast e
    rw [none]
    rfl
  | negSucc e =>
    rw [Int.neg_negSucc, Int.toNat_negSucc]
    simp only [tenTo_eq, Nat.pow_zero, Nat.mul_one]
    rfl

/-- Zeros that are moved from the power of ten to the digits change nothing. -/
theorem toDouble?_shift (negative : Bool) (digits k : Nat) (exponent : Int) :
    (Decimal.mk negative (digits * 10 ^ k) (exponent - k)).toDouble? =
      (Decimal.mk negative digits exponent).toDouble? := by
  rcases Nat.eq_zero_or_pos digits with rfl | pos
  · simp only [toDouble?, Nat.zero_mul, ↓reduceIte]
  have length := length_toDigits_mul_pow pos k
  have nonzero : digits * 10 ^ k ≠ 0 := Nat.ne_of_gt (Nat.mul_pos pos (Nat.pow_pos (by decide)))
  -- Both numerals have the same size, so that either it settles both or neither.
  have size : ((Nat.toDigits 10 (digits * 10 ^ k)).length : Int) + (exponent - k) =
      (Nat.toDigits 10 digits).length + exponent := by omega
  by_cases bounded : ((Nat.toDigits 10 digits).length : Int) + exponent ≤ 310
  case neg =>
    simp only [toDouble?, nonzero, Nat.ne_of_gt pos, size, Int.not_le.mp bounded, ↓reduceIte]
  by_cases visible : -330 ≤ ((Nat.toDigits 10 digits).length : Int) + exponent
  case neg =>
    simp only [toDouble?, nonzero, Nat.ne_of_gt pos, size, Int.not_lt.mpr bounded,
      Int.not_le.mp visible, ↓reduceIte]
  rw [toDouble?_of_sized nonzero (by rw [size]; exact bounded) (by rw [size]; exact visible),
    toDouble?_of_sized (Nat.ne_of_gt pos) bounded visible]
  refine Double.ofMagnitude_congr negative (tenTo_pos _) (tenTo_pos _) ?_
  have powers : 10 ^ k * 10 ^ (exponent - k).toNat * 10 ^ (-exponent).toNat =
      10 ^ exponent.toNat * 10 ^ (-(exponent - k)).toNat := by
    rw [← Nat.pow_add, ← Nat.pow_add, ← Nat.pow_add]
    congr 1
    omega
  simp only [tenTo_eq]
  generalize twoTo 1074 = unit
  calc digits * 10 ^ k * 10 ^ (exponent - k).toNat * unit * 10 ^ (-exponent).toNat
      = digits * unit * (10 ^ k * 10 ^ (exponent - k).toNat * 10 ^ (-exponent).toNat) := by
        ac_rfl
    _ = digits * unit * (10 ^ exponent.toNat * 10 ^ (-(exponent - k)).toNat) := by
        rw [powers]
    _ = digits * 10 ^ exponent.toNat * unit * 10 ^ (-(exponent - k)).toNat := by
        ac_rfl

end Decimal

/-! ## The numeral of a double -/

namespace Double

/-- A mantissa times a power of five has at most 16 digits more than the power is high. -/
theorem length_toDigits_mul_five_pow_le {m : Nat} (small : m < twoTo 53) (k : Nat) :
    (Nat.toDigits 10 (m * 5 ^ k)).length ≤ 16 + k := by
  refine (Nat.length_toDigits_le_iff (by decide) (by omega)).mpr ?_
  calc m * 5 ^ k
      < 10 ^ 16 * 5 ^ k :=
        Nat.mul_lt_mul_of_pos_right (Nat.lt_trans small (by decide)) (Nat.pow_pos (by decide))
    _ ≤ 10 ^ 16 * 10 ^ k := Nat.mul_le_mul_left _ (Nat.pow_le_pow_left (by decide) k)
    _ = 10 ^ (16 + k) := (Nat.pow_add 10 16 k).symm

/-- No double is so small that its numeral counts as zero: of the places behind the point, all but
330 hold digits. -/
theorem le_length_toDigits_mul_five_pow {m k : Nat} (positive : 0 < m) (bounded : k ≤ 1074) :
    k ≤ 330 + (Nat.toDigits 10 (m * 5 ^ k)).length := by
  rcases Nat.le_total k 330 with few | many
  · omega
  obtain ⟨j, rfl⟩ : ∃ j, k = 330 + j := ⟨k - 330, by omega⟩
  have large : 10 ^ j ≤ m * 5 ^ (330 + j) := by
    calc 10 ^ j = 2 ^ j * 5 ^ j := by rw [← Nat.mul_pow]
      _ ≤ twoTo 744 * 5 ^ j := Nat.mul_le_mul_right _ (twoTo_le_twoTo (by omega))
      _ ≤ 5 ^ 330 * 5 ^ j := Nat.mul_le_mul_right _ (by decide +kernel)
      _ = 5 ^ (330 + j) := by rw [Nat.pow_add]
      _ ≤ m * 5 ^ (330 + j) := Nat.le_mul_of_pos_left _ positive
  have := lt_length_toDigits large
  omega

/-- A double that is a whole number is its numeral with all digits. -/
theorem toDouble?_of_whole {x : Double} (positive : 0 < x.mantissa) (whole : 1074 ≤ x.shift) :
    (Decimal.mk x.negative (x.mantissa * twoTo (x.shift - 1074)) 0).toDouble? = some x := by
  obtain ⟨small, bounded, -⟩ := x.canonical
  have digits : x.mantissa * twoTo (x.shift - 1074) ≠ 0 :=
    Nat.ne_of_gt (Nat.mul_pos positive (twoTo_pos _))
  have size : (Nat.toDigits 10 (x.mantissa * twoTo (x.shift - 1074))).length ≤ 310 := by
    refine (Nat.length_toDigits_le_iff (by decide) (by decide)).mpr ?_
    calc x.mantissa * twoTo (x.shift - 1074)
        < twoTo 53 * twoTo (x.shift - 1074) := Nat.mul_lt_mul_of_pos_right small (twoTo_pos _)
      _ ≤ twoTo 53 * twoTo 971 := Nat.mul_le_mul_left _ (twoTo_le_twoTo (by omega))
      _ ≤ 10 ^ 310 := by decide +kernel
  rw [Decimal.toDouble?_of_sized digits (by omega) (by omega)]
  refine ofMagnitude_exact x (tenTo_pos _) ?_
  simp only [magnitude, tenTo_eq, Int.toNat_zero, Int.neg_zero, Nat.pow_zero, Nat.mul_one]
  rw [Nat.mul_assoc, ← twoTo_add, Nat.sub_add_cancel whole]

/-- A double with `k` binary places is its numeral with all of its `k` decimal places. -/
theorem toDouble?_of_places {x : Double} {k : Nat} (positive : 0 < x.mantissa)
    (split : 1074 = x.shift + k) :
    (Decimal.mk x.negative (x.mantissa * 5 ^ k) (-(k : Int))).toDouble? = some x := by
  have digits : x.mantissa * 5 ^ k ≠ 0 :=
    Nat.ne_of_gt (Nat.mul_pos positive (Nat.pow_pos (by decide)))
  have upper := length_toDigits_mul_five_pow_le x.canonical.1 k
  have lower := le_length_toDigits_mul_five_pow (k := k) positive (by omega)
  rw [Decimal.toDouble?_of_sized digits (by omega) (by omega)]
  refine ofMagnitude_exact x (tenTo_pos _) ?_
  simp only [magnitude, tenTo_eq, twoTo_eq, Int.toNat_neg_natCast, Int.neg_neg,
    Int.toNat_natCast, Nat.pow_zero, Nat.mul_one]
  calc x.mantissa * 5 ^ k * 2 ^ 1074
      = x.mantissa * 5 ^ k * (2 ^ x.shift * 2 ^ k) := by rw [← Nat.pow_add, ← split]
    _ = x.mantissa * 2 ^ x.shift * (2 ^ k * 5 ^ k) := by ac_rfl
    _ = x.mantissa * 2 ^ x.shift * 10 ^ k := by rw [← Nat.mul_pow]

/-- The numeral with all digits rounds to the double. -/
theorem toDouble?_exactDecimal {x : Double} (nonzero : x.mantissa ≠ 0) :
    x.exactDecimal.toDouble? = some x := by
  have positive : 0 < x.mantissa := Nat.pos_of_ne_zero nonzero
  unfold exactDecimal
  split
  next whole => exact toDouble?_of_whole positive whole
  next fraction => exact toDouble?_of_places positive (by omega)

/-- The numeral that a double is written as rounds to the double. -/
theorem toDouble?_toDecimal (x : Double) : x.toDecimal.toDouble? = some x := by
  unfold toDecimal
  split
  next zero =>
    obtain ⟨negative, mantissa, shift, small, bounded, normal⟩ := x
    obtain rfl : mantissa = 0 := zero
    obtain rfl : shift = 0 := normal.resolve_right (by decide)
    rfl
  next nonzero =>
    simp only
    cases found : (x.gridExponents.flatMap x.neighbours).find? fun d => d.toDouble? = some x with
    | none => exact toDouble?_exactDecimal nonzero
    | some d =>
      have kept := List.find?_some found
      exact of_decide_eq_true kept

end Double

/-! ## The text of a numeral -/

/-- The ASCII digits are the library's digits. -/
theorem isAsciiDigit_eq (c : Char) : isAsciiDigit c = c.isDigit := by
  simp only [isAsciiDigit, Char.isDigit, Char.le_def, ge_iff_le]

/-- The digits of a number are ASCII digits. -/
theorem isAsciiDigit_of_mem_toDigits {n : Nat} {c : Char} (mem : c ∈ Nat.toDigits 10 n) :
    isAsciiDigit c = true := by
  rw [isAsciiDigit_eq]
  exact Nat.isDigit_of_mem_toDigits (by decide) (by decide) mem

/-- The digits of a number denote the number. -/
theorem digitsValue_toDigits (n : Nat) : digitsValue (Nat.toDigits 10 n) = n :=
  Nat.ofDigitChars_ten_toDigits

/-- The first digit counts as often as there are others behind it. -/
theorem digitsValue_cons (c : Char) (cs : List Char) :
    digitsValue (c :: cs) = (c.toNat - '0'.toNat) * 10 ^ cs.length + digitsValue cs := by
  change Nat.ofDigitChars 10 (c :: cs) 0 = _ + Nat.ofDigitChars 10 cs 0
  rw [Nat.ofDigitChars_cons, Nat.ofDigitChars_eq_ofDigitChars_zero, Nat.mul_zero, Nat.zero_add,
    Nat.mul_comm]

theorem isAsciiDigit_iff {c : Char} :
    isAsciiDigit c = true ↔ '0'.toNat ≤ c.toNat ∧ c.toNat ≤ '9'.toNat := by
  rw [isAsciiDigit, Bool.and_eq_true, decide_eq_true_iff, decide_eq_true_iff]
  rfl

/-- So many digits denote less than this power of ten. -/
theorem digitsValue_lt {cs : List Char} (digits : ∀ c ∈ cs, isAsciiDigit c = true) :
    digitsValue cs < 10 ^ cs.length := by
  induction cs with
  | nil => exact Nat.one_pos
  | cons c cs ih =>
    have rest := ih fun d mem => digits d (List.mem_cons_of_mem _ mem)
    have ⟨_, le⟩ := isAsciiDigit_iff.mp (digits c List.mem_cons_self)
    have first : c.toNat - '0'.toNat ≤ 9 := Nat.sub_le_of_le_add le
    rw [digitsValue_cons, List.length_cons, Nat.pow_succ]
    have := Nat.mul_le_mul_right (10 ^ cs.length) first
    omega

/-- Zeros in front of digits add nothing to what they denote. -/
theorem digitsValue_zeros_append (k : Nat) (digits : List Char) :
    digitsValue (List.replicate k '0' ++ digits) = digitsValue digits := by
  change Nat.ofDigitChars 10 (List.replicate k '0' ++ digits) 0 = _
  rw [Nat.ofDigitChars_append, Nat.ofDigitChars_replicate_zero, Nat.mul_zero]
  rfl

/-- Zeros behind digits are powers of ten. -/
theorem digitsValue_append_zeros (digits : List Char) (k : Nat) :
    digitsValue (digits ++ List.replicate k '0') = digitsValue digits * 10 ^ k := by
  change Nat.ofDigitChars 10 (digits ++ List.replicate k '0') 0 = _
  rw [Nat.ofDigitChars_append, Nat.ofDigitChars_replicate_zero, Nat.mul_comm]
  rfl

namespace Decimal

/-- A numeral without an exponent is written as these digits, a point and these digits, and what is
written rounds as the numeral does. -/
structure Splits (n : Nat) (exponent : Int) (whole fraction : List Char) : Prop where
  text : positionalText (Nat.toDigits 10 n) exponent = whole ++ '.' :: fraction
  nonempty : whole ≠ []
  digits : ∀ c ∈ whole ++ fraction, isAsciiDigit c = true
  rounds : ∀ negative, (Decimal.mk negative (digitsValue (whole ++ fraction))
    (-(fraction.length : Int))).toDouble? = (Decimal.mk negative n exponent).toDouble?

/-- Zeros are ASCII digits. -/
theorem isAsciiDigit_of_mem_zeros {k : Nat} {c : Char} (mem : c ∈ List.replicate k '0') :
    isAsciiDigit c = true := by
  rw [List.eq_of_mem_replicate mem]
  decide

/-- A whole number has its zeros in front of the point and one behind it. -/
theorem splits_whole (n e : Nat) :
    Splits n (.ofNat e) (Nat.toDigits 10 n ++ List.replicate e '0') ['0'] where
  text := by simp only [positionalText, List.append_assoc]
  nonempty none := Nat.toDigits_ne_nil (List.append_eq_nil_iff.mp none).1
  digits c mem := by
    rw [List.append_assoc, ← List.replicate_succ'] at mem
    rcases List.mem_append.mp mem with mem | mem
    · exact isAsciiDigit_of_mem_toDigits mem
    · exact isAsciiDigit_of_mem_zeros mem
  rounds negative := by
    have value : digitsValue (Nat.toDigits 10 n ++ List.replicate e '0' ++ ['0']) =
        n * 10 ^ (e + 1) := by
      rw [List.append_assoc, ← List.replicate_succ', digitsValue_append_zeros,
        digitsValue_toDigits]
    have place : (-((['0'] : List Char).length : Int)) = Int.ofNat e - (e + 1 : Nat) := by
      simp only [List.length_singleton, Int.ofNat_eq_natCast]
      omega
    rw [value, place, toDouble?_shift]

/-- A point among the digits leaves some of them on both sides. -/
theorem splits_among {n e : Nat} (inside : e + 1 < (Nat.toDigits 10 n).length) :
    Splits n (.negSucc e) ((Nat.toDigits 10 n).take ((Nat.toDigits 10 n).length - (e + 1)))
      ((Nat.toDigits 10 n).drop ((Nat.toDigits 10 n).length - (e + 1))) where
  text := by
    simp only [positionalText, inside, ↓reduceIte, List.append_assoc, List.singleton_append]
  nonempty none := by
    have := congrArg List.length none
    simp only [List.length_take, List.length_nil] at this
    omega
  digits c mem := by
    rw [List.take_append_drop] at mem
    exact isAsciiDigit_of_mem_toDigits mem
  rounds negative := by
    rw [List.take_append_drop, digitsValue_toDigits, List.length_drop,
      Nat.sub_sub_self (Nat.le_of_lt inside)]
    rfl

/-- Before fewer digits than places stand a zero, the point and the zeros that are missing. -/
theorem splits_before {n e : Nat} (outside : ¬ e + 1 < (Nat.toDigits 10 n).length) :
    Splits n (.negSucc e) ['0']
      (List.replicate (e + 1 - (Nat.toDigits 10 n).length) '0' ++ Nat.toDigits 10 n) where
  text := by
    simp only [positionalText, outside, ↓reduceIte, List.cons_append, List.nil_append]
  nonempty := List.cons_ne_nil _ _
  digits c mem := by
    rw [← List.append_assoc, ← List.replicate_one, List.replicate_append_replicate] at mem
    rcases List.mem_append.mp mem with mem | mem
    · exact isAsciiDigit_of_mem_zeros mem
    · exact isAsciiDigit_of_mem_toDigits mem
  rounds negative := by
    have value : digitsValue (['0'] ++
        (List.replicate (e + 1 - (Nat.toDigits 10 n).length) '0' ++ Nat.toDigits 10 n)) = n := by
      rw [← List.append_assoc, ← List.replicate_one, List.replicate_append_replicate,
        digitsValue_zeros_append, digitsValue_toDigits]
    have places : (List.replicate (e + 1 - (Nat.toDigits 10 n).length) '0' ++
        Nat.toDigits 10 n).length = e + 1 := by
      rw [List.length_append, List.length_replicate]
      omega
    rw [value, places]
    rfl

/-- Every numeral without an exponent has digits on both sides of its point. -/
theorem exists_splits (n : Nat) (exponent : Int) :
    ∃ whole fraction, Splits n exponent whole fraction := by
  cases exponent with
  | ofNat e => exact ⟨_, _, splits_whole n e⟩
  | negSucc e =>
    by_cases inside : e + 1 < (Nat.toDigits 10 n).length
    · exact ⟨_, _, splits_among inside⟩
    · exact ⟨_, _, splits_before inside⟩

/-- The sign of a numeral as written. -/
def sign (negative : Bool) : List Char :=
  if negative then ['-'] else []

/-- A whole number is written as a sign and its digits. -/
theorem toList_toString (i : Int) :
    (toString i).toList = sign (i < 0) ++ Nat.toDigits 10 i.natAbs := by
  cases i with
  | ofNat m =>
    change (Nat.repr m).toList = _
    rw [Nat.toList_repr]
    rfl
  | negSucc m =>
    change ("-" ++ Nat.repr (m + 1)).toList = _
    have negative : decide (Int.negSucc m < 0) = true := decide_eq_true (Int.negSucc_lt_zero m)
    rw [String.toList_append, Nat.toList_repr, negative]
    rfl

/-- A numeral without an exponent is a sign, digits and a point. -/
theorem toList_text (d : Decimal) (plus : String) : (d.text ⟨none, plus⟩).toList =
    sign d.negative ++ positionalText (Nat.toDigits 10 d.digits) d.exponent := by
  rw [text, String.toList_ofList]
  cases d.negative <;> rfl

/-- The sign is taken off digits. -/
theorem takeSign_sign (negative : Bool) {whole : List Char} (rest : List Char)
    (some : whole ≠ []) (digits : ∀ c ∈ whole, isAsciiDigit c = true) :
    takeSign (sign negative ++ (whole ++ rest)) = (negative, whole ++ rest) := by
  cases negative with
  | true => rfl
  | false =>
    cases whole with
    | nil => exact absurd rfl some
    | cons c cs =>
      have digit := digits c List.mem_cons_self
      have notMinus : c ≠ '-' := by rintro rfl; cases digit
      have notPlus : c ≠ '+' := by rintro rfl; cases digit
      simp [sign, takeSign, notMinus, notPlus]

/-- A numeral that is written with digits before a point is read as it is written. -/
theorem ofText?_point (negative : Bool) {whole fraction : List Char} (some : whole ≠ [])
    (digits : ∀ c ∈ whole ++ fraction, isAsciiDigit c = true) :
    ofText? (sign negative ++ (whole ++ '.' :: fraction)) =
      .some ⟨negative, digitsValue (whole ++ fraction), -(fraction.length : Int)⟩ := by
  have before : ∀ c ∈ whole, isAsciiDigit c = true :=
    fun c mem => digits c (List.mem_append_left _ mem)
  have behind : ∀ c ∈ fraction, isAsciiDigit c = true :=
    fun c mem => digits c (List.mem_append_right _ mem)
  have signed := takeSign_sign negative ('.' :: fraction) some before
  have point : Text.StopsAt isAsciiDigit ('.' :: fraction) := Text.stopsAt_cons (by decide)
  have taken := Text.takeWhile_span before point
  have dropped := Text.dropWhile_span before point
  have allTaken := List.takeWhile_eq_self_iff.mpr behind
  have noneLeft := List.dropWhile_eq_nil_iff.mpr behind
  have nonempty : whole.isEmpty = false := by simpa using some
  simp only [ofText?, signed, taken, dropped, allTaken, noneLeft, nonempty, Bool.false_and,
    Bool.false_eq_true, ↓reduceIte, exponentOf?]
  simp

end Decimal

end Pipework
