import Pipework.Proofs.Json.Reading
import Pipework.Proofs.Number.Scaling

/-!
# Numbers in documents

The text of a number is read as a number. A text has a sign, digits, perhaps a point with digits
behind it, and perhaps an exponent; `Spells` says which. Whole numbers have digits only, and doubles
have a point or an exponent, so that the two kinds are told apart.

A whole number is read as itself. What the digits of a double denote rounds to that double, since its
numeral does; but documents are not read in one rounding, so that another double may be read
(`Double.reread`). Some double always is: no double is so great that what is written for it is refused
as out of range.
-/

namespace Pipework

/-! ## First digits -/

/-- The digits of a number begin with a zero only if the number is zero. -/
theorem eq_zero_of_toDigits {n : Nat} {cs : List Char} (zero : Nat.toDigits 10 n = '0' :: cs) :
    n = 0 := by
  induction n using Nat.strongRecOn generalizing cs with
  | ind n ih =>
    rw [Nat.toDigits_eq_if (by decide)] at zero
    split at zero
    next small =>
      have digits : ∀ n < 10, n.digitChar = '0' → n = 0 := by decide
      exact digits n small (List.cons.inj zero).1
    next large =>
      rcases List.append_eq_cons_iff.mp zero with ⟨none, -⟩ | ⟨ds, first, -⟩
      · exact absurd none Nat.toDigits_ne_nil
      · have := ih (n / 10) (by omega) first
        omega

/-- Digits that begin with a zero only if there are no others. -/
def Leads (digits : List Char) : Prop :=
  ∀ cs, digits = '0' :: cs → cs = []

theorem leads_toDigits (n : Nat) : Leads (Nat.toDigits 10 n) := by
  intro cs zero
  have none := eq_zero_of_toDigits zero
  rw [none] at zero
  exact (List.cons.inj zero).2.symm

theorem leads_single (c : Char) : Leads [c] := by
  intro cs single
  exact (List.cons.inj single).2.symm

namespace Decimal

/-- Before and behind its point a numeral has digits, and those before it lead, unless it is a zero
with an exponent. There are as many of them as the numeral is long before its point, and always one. -/
theorem exists_leading_splits (n : Nat) {exponent : Int} (plain : n = 0 → exponent = 0) :
    ∃ whole fraction, Splits n exponent whole fraction ∧ fraction ≠ [] ∧ Leads whole ∧
      (whole.length : Int) ≤ max 1 ((Nat.toDigits 10 n).length + exponent) := by
  cases exponent with
  | ofNat e =>
    refine ⟨_, _, splits_whole n e, List.cons_ne_nil _ _, fun cs zero => ?_, ?_⟩
    case refine_2 =>
      rw [List.length_append, List.length_replicate, Int.ofNat_eq_natCast]
      omega
    rcases List.append_eq_cons_iff.mp zero with ⟨none, -⟩ | ⟨ds, first, rfl⟩
    · exact absurd none Nat.toDigits_ne_nil
    · have noZeros : e = 0 := Int.ofNat.inj (plain (eq_zero_of_toDigits first))
      rw [leads_toDigits n ds first, noZeros]
      rfl
  | negSucc e =>
    by_cases inside : e + 1 < (Nat.toDigits 10 n).length
    · refine ⟨_, _, splits_among inside, ?_, fun cs zero => ?_, ?_⟩
      case refine_3 =>
        rw [List.length_take, Int.negSucc_eq]
        omega
      · intro none
        have := congrArg List.length none
        rw [List.length_drop, List.length_nil] at this
        omega
      · have first : Nat.toDigits 10 n = '0' :: (cs ++ (Nat.toDigits 10 n).drop
            ((Nat.toDigits 10 n).length - (e + 1))) := by
          rw [← List.cons_append, ← zero, List.take_append_drop]
        exact (List.append_eq_nil_iff.mp (leads_toDigits n _ first)).1
    · refine ⟨_, _, splits_before inside, ?_, leads_single _, Int.le_max_left _ _⟩
      exact List.append_ne_nil_of_right_ne_nil _ Nat.toDigits_ne_nil

end Decimal

/-! ## Parts of a number -/

namespace Json

open Text (StopsAt)

/-- A point and the digits behind it, if there are any. -/
def pointed : Option (List Char) → List Char
  | none => []
  | some digits => '.' :: digits

/-- An exponent, if there is one. -/
def powered : Option Int → List Char
  | none => []
  | some e => 'e' :: (if e < 0 then ['-'] else ['+']) ++ Nat.toDigits 10 e.natAbs

/-- Parts with a point or an exponent that round to a double. What stands in front of the point fits a
word, and the exponent is not refused for its length. -/
structure Rounds (x : Double) (negative : Bool) (whole : List Char) (fraction : Option (List Char))
    (exponent : Option Int) : Prop where
  real : fraction ≠ none ∨ exponent ≠ none
  word : digitsValue whole < twoTo 64
  short : ∀ e ∈ exponent, e < twoTo 31
  nearest : (Decimal.mk negative (digitsValue (whole ++ fraction.getD []))
    (exponent.getD 0 - (fraction.getD []).length)).toDouble? = some x

/-- What the parts of a number denote. -/
def Denotes (negative : Bool) (whole : List Char) (fraction : Option (List Char))
    (exponent : Option Int) : Number → Prop
  | .integer i _ => fraction = none ∧ exponent = none ∧ negative = decide (i < 0) ∧
      digitsValue whole = i.natAbs
  | .double x => Rounds x negative whole fraction exponent

/-- The parts of which a number is written. -/
structure Spells (n : Number) (negative : Bool) (whole : List Char) (fraction : Option (List Char))
    (exponent : Option Int) : Prop where
  text : n.text.toList =
    Decimal.sign negative ++ (whole ++ (pointed fraction ++ powered exponent))
  some : whole ≠ []
  digits : ∀ c ∈ whole, isAsciiDigit c = true
  leads : Leads whole
  behind : ∀ ds ∈ fraction, ds ≠ [] ∧ ∀ c ∈ ds, isAsciiDigit c = true
  value : Denotes negative whole fraction exponent n

/-- A whole number is spelled by its digits. -/
theorem spells_integer (i : Int) (inRange : InWordRange i) :
    Spells (.integer i inRange) (decide (i < 0)) (Nat.toDigits 10 i.natAbs) none none where
  text := by
    rw [Number.text, Decimal.toList_toString]
    simp only [pointed, powered, List.append_nil]
  some := Nat.toDigits_ne_nil
  digits _ := isAsciiDigit_of_mem_toDigits
  leads := leads_toDigits _
  behind := nofun
  value := ⟨rfl, rfl, rfl, digitsValue_toDigits _⟩

/-- The numeral of a double is a zero with no exponent, or it is no zero. -/
theorem exponent_toDecimal {x : Double} (zero : x.toDecimal.digits = 0) :
    x.toDecimal.exponent = 0 := by
  have rounds := x.toDouble?_toDecimal
  rw [Decimal.toDouble?, if_pos zero] at rounds
  have mantissa : x.mantissa = 0 := by
    rw [← Option.some.inj rounds]
    rfl
  rw [Double.toDecimal, if_pos mantissa]

/-- The numeral of a double is not so long that its size alone puts it out of range. -/
theorem size_toDecimal_le (x : Double) :
    (Nat.toDigits 10 x.toDecimal.digits).length + x.toDecimal.exponent ≤ 310 := by
  have rounds := x.toDouble?_toDecimal
  by_cases zero : x.toDecimal.digits = 0
  · rw [exponent_toDecimal zero, zero]
    decide
  · refine Int.not_lt.mp fun great => ?_
    simp only [Decimal.toDouble?, zero, great, ↓reduceIte] at rounds
    cases rounds

/-- A double that is written without an exponent is spelled by the digits around its point. -/
theorem exists_spells_positional {x : Double}
    (few : (Nat.toDigits 10 x.toDecimal.digits).length + x.toDecimal.exponent ≤ 16)
    (text : (Number.double x).text.toList = Decimal.sign x.toDecimal.negative ++
      Decimal.positionalText (Nat.toDigits 10 x.toDecimal.digits) x.toDecimal.exponent) :
    ∃ whole fraction, Spells (.double x) x.toDecimal.negative whole (some fraction) none := by
  obtain ⟨whole, fraction, splits, behind, leads, length⟩ :=
    Decimal.exists_leading_splits x.toDecimal.digits exponent_toDecimal
  have digits : ∀ c ∈ whole, isAsciiDigit c = true :=
    fun c mem => splits.digits c (List.mem_append_left _ mem)
  refine ⟨whole, fraction, ?_, splits.nonempty, digits, leads, ?_, .inl nofun, ?_, nofun, ?_⟩
  · rw [text, splits.text]
    simp only [pointed, powered, List.append_nil]
  · rintro _ ⟨⟩
    exact ⟨behind, fun c mem => splits.digits c (List.mem_append_right _ mem)⟩
  · calc digitsValue whole
      _ < 10 ^ whole.length := digitsValue_lt digits
      _ ≤ 10 ^ 16 := Nat.pow_le_pow_right (by decide) (by omega)
      _ ≤ twoTo 64 := by decide
  · simp only [Option.getD_some, Option.getD_none, Int.zero_sub]
    exact (splits.rounds _).trans x.toDouble?_toDecimal

/-- A double that is written with an exponent is spelled by its first digit, the others and the
exponent of the first. -/
theorem exists_spells_scientific {x : Double} {leading : Int}
    (place : leading = x.toDecimal.exponent + (Nat.toDigits 10 x.toDecimal.digits).length - 1)
    (text : (Number.double x).text.toList = Decimal.sign x.toDecimal.negative ++
      Decimal.scientificText "+" (Nat.toDigits 10 x.toDecimal.digits) leading) :
    ∃ whole fraction, Spells (.double x) x.toDecimal.negative whole fraction (some leading) := by
  have size := size_toDecimal_le x
  obtain ⟨first, others, digits⟩ : ∃ first others,
      Nat.toDigits 10 x.toDecimal.digits = first :: others :=
    List.exists_cons_of_ne_nil Nat.toDigits_ne_nil
  have all (c : Char) (mem : c ∈ first :: others) : isAsciiDigit c = true :=
    isAsciiDigit_of_mem_toDigits (digits ▸ mem)
  have value : digitsValue (first :: others) = x.toDecimal.digits := by
    rw [← digits, digitsValue_toDigits]
  have plus : "+".toList = ['+'] := rfl
  have short : ∀ e ∈ some leading, e < twoTo 31 := by
    rintro _ ⟨⟩
    have : (twoTo 31 : Int) = 2147483648 := rfl
    omega
  rw [digits] at place text
  rw [List.length_cons] at place
  have exponent : leading - others.length = x.toDecimal.exponent := by omega
  have some : [first] ≠ [] := List.cons_ne_nil _ _
  have digit : ∀ c ∈ [first], isAsciiDigit c = true := fun c mem =>
    List.mem_singleton.mp mem ▸ all first List.mem_cons_self
  have ten : 10 ^ [first].length < twoTo 64 := by
    show 10 ^ 1 < twoTo 64
    decide
  have word : digitsValue [first] < twoTo 64 := Nat.lt_trans (digitsValue_lt digit) ten
  cases others with
  | nil =>
    refine ⟨[first], none, ?_, some, digit, leads_single _, nofun, .inr nofun, word, short, ?_⟩
    · rw [text]
      simp only [Decimal.scientificText, plus, pointed, powered, List.cons_append, List.nil_append]
    · simp only [Option.getD_some, Option.getD_none, List.append_nil, value]
      rw [exponent]
      exact x.toDouble?_toDecimal
  | cons second others =>
    refine ⟨[first], .some (second :: others), ?_, some, digit, leads_single _, ?_, .inl nofun, word,
      short, ?_⟩
    · rw [text]
      simp only [Decimal.scientificText, plus, pointed, powered, List.cons_append, List.nil_append,
        List.append_assoc]
    · rintro _ ⟨⟩
      exact ⟨List.cons_ne_nil _ _, fun c mem => all c (List.mem_cons_of_mem _ mem)⟩
    · simp only [Option.getD_some, List.singleton_append, value]
      rw [exponent]
      exact x.toDouble?_toDecimal

/-- Every number is spelled in some way. -/
theorem exists_spells (n : Number) :
    ∃ negative whole fraction exponent, Spells n negative whole fraction exponent := by
  cases n with
  | integer i inRange => exact ⟨_, _, _, _, spells_integer i inRange⟩
  | double x =>
    obtain ⟨leading, place⟩ : ∃ leading, leading =
        x.toDecimal.exponent + (Nat.toDigits 10 x.toDecimal.digits).length - 1 := ⟨_, rfl⟩
    have text : (Number.double x).text.toList = Decimal.sign x.toDecimal.negative ++
        if decide (-5 ≤ leading) && decide (leading ≤ 15) then
          Decimal.positionalText (Nat.toDigits 10 x.toDecimal.digits) x.toDecimal.exponent
        else Decimal.scientificText "+" (Nat.toDigits 10 x.toDecimal.digits) leading := by
      rw [place, Number.text, Decimal.text, String.toList_ofList]
      cases x.toDecimal.negative <;> rfl
    split at text
    next positional =>
      rw [Bool.and_eq_true, decide_eq_true_eq, decide_eq_true_eq] at positional
      obtain ⟨whole, fraction, spells⟩ := exists_spells_positional (by omega) text
      exact ⟨_, _, _, _, spells⟩
    next =>
      obtain ⟨whole, fraction, spells⟩ := exists_spells_scientific place text
      exact ⟨_, _, _, _, spells⟩

/-! ## Reading -/

theorem readFraction_pointed {fraction : Option (List Char)} {rest : List Char}
    (behind : ∀ ds ∈ fraction, ds ≠ [] ∧ ∀ c ∈ ds, isAsciiDigit c = true)
    (noDigit : StopsAt isAsciiDigit rest) (noPoint : rest.head? ≠ some '.') :
    readFraction (pointed fraction ++ rest) = .ok (fraction, rest) := by
  cases fraction with
  | none =>
    show readFraction rest = _
    unfold readFraction
    split
    · exact absurd rfl noPoint
    · rfl
  | some digits =>
    obtain ⟨some, all⟩ := behind digits rfl
    obtain ⟨d, ds, rfl⟩ := List.exists_cons_of_ne_nil some
    show readFraction ('.' :: (d :: ds ++ rest)) = _
    simp only [readFraction, Text.takeWhile_span all noDigit, Text.dropWhile_span all noDigit]

/-- What does not go on with a number begins with no digit, point or exponent. -/
theorem stops_of_goesOnNumber {rest : List Char} (stop : StopsAt goesOnNumber rest) :
    StopsAt isAsciiDigit rest ∧ rest.head? ≠ some '.' ∧ rest.head? ≠ some 'e' ∧
      rest.head? ≠ some 'E' := by
  refine ⟨fun c first => ?_, fun first => ?_, fun first => ?_, fun first => ?_⟩
  · have stop := stop c first
    simp only [goesOnNumber, Bool.or_eq_false_iff] at stop
    exact stop.1.1.1
  all_goals cases stop _ first

theorem readExponent_powered {exponent : Option Int} {rest : List Char} (isZero : Bool)
    (short : ∀ e ∈ exponent, e < twoTo 31) (stop : StopsAt goesOnNumber rest) :
    readExponent isZero (powered exponent ++ rest) = .ok (exponent, rest) := by
  obtain ⟨noDigit, -, noSmall, noLarge⟩ := stops_of_goesOnNumber stop
  cases exponent with
  | none =>
    show readExponent isZero rest = _
    cases rest with
    | nil => rfl
    | cons c cs =>
      have small : c ≠ 'e' := fun same => noSmall (congrArg some same)
      have large : c ≠ 'E' := fun same => noLarge (congrArg some same)
      simp only [readExponent, small, large, decide_false, Bool.or_self, Bool.false_eq_true,
        ↓reduceIte]
  | some e =>
    obtain ⟨d, ds, digits⟩ : ∃ d ds, Nat.toDigits 10 e.natAbs = d :: ds :=
      List.exists_cons_of_ne_nil Nat.toDigits_ne_nil
    have all : ∀ c ∈ d :: ds, isAsciiDigit c = true := fun c mem =>
      isAsciiDigit_of_mem_toDigits (digits ▸ mem)
    have value : digitsValue (d :: ds) = e.natAbs := by rw [← digits, digitsValue_toDigits]
    have taken := Text.takeWhile_span all noDigit
    have left := Text.dropWhile_span all noDigit
    by_cases negative : e < 0
    · have size : -(e.natAbs : Int) = e := by omega
      simp only [powered, negative, digits, ↓reduceIte, List.cons_append, List.nil_append]
        at taken left ⊢
      simp only [readExponent, decide_true, Bool.true_or, ↓reduceIte, Decimal.takeSign, taken, left,
        value, size, Bool.or_true]
    · have size : (e.natAbs : Int) = e := by omega
      have kept : fill (twoTo 31) 0 (d :: ds) = (e.natAbs, []) := by
        have small : Nat.ofDigitChars 10 (d :: ds) 0 < twoTo 31 := by
          have := short e rfl
          change digitsValue (d :: ds) < _
          omega
        exact (fill_of_lt small).trans (congrArg (·, []) value)
      simp only [powered, negative, digits, ↓reduceIte, List.cons_append, List.nil_append]
        at taken left ⊢
      simp only [readExponent, decide_true, Bool.true_or, ↓reduceIte, Decimal.takeSign, taken, left,
        value, size, kept, List.isEmpty_nil, Bool.false_eq_true]

/-- The exponent of a number is not refused for its length. -/
theorem Spells.short {n : Number} {negative : Bool} {whole : List Char}
    {fraction : Option (List Char)} {exponent : Option Int}
    (spells : Spells n negative whole fraction exponent) : ∀ e ∈ exponent, e < twoTo 31 := by
  have value := spells.value
  cases n with
  | integer i inRange =>
    obtain ⟨-, rfl, -, -⟩ := value
    exact nofun
  | double x => exact value.short

/-- The text of a number is read behind its sign, unless its parts are out of range. -/
theorem readNumber_spelled {n : Number} {negative : Bool} {whole : List Char}
    {fraction : Option (List Char)} {exponent : Option Int}
    (spells : Spells n negative whole fraction exponent) {rest : List Char}
    (stop : StopsAt goesOnNumber rest) :
    readNumber negative (whole ++ (pointed fraction ++ (powered exponent ++ rest))) =
      (numberOf? negative whole fraction exponent).elim (Fault.outOfRange.before rest)
        fun m => .ok (m, rest) := by
  obtain ⟨noDigit, noPoint, -, -⟩ := stops_of_goesOnNumber stop
  have noDigit' : StopsAt isAsciiDigit (powered exponent ++ rest) := by
    cases exponent with
    | none => exact noDigit
    | some e => exact Text.stopsAt_cons rfl
  have noPoint' : (powered exponent ++ rest).head? ≠ some '.' := by
    cases exponent with
    | none => exact noPoint
    | some e => exact fun same => nomatch same
  have noDigit'' : StopsAt isAsciiDigit (pointed fraction ++ (powered exponent ++ rest)) := by
    cases fraction with
    | none => exact noDigit'
    | some ds => exact Text.stopsAt_cons rfl
  obtain ⟨c, cs, rfl⟩ := List.exists_cons_of_ne_nil spells.some
  have taken := Text.takeWhile_span spells.digits noDigit''
  have left := Text.dropWhile_span spells.digits noDigit''
  have first := spells.digits c List.mem_cons_self
  have leads : (decide (c = '0') && decide (1 < (c :: cs).length)) = false := by
    by_cases zero : c = '0'
    · subst zero
      rw [spells.leads cs rfl]
      rfl
    · rw [decide_eq_false zero, Bool.false_and]
  have pointed_read := readFraction_pointed spells.behind noDigit' noPoint'
  have powered_read (isZero : Bool) := readExponent_powered isZero spells.short stop
  rw [List.cons_append] at taken left ⊢
  simp only [readNumber, first, taken, left, leads, Bool.not_true, Bool.false_eq_true, ↓reduceIte,
    pointed_read, powered_read, bind, Except.bind]
  cases numberOf? negative (c :: cs) fraction exponent <;> rfl

/-! ## Step by step -/

variable {n : Number} {x : Double} {negative : Bool} {whole : List Char}
  {fraction : Option (List Char)} {exponent : Option Int}

/-- A whole number is read as itself. -/
theorem numberOf?_integer {i : Int} {inRange : InWordRange i}
    (spells : Spells (.integer i inRange) negative whole fraction exponent) :
    numberOf? negative whole fraction exponent = some (.integer i inRange) := by
  obtain ⟨rfl, rfl, rfl, value⟩ := spells.value
  have held : Number.ofInt? i = some (.integer i inRange) := dif_pos inRange
  have noZero : (decide (i < 0) && ((i.natAbs : Int) == 0)) = false := by
    by_cases negative : i < 0
    · rw [beq_eq_false_iff_ne.mpr (by omega), Bool.and_false]
    · rw [decide_eq_false negative, Bool.false_and]
  have size : (if decide (i < 0) = true then -(i.natAbs : Int) else i.natAbs) = i := by
    split
    next negative =>
      have := of_decide_eq_true negative
      omega
    next positive =>
      have := mt decide_eq_true positive
      omega
  have whole_read : integerOf? (decide (i < 0)) whole = some (.integer i inRange) := by
    simp only [integerOf?, value, noZero, size, held, Bool.false_eq_true, ↓reduceIte]
  rw [numberOf?, Option.isNone_none, Option.isNone_none, Bool.and_self, if_pos rfl, whole_read,
    Option.orElse_eq_orElse, Option.orElse_some]

/-- With a point or an exponent, a double is read or nothing is. -/
theorem numberOf?_double (rounds : Rounds x negative whole fraction exponent) :
    numberOf? negative whole fraction exponent =
      (doubleOf? negative whole (fraction.getD []) (exponent.getD 0)).map Number.double := by
  have real : (fraction.isNone && exponent.isNone) = false := by
    rcases rounds.real with real | real
    · rw [Option.isNone_eq_false_iff.mpr (Option.isSome_iff_ne_none.mpr real), Bool.false_and]
    · rw [Option.isNone_eq_false_iff.mpr (Option.isSome_iff_ne_none.mpr real), Bool.and_false]
  rw [numberOf?, real, if_neg Bool.false_ne_true, Option.orElse_eq_orElse, Option.orElse_none]

/-- Parts that do not round to one of the greatest doubles are read as a double of their sign. -/
theorem exists_doubleOf? (rounds : Rounds x negative whole fraction exponent)
    (other : x.magnitude < (twoTo 53 - 2) * twoTo 2045) :
    ∃ y, doubleOf? negative whole (fraction.getD []) (exponent.getD 0) = some y ∧
      y.negative = negative := by
  have front : fill (twoTo 64) 0 whole = (digitsValue whole, []) := fill_of_lt rounds.word
  obtain ⟨places, placed⟩ : ∃ places, fraction.getD [] = places := ⟨_, rfl⟩
  have all : Nat.ofDigitChars 10 places (digitsValue whole) = digitsValue (whole ++ places) :=
    (Nat.ofDigitChars_append 0).symm
  have word := fill_lt rounds.word places
  have cut := fill_le (twoTo 64) (digitsValue whole) places
  have fewer := length_fill_le (twoTo 64) (digitsValue whole) places
  have nearest := rounds.nearest
  rw [placed] at nearest
  have less := Double.lt_nearLimit nearest other
  rw [all] at cut
  simp only [doubleOf?, placed, front]
  generalize fill (twoTo 64) (digitsValue whole) places = kept at *
  obtain ⟨digits, unused⟩ := kept
  have place : (([] : List Char).length : Int) - (places.length - unused.length : Nat) +
      exponent.getD 0 = exponent.getD 0 - places.length + unused.length := by
    have fewer : unused.length ≤ places.length := fewer
    rw [List.length_nil]
    omega
  rw [place]
  exact Double.exists_ofDigits? negative word
    (Double.lt_nearLimit_of_cut word cut less)

/-- The greatest double of a sign. -/
def greatest (negative : Bool) : Double :=
  ⟨negative, 9007199254740991, 2045, by decide⟩

/-- The one before it. -/
def secondGreatest (negative : Bool) : Double :=
  ⟨negative, 9007199254740990, 2045, by decide⟩

theorem eq_of_great (great : (twoTo 53 - 2) * twoTo 2045 ≤ x.magnitude) :
    x = secondGreatest x.negative ∨ x = greatest x.negative := by
  obtain ⟨negative, mantissa, shift, small, bounded, normal⟩ := x
  have coarsest : shift = 2045 := by
    refine Nat.le_antisymm bounded (Nat.le_of_not_lt fun finer => Nat.not_lt.mpr great ?_)
    calc mantissa * twoTo shift
      _ < twoTo 53 * twoTo shift := Nat.mul_lt_mul_of_pos_right small (twoTo_pos _)
      _ ≤ twoTo 53 * twoTo 2044 := Nat.mul_le_mul_left _ (twoTo_le_twoTo (by omega))
      _ ≤ (twoTo 53 - 2) * twoTo 2045 := by decide +kernel
  subst coarsest
  have large : twoTo 53 - 2 ≤ mantissa := Nat.le_of_mul_le_mul_right great (twoTo_pos 2045)
  have range : mantissa = 9007199254740990 ∨ mantissa = 9007199254740991 := by
    have : twoTo 53 = 9007199254740992 := rfl
    omega
  rcases range with rfl | rfl
  · exact .inl rfl
  · exact .inr rfl

/-- Both are read as the greatest. -/
theorem readNumber_of_great (negative : Bool) {x : Double}
    (great : x = secondGreatest negative ∨ x = greatest negative) :
    readNumber negative (Decimal.takeSign (Number.double x).text.toList).2 =
      .ok (.double (greatest negative), []) := by
  refine Outcome.toOption_eq_some.mp ?_
  rcases great with rfl | rfl <;> cases negative <;> decide +kernel

/-- The sign of a double is the sign that is written. -/
theorem Rounds.negative_eq (rounds : Rounds x negative whole fraction exponent) :
    x.negative = negative := by
  exact Decimal.negative_of_toDouble? rounds.nearest

/-- A double is read as some double of its sign. -/
theorem exists_numberOf?_double (spells : Spells (.double x) negative whole fraction exponent) :
    ∃ y : Double, numberOf? negative whole fraction exponent = some (.double y) ∧
      y.negative = x.negative := by
  have rounds : Rounds x negative whole fraction exponent := spells.value
  obtain rfl := rounds.negative_eq
  rcases Nat.lt_or_ge x.magnitude ((twoTo 53 - 2) * twoTo 2045) with other | great
  · obtain ⟨y, read, sign⟩ := exists_doubleOf? rounds other
    refine ⟨y, ?_, sign⟩
    rw [numberOf?_double rounds, read, Option.map_some]
  · refine ⟨greatest x.negative, ?_, rfl⟩
    have read := readNumber_spelled spells Text.stopsAt_nil
    have great_read := readNumber_of_great x.negative (eq_of_great great)
    rw [spells.text, Decimal.takeSign_sign _ _ spells.some spells.digits] at great_read
    rw [List.append_nil, great_read] at read
    cases value : numberOf? x.negative whole fraction exponent with
    | none =>
      rw [value] at read
      cases read
    | some m =>
      rw [value] at read
      cases read
      rfl

/-- A number is read as some number: a whole number as itself, and a double as one of its sign. -/
inductive Resembles : Number → Number → Prop
  | same (i : Int) (inRange : InWordRange i) : Resembles (.integer i inRange) (.integer i inRange)
  | double {x y : Double} (sign : y.negative = x.negative) : Resembles (.double x) (.double y)

theorem exists_numberOf? (spells : Spells n negative whole fraction exponent) :
    ∃ m, Resembles n m ∧ numberOf? negative whole fraction exponent = some m := by
  cases n with
  | integer i inRange => exact ⟨_, .same i inRange, numberOf?_integer spells⟩
  | double x =>
    obtain ⟨y, read, sign⟩ := exists_numberOf?_double spells
    exact ⟨_, .double sign, read⟩

/-- Behind a minus, or from its first digit on, a number is read as another. -/
def BeginsAs (n m : Number) (c : Char) (cs : List Char) : Prop :=
  n.text.toList = c :: cs ∧
    (c = '-' ∧ (∀ rest, StopsAt goesOnNumber rest → readNumber true (cs ++ rest) = .ok (m, rest)) ∨
      isAsciiDigit c = true ∧ ∀ rest, StopsAt goesOnNumber rest →
        readNumber false (c :: (cs ++ rest)) = .ok (m, rest))

theorem exists_beginsAs (n : Number) : ∃ m, Resembles n m ∧ ∃ c cs, BeginsAs n m c cs := by
  obtain ⟨negative, whole, fraction, exponent, spells⟩ := exists_spells n
  obtain ⟨m, resembles, value⟩ := exists_numberOf? spells
  refine ⟨m, resembles, ?_⟩
  have read (rest : List Char) (stop : StopsAt goesOnNumber rest) :
      readNumber negative ((whole ++ (pointed fraction ++ powered exponent)) ++ rest) =
        .ok (m, rest) := by
    rw [List.append_assoc, List.append_assoc, readNumber_spelled spells stop, value]
    rfl
  have text := spells.text
  cases negative with
  | true => exact ⟨'-', _, text, .inl ⟨rfl, read⟩⟩
  | false =>
    obtain ⟨c, cs, rfl⟩ := List.exists_cons_of_ne_nil spells.some
    exact ⟨c, _, text, .inr ⟨spells.digits c List.mem_cons_self, read⟩⟩

/-- A digit is not taken for anything else. -/
theorem solid_of_isAsciiDigit {c : Char} (digit : isAsciiDigit c = true) :
    isBlank c = false ∧ c ≠ ']' ∧ c ≠ '-' ∧ c ≠ 'n' ∧ c ≠ 't' ∧ c ≠ 'f' ∧ c ≠ '"' ∧ c ≠ '[' ∧
      c ≠ '{' := by
  refine ⟨?_, ?_, ?_, ?_, ?_, ?_, ?_, ?_, ?_⟩
  · cases blank : isBlank c with
    | false => rfl
    | true =>
      simp only [isBlank, Bool.or_eq_true, beq_iff_eq] at blank
      rcases blank with ((rfl | rfl) | rfl) | rfl <;> cases digit
  all_goals
    rintro rfl
    cases digit

/-- A number that begins so is read so as a value. -/
theorem BeginsAs.reads {m : Number} {c : Char} {cs : List Char} (begins : BeginsAs n m c cs)
    (inside : Option (Reader Json)) : Reads (readValueWith inside) n.text.toList (.number m) := by
  obtain ⟨text, ⟨rfl, read⟩ | ⟨digit, read⟩⟩ := begins
  · refine ⟨⟨'-', cs, text, rfl, by decide⟩, fun blanks all rest stop => ?_⟩
    rw [text, List.cons_append, readValueWith, skipBlanks_blanks (c := '-') all rfl]
    exact Outcome.bind_eq_ok.mpr ⟨_, read rest stop, rfl⟩
  · obtain ⟨solid, bracket, minus, n, t, f, quote, list, object⟩ := solid_of_isAsciiDigit digit
    refine ⟨⟨c, cs, text, solid, bracket⟩, fun blanks all rest stop => ?_⟩
    rw [text, List.cons_append, readValueWith, skipBlanks_blanks all solid]
    simp only [digit, ↓reduceIte]
    exact Outcome.bind_eq_ok.mpr ⟨_, read rest stop, rfl⟩

end Json

/-! ## What is read for a double -/

/-- The double that is read where a double is written in a document. -/
def Double.reread (x : Double) : Double :=
  match Json.parse? (Number.double x).text with
  | some (.number (.double y)) => y
  | _ => x

/-- The double is read back as itself. -/
def Double.Kept (x : Double) : Prop :=
  Json.parse? (Number.double x).text = some (.number (.double x))

/-- The number that is read where a number is written in a document. -/
def Number.reread : Number → Number
  | .integer i inRange => .integer i inRange
  | .double x => .double x.reread

namespace Json

/-- A number that begins so is reread so. -/
theorem BeginsAs.reread {m : Number} {c : Char} {cs : List Char} (begins : BeginsAs n m c cs)
    (resembles : Resembles n m) : n.reread = m := by
  cases resembles with
  | same => rfl
  | @double x y sign =>
    have parsed : parse? (Number.double x).text = some (.number (.double y)) :=
      parse?_of_reads begins.reads
    rw [Number.reread, Double.reread, parsed]

/-- The text of a number is read as the number is reread. -/
theorem exists_begins (n : Number) : ∃ c cs, BeginsAs n n.reread c cs := by
  obtain ⟨m, resembles, c, cs, begins⟩ := exists_beginsAs n
  exact ⟨c, cs, begins.reread resembles ▸ begins⟩

/-- The same as a value. -/
theorem reads_number {inside : Option (Reader Json)} (n : Number) :
    Reads (readValueWith inside) n.text.toList (.number n.reread) := by
  obtain ⟨c, cs, begins⟩ := exists_begins n
  exact begins.reads inside

/-- Rereading does not change a sign. -/
theorem negative_reread (x : Double) : x.reread.negative = x.negative := by
  obtain ⟨m, resembles, c, cs, begins⟩ := exists_beginsAs (.double x)
  have same := begins.reread resembles
  cases resembles with
  | double sign => exact (congrArg Double.negative (Number.double.inj same)).trans sign

/-- Exactly what is kept is reread as itself. -/
theorem kept_iff {x : Double} : x.Kept ↔ x.reread = x := by
  have parsed : parse? (Number.double x).text = some (.number (.double x.reread)) :=
    parse?_of_reads fun _ => reads_number (.double x)
  rw [Double.Kept, parsed]
  refine ⟨fun same => ?_, fun same => by rw [same]⟩
  exact Number.double.inj (Json.number.inj (Option.some.inj same))

end Json

instance (x : Double) : Decidable x.Kept :=
  decidable_of_iff _ Json.kept_iff.symm

namespace Json

/-! ## Words -/

/-- A whole number that is not negative is read as a word. -/
theorem reads_unsigned {i : Int} (inRange : InWordRange i) (nonneg : 0 ≤ i) :
    Reads readUnsigned (Number.integer i inRange).text.toList i.toNat.toUInt64 := by
  obtain ⟨c, cs, text, ⟨rfl, read⟩ | ⟨digit, read⟩⟩ := exists_begins (.integer i inRange)
  · refine ⟨⟨'-', cs, text, rfl, by decide⟩, fun blanks all rest stop => ?_⟩
    rw [text, List.cons_append]
    simp only [readUnsigned, skipBlanks_blanks (c := '-') all rfl]
    exact Outcome.bind_eq_ok.mpr ⟨_, read rest stop, if_pos nonneg⟩
  · obtain ⟨solid, bracket, minus, -⟩ := solid_of_isAsciiDigit digit
    refine ⟨⟨c, cs, text, solid, bracket⟩, fun blanks all rest stop => ?_⟩
    rw [text, List.cons_append]
    simp only [readUnsigned, skipBlanks_blanks all solid, digit, ↓reduceIte]
    exact Outcome.bind_eq_ok.mpr ⟨_, read rest stop, if_pos nonneg⟩

/-- A word is read back. -/
theorem reads_word (n : UInt64) : Reads readUnsigned (Number.ofNat n.toNat).text.toList n := by
  have inRange : InWordRange n.toNat := by
    have := n.toNat_lt
    omega
  have number : Number.ofNat n.toNat = .integer n.toNat inRange := by
    rw [Number.ofNat, Number.ofInt?, dif_pos inRange, Option.getD_some]
  have reads := reads_unsigned inRange (Int.natCast_nonneg _)
  have word : (n.toNat : Int).toNat.toUInt64 = n := by
    rw [Int.toNat_natCast]
    exact UInt64.ofNat_toNat
  rwa [word, ← number] at reads

end Json

end Pipework
