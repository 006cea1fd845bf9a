import Pipework.Proofs.Json.Numbers
import Pipework.Proofs.Yaml.Plain

/-!
# Numbers without quotes

A number stands in a document as it does in JSON, but for the sign of a positive exponent, and means
that number there: whole numbers are digits only, and nothing else that a scalar can spell begins with
a digit, or with a minus in front of one.
-/

namespace Pipework.Yaml

open Json (Spells pointed)
open Text (StopsAt)

variable {cs whole tail : List Char} {negative : Bool}

/-! ## The parts of a number -/

/-- An exponent, if there is one. -/
def lowered : Option Int → List Char
  | none => []
  | some e => 'e' :: Decimal.sign (decide (e < 0)) ++ Nat.toDigits 10 e.natAbs

/-- The digits in front of an exponent do not depend on the sign that a positive one gets. -/
theorem scientificText_split (digits : List Char) (leading : Int) :
    ∃ point, ∀ plus, Decimal.scientificText plus digits leading =
      point ++ ('e' :: (if leading < 0 then ['-'] else plus.toList) ++
        Nat.toDigits 10 leading.natAbs) := by
  exact ⟨_, fun _ => (List.append_assoc _ _ _).trans (List.append_assoc _ _ _)⟩

/-- So they are the same as in JSON. -/
theorem scientificText_bare {digits : List Char} {leading : Int} {fraction : Option (List Char)}
    (spelled : Decimal.scientificText "+" digits leading =
      whole ++ (pointed fraction ++ Json.powered (some leading))) :
    Decimal.scientificText "" digits leading =
      whole ++ (pointed fraction ++ lowered (some leading)) := by
  obtain ⟨point, split⟩ := scientificText_split digits leading
  have front : point = whole ++ pointed fraction := by
    rw [split, ← List.append_assoc whole] at spelled
    have exponent : Json.powered (some leading) =
      'e' :: (if leading < 0 then ['-'] else "+".toList) ++ Nat.toDigits 10 leading.natAbs := rfl
    rw [exponent] at spelled
    exact List.append_cancel_right spelled
  rw [split, front, List.append_assoc, lowered, Decimal.sign]
  simp only [decide_eq_true_eq]
  rfl

/-- A number is written as in JSON but for the sign of its exponent. -/
theorem exists_spells (n : Number) : ∃ negative whole fraction exponent,
    Spells n negative whole fraction exponent ∧ (numberText n).toList =
      Decimal.sign negative ++ (whole ++ (pointed fraction ++ lowered exponent)) := by
  cases n with
  | integer i inRange =>
    have spells := Json.spells_integer i inRange
    exact ⟨_, _, _, _, spells, spells.text⟩
  | double x =>
    obtain ⟨leading, place⟩ : ∃ leading, leading =
        x.toDecimal.exponent + (Nat.toDigits 10 x.toDecimal.digits).length - 1 := ⟨_, rfl⟩
    have text : ∀ plus, (x.toDecimal.text ⟨some (-5, 15), plus⟩).toList =
        Decimal.sign x.toDecimal.negative ++
          if decide (-5 ≤ leading) && decide (leading ≤ 15) then
            Decimal.positionalText (Nat.toDigits 10 x.toDecimal.digits) x.toDecimal.exponent
          else Decimal.scientificText plus (Nat.toDigits 10 x.toDecimal.digits) leading := by
      intro plus
      rw [place, Decimal.text, String.toList_ofList]
      cases x.toDecimal.negative <;> rfl
    have inJson : (Number.double x).text.toList = _ := text "+"
    have inYaml : (numberText (.double x)).toList = _ := text ""
    split at inJson
    · next positional =>
      have within := positional
      rw [Bool.and_eq_true, decide_eq_true_eq, decide_eq_true_eq] at within
      obtain ⟨whole, fraction, spells⟩ := Json.exists_spells_positional (by omega) inJson
      rw [if_pos positional, ← inJson, spells.text] at inYaml
      exact ⟨_, _, _, _, spells, inYaml⟩
    · next scientific =>
      obtain ⟨whole, fraction, spells⟩ := Json.exists_spells_scientific place inJson
      have bare := scientificText_bare (List.append_cancel_left (inJson.symm.trans spells.text))
      rw [if_neg scientific, bare] at inYaml
      exact ⟨_, _, _, _, spells, inYaml⟩

/-! ## As plain scalars -/

/-- The characters of numbers. -/
def isNumeric (c : Char) : Bool :=
  isAsciiDigit c || c == '.' || c == 'e' || c == '-'

theorem isNumeric_of_isAsciiDigit {c : Char} (digit : isAsciiDigit c = true) :
    isNumeric c = true := by
  simp only [isNumeric, digit, Bool.true_or]

/-- The characters of numerals can be printed. -/
theorem isPrintable_of_isNumeric {c : Char} (numeric : isNumeric c = true) :
    isPrintable c = true := by
  simp only [isNumeric, Bool.or_eq_true, beq_iff_eq] at numeric
  rcases numeric with ((digit | rfl) | rfl) | rfl
  · simp only [isAsciiDigit, Bool.and_eq_true, decide_eq_true_eq] at digit
    have low : ' ' ≤ c := Char.le_trans (by decide) digit.1
    have high : c ≤ '~' := Char.le_trans digit.2 (by decide)
    simp only [isPrintable, low, high, decide_true, Bool.and_self, Bool.or_true, Bool.true_or]
  all_goals rfl

/-- None of them is a blank, the end of a line, or a mark within a line. -/
theorem solid_of_isNumeric {c : Char} (numeric : isNumeric c = true) :
    isSpace c = false ∧ c ≠ ':' ∧ c ≠ '#' := by
  have space : isSpace c = false := by
    cases space : isSpace c with
    | false => rfl
    | true =>
      simp only [isSpace, isBlank, isBreak, Bool.or_eq_true, beq_iff_eq] at space
      rcases space with (rfl | rfl) | (((rfl | rfl) | rfl) | rfl) | rfl <;> cases numeric
  exact ⟨space, ne_of_class numeric rfl, ne_of_class numeric rfl⟩

/-- A text without colon and number sign hides no indicator. -/
theorem hidesIndicator_of_ne (none : ∀ c ∈ cs, c ≠ ':' ∧ c ≠ '#') : hidesIndicator cs = false := by
  induction cs with
  | nil => rfl
  | cons c cs ih =>
    have more := ih fun d mem => none d (List.mem_cons_of_mem _ mem)
    cases cs with
    | nil => rfl
    | cons d ds =>
      obtain ⟨noColon, noHash⟩ := none d (List.mem_cons_of_mem _ List.mem_cons_self)
      rw [hidesIndicator, more, beq_false_of_ne noColon, beq_false_of_ne noHash]
      rfl

theorem isPrefixOf_cons_of_ne {m d : Char} {ms ds : List Char} (other : (m == d) = false) :
    (m :: ms).isPrefixOf (d :: ds) = false := by
  rw [List.isPrefixOf, other, Bool.false_and]

/-- A digit begins nothing but a plain scalar. -/
theorem opensOther_of_isAsciiDigit {d : Char} (digit : isAsciiDigit d = true) :
    opensOther (d :: cs) = false := by
  have noDigits : indicators.any isAsciiDigit = false := by decide
  have noIndicator : indicators.contains d = false := by
    rw [List.contains_eq_mem]
    exact decide_eq_false fun mem => List.any_eq_false.mp noDigits d mem digit
  have noKey : d ≠ '?' := ne_of_class digit rfl
  have noValue : d ≠ ':' := ne_of_class digit rfl
  have noItem : d ≠ '-' := ne_of_class digit rfl
  rw [opensOther, noIndicator, beq_false_of_ne noKey, beq_false_of_ne noValue,
    beq_false_of_ne noItem]
  rfl

theorem isNumeric_of_mem_sign {c : Char} (mem : c ∈ Decimal.sign negative) :
    isNumeric c = true := by
  cases negative with
  | true =>
    rw [List.mem_singleton.mp mem]
    rfl
  | false => cases mem

/-- The digits at the start of a number, and what follows them. -/
structure Numeral (whole tail : List Char) : Prop where
  nonempty : whole ≠ []
  digits : ∀ c ∈ whole, isAsciiDigit c = true
  leads : Leads whole
  ends : ∀ c ∈ tail.head?, c = '.' ∨ c = 'e'
  behind : ∀ c ∈ tail, isNumeric c = true

/-- A numeral needs no quotes, with or without a sign. -/
theorem Numeral.allowsPlain (numeral : Numeral whole tail) (negative : Bool) :
    allowsPlain (Decimal.sign negative ++ (whole ++ tail)) = true := by
  obtain ⟨some, digits, -, -, behind⟩ := numeral
  obtain ⟨d, ds, rfl⟩ := List.exists_cons_of_ne_nil some
  have digit := digits d List.mem_cons_self
  have numeric : ∀ c ∈ Decimal.sign negative ++ (d :: ds ++ tail), isNumeric c = true := by
    intro c mem
    rcases List.mem_append.mp mem with mem | mem
    · exact isNumeric_of_mem_sign mem
    rcases List.mem_append.mp mem with mem | mem
    · exact isNumeric_of_isAsciiDigit (digits c mem)
    · exact behind c mem
  have line : ∀ c ∈ Decimal.sign negative ++ (d :: ds ++ tail), isBreak c = false := fun c mem =>
    (Bool.or_eq_false_iff.mp (solid_of_isNumeric (numeric c mem)).1).2
  have edge : ∀ c ∈ Decimal.sign negative ++ (d :: ds ++ tail), isEdge c = false := by
    intro c mem
    have noBlank : c ≠ ' ' := ne_of_not_class (solid_of_isNumeric (numeric c mem)).1 rfl
    rw [isEdge, line c mem, beq_false_of_ne noBlank]
    rfl
  have noHyphen : ('-' == d) = false := beq_false_of_ne (ne_of_class digit rfl).symm
  have noPoint : ('.' == d) = false := beq_false_of_ne (ne_of_class digit rfl).symm
  refine allowsPlain_iff.mpr ⟨?_, fun c mem => isPrintable_of_isNumeric (numeric c mem), line, ?_, ?_,
    ?_, ?_, ?_, hidesIndicator_of_ne fun c mem => (solid_of_isNumeric (numeric c mem)).2⟩
  · exact List.append_ne_nil_of_right_ne_nil _ (List.cons_ne_nil _ _)
  · cases first : (Decimal.sign negative ++ (d :: ds ++ tail)).head? with
    | none => rfl
    | some c => exact edge c (List.mem_of_head? first)
  · cases last : (Decimal.sign negative ++ (d :: ds ++ tail)).getLast? with
    | none => rfl
    | some c => exact edge c (List.mem_of_getLast? last)
  · cases negative with
    | true =>
      show ('-' == '-' && ['-', '-'].isPrefixOf (d :: (ds ++ tail))) = false
      rw [isPrefixOf_cons_of_ne noHyphen, Bool.and_false]
    | false => exact isPrefixOf_cons_of_ne noHyphen
  · cases negative with
    | true => rfl
    | false => exact isPrefixOf_cons_of_ne noPoint
  · cases negative with
    | true =>
      show (indicators.contains '-' || (('-' == '?' || '-' == ':' || '-' == '-') && isSpace d)) = false
      rw [(solid_of_isNumeric (isNumeric_of_isAsciiDigit digit)).1, Bool.and_false]
      rfl
    | false => exact opensOther_of_isAsciiDigit digit

/-! ## Whole numbers -/

/-- The digits to the base ten are the ten characters in a row. -/
theorem digitIn?_ten (c : Char) :
    digitIn? 10 c = if isAsciiDigit c then some (c.toNat - '0'.toNat) else none := by
  unfold digitIn?
  by_cases digit : isAsciiDigit c = true
  · have range : '0' ≤ c ∧ c ≤ '9' := by simpa [isAsciiDigit] using digit
    have small : c.toNat - '0'.toNat < 10 := by
      have := Char.le_def.mp range.2
      have : c.toNat ≤ 57 := this
      show c.toNat - 48 < 10
      omega
    simp only [range, and_self, ↓reduceIte, small, digit]
  · have range : ¬ ('0' ≤ c ∧ c ≤ '9') := by simpa [isAsciiDigit] using digit
    simp only [range, ↓reduceIte, digit]
    refine if_neg ?_
    split
    · omega
    · split <;> omega

/-- Digits denote their number. -/
theorem numberIn?_digits (some : cs ≠ []) (digits : ∀ c ∈ cs, isAsciiDigit c = true) :
    numberIn? 10 cs = .some (digitsValue cs) := by
  have from_any : ∀ n, cs.foldlM (fun n c => (digitIn? 10 c).map (10 * n + ·)) n =
      Option.some (cs.foldl (fun n c => 10 * n + (c.toNat - '0'.toNat)) n) := by
    clear some
    induction cs with
    | nil => exact fun n => rfl
    | cons c cs ih =>
      intro n
      rw [List.foldlM_cons, digitIn?_ten, if_pos (digits c List.mem_cons_self)]
      exact ih (fun d mem => digits d (List.mem_cons_of_mem _ mem)) _
  cases cs with
  | nil => exact absurd rfl some
  | cons c cs => exact from_any 0

/-- Anything else among them denotes none. -/
theorem numberIn?_of_mem {c : Char} (mem : c ∈ cs) (other : isAsciiDigit c = false) :
    numberIn? 10 cs = none := by
  have from_any : ∀ n, cs.foldlM (fun n c => (digitIn? 10 c).map (10 * n + ·)) n = none := by
    induction cs with
    | nil => cases mem
    | cons d ds ih =>
      intro n
      rw [List.foldlM_cons, digitIn?_ten]
      rcases List.mem_cons.mp mem with rfl | mem
      · rw [other]
        rfl
      · cases digit : isAsciiDigit d with
        | true => exact ih mem _
        | false => rfl
  cases cs with
  | nil => cases mem
  | cons d ds => exact from_any 0

namespace Numeral

variable (numeral : Numeral whole tail)

include numeral

/-- A numeral begins with a digit, and behind a zero there is none. -/
theorem first : ∃ d ds, isAsciiDigit d = true ∧ whole ++ tail = d :: ds ∧
    (d = '0' → ∀ c ∈ ds.head?, c = '.' ∨ c = 'e') := by
  obtain ⟨d, ds, split⟩ := List.exists_cons_of_ne_nil numeral.nonempty
  refine ⟨d, ds ++ tail, ?_, by rw [split]; rfl, fun zero => ?_⟩
  · exact numeral.digits d (split ▸ List.mem_cons_self)
  · rw [numeral.leads ds (split.trans (by rw [zero]))]
    exact numeral.ends

theorem takeSign : Decimal.takeSign (Decimal.sign negative ++ (whole ++ tail)) =
    (negative, whole ++ tail) :=
  Decimal.takeSign_sign negative tail numeral.nonempty numeral.digits

/-- No numeral is a zero with more digits behind it. -/
theorem isPaddedDigits_eq :
    isPaddedDigits (Decimal.sign negative ++ (whole ++ tail)) = false := by
  obtain ⟨d, ds, digit, text, zero⟩ := numeral.first
  rw [isPaddedDigits, numeral.takeSign, text]
  split
  next c cs same =>
    obtain ⟨rfl, rfl⟩ := List.cons.inj same
    have other : isAsciiDigit c = false := by
      rcases zero rfl c rfl with rfl | rfl <;> rfl
    rw [List.all_cons, other, Bool.false_and]
  next => rfl

/-- A zero in front of a numeral does not say its base. -/
theorem magnitude?_eq : magnitude? (whole ++ tail) = numberIn? 10 (whole ++ tail) := by
  obtain ⟨d, ds, digit, text, zero⟩ := numeral.first
  rw [text, magnitude?]
  all_goals
    rintro cs same
    obtain ⟨rfl, rfl⟩ := List.cons.inj same
    rcases zero rfl _ rfl with base | base <;> cases base

/-- Only a numeral without a minus is read as a number that is not negative. -/
theorem unsigned?_eq : unsigned? (Decimal.sign negative ++ (whole ++ tail)) =
    if negative then none else numberIn? 10 (whole ++ tail) := by
  rw [unsigned?, numeral.isPaddedDigits_eq, if_neg Bool.false_ne_true]
  cases negative with
  | true => rfl
  | false =>
    obtain ⟨d, ds, digit, text, -⟩ := numeral.first
    have noPlus : d ≠ '+' := ne_of_class digit rfl
    have kept : dropPlus (whole ++ tail) = whole ++ tail := by
      rw [text, dropPlus]
      rintro cs same
      exact noPlus (List.cons.inj same).1
    show magnitude? (dropPlus (whole ++ tail)) = numberIn? 10 (whole ++ tail)
    rw [kept, numeral.magnitude?_eq]

/-- And only one with a minus as a negative one. -/
theorem negative?_eq : negative? (Decimal.sign negative ++ (whole ++ tail)) =
    if negative then numberIn? 10 (whole ++ tail) else none := by
  cases negative with
  | true =>
    have padded : isPaddedDigits (Decimal.sign false ++ (whole ++ tail)) = false :=
      numeral.isPaddedDigits_eq
    show (if isPaddedDigits (whole ++ tail) then none else magnitude? (whole ++ tail)) = _
    rw [show isPaddedDigits (whole ++ tail) = false from padded, if_neg Bool.false_ne_true,
      numeral.magnitude?_eq]
    rfl
  | false =>
    obtain ⟨d, ds, digit, text, -⟩ := numeral.first
    have noMinus : d ≠ '-' := ne_of_class digit rfl
    show negative? (whole ++ tail) = none
    rw [text, negative?]
    rintro cs same
    exact noMinus (List.cons.inj same).1

/-- With a point or an exponent, a numeral is no whole number. -/
theorem whole?_of_cons {c : Char} {cs : List Char} (more : tail = c :: cs) :
    whole? (Decimal.sign negative ++ (whole ++ tail)) = none := by
  have other : isAsciiDigit c = false := by
    rcases numeral.ends c (by rw [more]; rfl) with rfl | rfl <;> rfl
  have mem : c ∈ whole ++ tail := List.mem_append_right _ (more ▸ List.mem_cons_self)
  rw [whole?, numeral.unsigned?_eq, numeral.negative?_eq, numberIn?_of_mem mem other]
  cases negative <;> rfl

end Numeral

theorem numeral_toDigits (n : Nat) : Numeral (Nat.toDigits 10 n) [] :=
  ⟨Nat.toDigits_ne_nil, fun _ => isAsciiDigit_of_mem_toDigits, leads_toDigits n, nofun, nofun⟩

/-- The digits of a number are read as that number. -/
theorem numberIn?_toDigits (n : Nat) : numberIn? 10 (Nat.toDigits 10 n ++ []) = some n := by
  have numeral := numeral_toDigits n
  rw [List.append_nil, numberIn?_digits numeral.nonempty numeral.digits, digitsValue_toDigits]

/-- An integer is printed as its sign and the digits of its size. -/
theorem toList_toString (i : Int) : (toString i).toList =
    Decimal.sign (decide (i < 0)) ++ (Nat.toDigits 10 i.natAbs ++ []) := by
  rw [List.append_nil]
  exact Decimal.toList_toString i

/-- A whole number is read as it is written. -/
theorem whole?_toString {i : Int} (inRange : InWordRange i) :
    whole? (toString i).toList = some i := by
  have numeral := numeral_toDigits i.natAbs
  rw [toList_toString, whole?, numeral.unsigned?_eq, numeral.negative?_eq, numberIn?_toDigits]
  obtain ⟨low, high⟩ := inRange
  by_cases negative : i < 0
  · rw [decide_eq_true negative, if_pos rfl, if_pos rfl]
    have small : i.natAbs ≤ twoTo 127 := Nat.le_trans (by omega) (by decide : 2 ^ 64 ≤ twoTo 127)
    have size : -(i.natAbs : Int) = i := by omega
    simp only [small, ↓reduceIte, size]
  · rw [decide_eq_false negative, if_neg Bool.false_ne_true, if_neg Bool.false_ne_true]
    have small : i.natAbs < twoTo 128 := Nat.lt_of_lt_of_le (by omega) (by decide : 2 ^ 64 ≤ twoTo 128)
    have size : (i.natAbs : Int) = i := by omega
    simp only [small, ↓reduceIte, size]

/-- A word is read as it is written. -/
theorem unsigned?_numberText (n : UInt64) :
    unsigned? (numberText (.ofNat n.toNat)).toList = some n.toNat := by
  have inRange : InWordRange n.toNat := by
    have := n.toNat_lt
    omega
  have number : Number.ofNat n.toNat = .integer n.toNat inRange := by
    rw [Number.ofNat, Number.ofInt?, dif_pos inRange, Option.getD_some]
  have positive : decide ((n.toNat : Int) < 0) = false :=
    decide_eq_false (Int.not_lt.mpr (Int.natCast_nonneg _))
  rw [number, numberText, toList_toString, positive, (numeral_toDigits _).unsigned?_eq,
    numberIn?_toDigits]
  rfl

/-! ## Doubles -/

theorem exponentOf?_lowered (exponent : Option Int) :
    Decimal.exponentOf? (lowered exponent) = some (exponent.getD 0) := by
  cases exponent with
  | none => rfl
  | some e =>
    have digits : ∀ c ∈ Nat.toDigits 10 e.natAbs, isAsciiDigit c = true := fun _ =>
      isAsciiDigit_of_mem_toDigits
    have signed := Decimal.takeSign_sign (decide (e < 0)) [] Nat.toDigits_ne_nil digits
    rw [List.append_nil] at signed
    have all : (Nat.toDigits 10 e.natAbs).all isAsciiDigit = true := List.all_eq_true.mpr digits
    have nonempty : (Nat.toDigits 10 e.natAbs).isEmpty = false :=
      List.isEmpty_eq_false_iff.mpr Nat.toDigits_ne_nil
    rw [lowered, List.cons_append, Decimal.exponentOf?]
    simp only [decide_true, Bool.true_or, ↓reduceIte, signed, all, nonempty, Bool.not_true,
      Bool.or_self, Bool.false_eq_true, digitsValue_toDigits, decide_eq_true_eq, Option.getD_some]
    split
    · rw [show -(e.natAbs : Int) = e from by omega]
    · rw [show (e.natAbs : Int) = e from by omega]

/-- The parts of a number are found in its text. -/
theorem ofText?_spelled {fraction : Option (List Char)} {exponent : Option Int}
    (nonempty : whole ≠ []) (digits : ∀ c ∈ whole, isAsciiDigit c = true)
    (behind : ∀ ds ∈ fraction, ds ≠ [] ∧ ∀ c ∈ ds, isAsciiDigit c = true) :
    Decimal.ofText? (Decimal.sign negative ++ (whole ++ (pointed fraction ++ lowered exponent))) =
      some ⟨negative, digitsValue (whole ++ fraction.getD []),
        exponent.getD 0 - ((fraction.getD []).length : Int)⟩ := by
  have signed := Decimal.takeSign_sign negative (pointed fraction ++ lowered exponent) nonempty digits
  have noDigit : StopsAt isAsciiDigit (lowered exponent) := by
    cases exponent with
    | none => exact Text.stopsAt_nil
    | some e => exact Text.stopsAt_cons rfl
  have wholeEmpty : whole.isEmpty = false := List.isEmpty_eq_false_iff.mpr nonempty
  cases fraction with
  | none =>
    have taken := Text.takeWhile_span digits noDigit
    have left := Text.dropWhile_span digits noDigit
    simp only [pointed, List.nil_append] at signed ⊢
    simp only [Decimal.ofText?, signed, taken, left, wholeEmpty, Bool.false_and,
      Bool.false_eq_true, ↓reduceIte]
    -- There is no point at the start of an exponent.
    cases exponent with
    | none => rfl
    | some e =>
      show (Decimal.exponentOf? (lowered (some e)) >>= _) = _
      rw [exponentOf?_lowered]
      rfl
  | some ds =>
    have stop : StopsAt isAsciiDigit ('.' :: (ds ++ lowered exponent)) := Text.stopsAt_cons rfl
    have taken := Text.takeWhile_span digits stop
    have left := Text.dropWhile_span digits stop
    have taken' := Text.takeWhile_span (behind ds rfl).2 noDigit
    have left' := Text.dropWhile_span (behind ds rfl).2 noDigit
    simp only [pointed, List.cons_append] at signed ⊢
    simp only [Decimal.ofText?, signed, taken, left, taken', left', wholeEmpty, Bool.false_and,
      Bool.false_eq_true, ↓reduceIte, exponentOf?_lowered]
    rfl

/-- A numeral is read as the double nearest to it, as in the other formats. -/
theorem double?_eq (numeral : Numeral whole tail) :
    double? (Decimal.sign negative ++ (whole ++ tail)) =
      Double.ofText? (Decimal.sign negative ++ (whole ++ tail)) := by
  obtain ⟨c, cs, text, noPlus⟩ : ∃ c cs, Decimal.sign negative ++ (whole ++ tail) = c :: cs ∧
      c ≠ '+' := by
    cases negative with
    | true => exact ⟨'-', _, rfl, by decide⟩
    | false =>
      obtain ⟨d, ds, digit, text, -⟩ := numeral.first
      exact ⟨d, ds, text, ne_of_class digit rfl⟩
  have other : ∀ ds, c :: cs ≠ '+' :: ds := fun ds same => noPlus (List.cons.inj same).1
  have kept : dropPlus (c :: cs) = c :: cs := by
    rw [dropPlus]
    exact fun ds same => other ds same
  rw [text, double?, kept]
  · exact fun ds same => other _ same
  · exact fun ds same => other _ same

/-! ## What a number means -/

/-- The words that a scalar without quotes can spell. -/
def words : List String :=
  ["", "null", "Null", "NULL", "~", "true", "True", "TRUE", "false", "False", "FALSE"] ++ notFinite

/-- None of them is a numeral. -/
theorem Numeral.ne_word {s t : String} (numeral : Numeral whole tail)
    (text : s.toList = Decimal.sign negative ++ (whole ++ tail)) (mem : t ∈ words) : s ≠ t := by
  have other : ∀ t ∈ words, (Decimal.takeSign t.toList).2.head?.any isAsciiDigit = false := by
    decide
  rintro rfl
  obtain ⟨d, ds, digit, first, -⟩ := numeral.first
  have := other s mem
  rw [text, numeral.takeSign, first] at this
  exact absurd digit (Bool.eq_false_iff.mp this)

/-- So a plain scalar that is a numeral means a number. -/
theorem meaning_of_numeral {s : String} (numeral : Numeral whole tail)
    (text : s.toList = Decimal.sign negative ++ (whole ++ tail)) : meaning s = numeric s := by
  have word : ∀ t, words.contains t = true → (s == t) = false := fun t known =>
    beq_false_of_ne (numeral.ne_word text (List.contains_iff_mem.mp known))
  have some : s.isEmpty = false := by
    rw [String.isEmpty_eq_false_iff]
    exact numeral.ne_word text (List.contains_iff_mem.mp rfl)
  simp only [meaning, isNullText, boolean?, some, word "null" rfl, word "Null" rfl, word "NULL" rfl,
    word "~" rfl, word "true" rfl, word "True" rfl, word "TRUE" rfl, word "false" rfl,
    word "False" rfl, word "FALSE" rfl, Bool.or_self, Bool.false_eq_true, ↓reduceIte]

/-- A spelled number is a numeral. -/
theorem numeral_of_spells {n : Number} {fraction : Option (List Char)} {exponent : Option Int}
    (spells : Spells n negative whole fraction exponent) :
    Numeral whole (pointed fraction ++ lowered exponent) where
  nonempty := spells.some
  digits := spells.digits
  leads := spells.leads
  ends c first := by
    cases fraction with
    | some ds =>
      cases first
      exact .inl rfl
    | none =>
      cases exponent with
      | some e =>
        cases first
        exact .inr rfl
      | none => cases first
  behind c mem := by
    rcases List.mem_append.mp mem with mem | mem
    · cases fraction with
      | none => cases mem
      | some ds =>
        rcases List.mem_cons.mp mem with rfl | mem
        · rfl
        · exact isNumeric_of_isAsciiDigit ((spells.behind ds rfl).2 c mem)
    · cases exponent with
      | none => cases mem
      | some e =>
        rcases List.mem_append.mp mem with mem | mem
        · rcases List.mem_cons.mp mem with rfl | mem
          · rfl
          · exact isNumeric_of_mem_sign mem
        · exact isNumeric_of_isAsciiDigit (isAsciiDigit_of_mem_toDigits mem)

/-- A number may stand without quotes. -/
theorem allowsPlain_numberText (n : Number) : allowsPlain (numberText n).toList = true := by
  obtain ⟨negative, whole, fraction, exponent, spells, text⟩ := exists_spells n
  rw [text]
  exact (numeral_of_spells spells).allowsPlain negative

/-- **Numbers mean themselves.** -/
theorem meaning_numberText (n : Number) : meaning (numberText n) = .number n := by
  obtain ⟨negative, whole, fraction, exponent, spells, text⟩ := exists_spells n
  have numeral := numeral_of_spells spells
  rw [meaning_of_numeral numeral text, numeric]
  cases n with
  | integer i inRange =>
    have held : Number.ofInt? i = some (.integer i inRange) := dif_pos inRange
    rw [numberText, whole?_toString inRange]
    simp only [held]
  | double x =>
    have rounds : Json.Rounds x negative whole fraction exponent := spells.value
    have real := rounds.real
    obtain ⟨c, cs, tail⟩ : ∃ c cs, pointed fraction ++ lowered exponent = c :: cs := by
      cases fraction with
      | some ds => exact ⟨_, _, rfl⟩
      | none =>
        cases exponent with
        | some e => exact ⟨_, _, rfl⟩
        | none => simp only [ne_eq, not_true_eq_false, or_self] at real
    have noWord : notFinite.contains (numberText (.double x)) = false := by
      rw [List.contains_eq_mem]
      refine decide_eq_false fun mem => ?_
      exact numeral.ne_word text (List.mem_append_right _ mem) rfl
    have read : double? (numberText (.double x)).toList = some x := by
      rw [text, double?_eq numeral, Double.ofText?,
        ofText?_spelled spells.some spells.digits spells.behind]
      exact rounds.nearest
    have padded : isPaddedDigits (numberText (.double x)).toList = false := by
      rw [text]
      exact numeral.isPaddedDigits_eq
    have noWhole : whole? (numberText (.double x)).toList = none := by
      rw [text]
      exact numeral.whole?_of_cons tail
    simp only [noWhole, Yaml.fraction, noWord, padded, read, Bool.false_eq_true, ↓reduceIte]

end Pipework.Yaml
