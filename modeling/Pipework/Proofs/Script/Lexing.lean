import Pipework.Proofs.Number.Numeral
import Pipework.Proofs.Script.Expressible
import Pipework.Proofs.Script.Scanning
import Pipework.Proofs.Text.Classes
import Pipework.Script.Print

/-!
# Scanning what was written

`Yields before cs ls` says that a scan of `cs` behind the character `before` gives the lexemes `ls`,
wherever the text stands. There is one rule for each kind of piece: a piece in front of a text that
yields lexemes yields its own lexeme in front of them, if the text does not go on with the piece.
What was written is scanned by putting these rules together along its parts.

Only a boolean looks at the character before it, which must not touch it.
-/

namespace Pipework.Script

/-! ## Pieces in front of a text -/

/-- A scan of the text behind the character gives these lexemes, wherever the text stands. -/
def Yields (before : Option Char) (cs : List Char) (ls : List Lexeme) : Prop :=
  ∀ position, ∃ ts, scanFrom position before cs = .ok ts ∧ lexemes ts = ls

/-- The end of a text yields the mark of the end. -/
theorem yields_nil (before : Option Char) : Yields before [] [.finish] := by
  intro position
  rw [scanFrom]
  exact ⟨_, rfl, rfl⟩

/-- A lexeme in front of a text. -/
theorem Yields.lexeme {before : Option Char} {c : Char} (raw : List Char) {rest : List Char}
    {l : Lexeme} {ls : List Lexeme}
    (found : pieceAt before c (raw ++ rest) = some (.lexeme l, raw.length))
    (behind : Yields (c :: raw).getLast? rest ls) : Yields before (c :: raw ++ rest) (l :: ls) := by
  intro position
  obtain ⟨ts, scanned, rfl⟩ := behind (position.advance (c :: raw))
  refine ⟨⟨l, position⟩ :: ts, ?_, rfl⟩
  refine scanFrom_cons_eq_ok.mpr ⟨_, _, ts, found, ?_, .inr ⟨l, rfl, rfl⟩⟩
  rw [List.append_eq, List.take_left, List.drop_left]
  exact scanned

/-- Trivia in front of a text. -/
theorem Yields.trivia {before : Option Char} {c : Char} (raw : List Char) {rest : List Char}
    {ls : List Lexeme}
    (found : pieceAt before c (raw ++ rest) = some (.trivia, raw.length))
    (behind : Yields (c :: raw).getLast? rest ls) : Yields before (c :: raw ++ rest) ls := by
  intro position
  obtain ⟨ts, scanned, rfl⟩ := behind (position.advance (c :: raw))
  refine ⟨ts, scanFrom_cons_eq_ok.mpr ⟨_, _, ts, found, ?_, .inl ⟨rfl, rfl⟩⟩, rfl⟩
  rw [List.append_eq, List.take_left, List.drop_left]
  exact scanned

/-! ## Marks -/

/-- A mark is one whatever stands behind it. -/
theorem Yields.mark {before : Option Char} {rest : List Char} {ls : List Lexeme} (m : Mark)
    (behind : Yields (some m.char) rest ls) : Yields before (m.char :: rest) (.mark m :: ls) := by
  refine Yields.lexeme [] ?_ behind
  simp only [pieceAt, ofChar?_char, List.length_nil]

/-! ## Spellings of numbers -/

/-- The spelling of a number behind its sign. -/
def unsigned? (sign cs : List Char) : Option (List Char) :=
  match cs.takeWhile Text.isDigit, cs.dropWhile Text.isDigit with
  | [], _ => none
  | whole, '.' :: rest => some (sign ++ whole ++ '.' :: rest.takeWhile Text.isDigit)
  | whole, _ => some (sign ++ whole)

theorem numeral?_minus (cs : List Char) : numeral? ('-' :: cs) = unsigned? ['-'] cs := rfl

/-- What does not begin with a minus has no sign. -/
theorem numeral?_of_ne_minus {c : Char} (minus : c ≠ '-') (cs : List Char) :
    numeral? (c :: cs) = unsigned? [] (c :: cs) := by
  unfold numeral?
  split
  next h =>
    split at h
    next same => exact absurd (List.cons.inj same).1 minus
    next => cases h; rfl

/-- Without a digit there is no number. -/
theorem numeral?_eq_none {c : Char} {cs : List Char} (minus : c ≠ '-')
    (digit : Text.isDigit c = false) : numeral? (c :: cs) = none := by
  have none : (c :: cs).takeWhile Text.isDigit = [] := by
    rw [List.takeWhile_cons, digit, if_neg Bool.false_ne_true]
  rw [numeral?_of_ne_minus minus]
  simp only [unsigned?, none]

/-- Digits alone are the spelling of a number, if neither a digit nor a point is behind them. -/
theorem unsigned?_whole {sign whole rest : List Char} (some : whole ≠ [])
    (digits : ∀ c ∈ whole, Text.isDigit c = true) (stop : Text.StopsAt Text.isDigit rest)
    (point : rest.head? ≠ .some '.') : unsigned? sign (whole ++ rest) = .some (sign ++ whole) := by
  simp only [unsigned?, Text.takeWhile_span digits stop, Text.dropWhile_span digits stop]
  split
  · exact absurd rfl some
  · exact absurd rfl point
  · rfl

/-- Digits, a point and digits are the spelling of a number, if no digit is behind them. -/
theorem unsigned?_point {sign whole fraction rest : List Char} (some : whole ≠ [])
    (digits : ∀ c ∈ whole, Text.isDigit c = true)
    (digits' : ∀ c ∈ fraction, Text.isDigit c = true) (stop : Text.StopsAt Text.isDigit rest) :
    unsigned? sign (whole ++ '.' :: (fraction ++ rest)) =
      .some (sign ++ whole ++ '.' :: fraction) := by
  have point : Text.StopsAt Text.isDigit ('.' :: (fraction ++ rest)) :=
    Text.stopsAt_cons (by decide +kernel)
  simp only [unsigned?, Text.takeWhile_span digits point, Text.dropWhile_span digits point]
  rw [Text.takeWhile_span digits' stop]

/-- A sign in front of digits is the sign of a number. -/
theorem numeral?_sign (negative : Bool) {whole : List Char} (rest : List Char)
    (some : whole ≠ []) (digits : ∀ c ∈ whole, isAsciiDigit c = true) :
    numeral? (Decimal.sign negative ++ (whole ++ rest)) =
      unsigned? (Decimal.sign negative) (whole ++ rest) := by
  cases negative with
  | true => exact numeral?_minus _
  | false =>
    cases whole with
    | nil => exact absurd rfl some
    | cons c cs =>
      have digit := digits c List.mem_cons_self
      exact numeral?_of_ne_minus (by rintro rfl; cases digit) _

/-! ## Numbers -/

/-- Does this character go on with a value that stands before it? -/
def goesOn (c : Char) : Bool :=
  touches c || c == '.'

/-- Behind a value nothing goes on with a word or a digit, and no point follows. -/
theorem stops_of_goesOn {rest : List Char} (stop : Text.StopsAt goesOn rest) :
    Text.StopsAt isWordChar rest ∧ Text.StopsAt Text.isDigit rest ∧ Text.StopsAt touches rest ∧
      rest.head? ≠ some '.' := by
  have parts : ∀ c, rest.head? = some c →
      (isWordChar c = false ∧ Text.isDigit c = false) ∧ (c == '.') = false := by
    intro c h
    simpa only [goesOn, touches, Bool.or_eq_false_iff] using stop c h
  refine ⟨fun c h => (parts c h).1.1, fun c h => (parts c h).1.2, fun c h => ?_, fun h => ?_⟩
  · rw [touches, (parts c h).1.1, (parts c h).1.2, Bool.or_self]
  · exact absurd (parts '.' h).2 (by decide)

/-- May a number begin with this character? -/
def isNumeralStart (c : Char) : Bool :=
  c == '-' || isAsciiDigit c

/-- The spelling of a number in front of a text that does not go on with it. -/
theorem Yields.numeral {before : Option Char} {raw rest : List Char} {n : Number}
    {ls : List Lexeme} (first : ∃ c cs, raw = c :: cs ∧ isNumeralStart c = true)
    (spelling : numeral? (raw ++ rest) = some raw) (value : numeralValue? raw = some n)
    (behind : ∀ before, Yields before rest ls) : Yields before (raw ++ rest) (.number n :: ls) := by
  obtain ⟨c, cs, rfl, start⟩ := first
  obtain ⟨noMark, noQuote⟩ := undecided start (by decide +kernel)
  refine Yields.lexeme _ ?_ (behind _)
  rw [List.cons_append] at spelling
  simp only [pieceAt, noMark, noQuote, ↓reduceIte, spelling, value, spelledPiece,
    List.length_cons, Nat.add_sub_cancel]

theorem exists_numeralStart (negative : Bool) {whole : List Char} (more : List Char)
    (some : whole ≠ []) (digits : ∀ c ∈ whole, isAsciiDigit c = true) :
    ∃ c cs, Decimal.sign negative ++ (whole ++ more) = c :: cs ∧ isNumeralStart c = true := by
  cases negative with
  | true => exact ⟨'-', whole ++ more, rfl, rfl⟩
  | false =>
    cases whole with
    | nil => exact absurd rfl some
    | cons c cs =>
      refine ⟨c, cs ++ more, rfl, ?_⟩
      rw [isNumeralStart, digits c List.mem_cons_self, Bool.or_true]

/-- The spelling of a whole number that fits has the number as its value. -/
theorem numeralValue?_integer {i : Int} (inRange : InWordRange i) (fits : i < 9223372036854775808) :
    numeralValue? (Decimal.sign (i < 0) ++ Nat.toDigits 10 i.natAbs) =
      some (.integer i inRange) := by
  have digits : ∀ c ∈ Nat.toDigits 10 i.natAbs, isAsciiDigit c = true :=
    fun c => isAsciiDigit_of_mem_toDigits
  have all : (Nat.toDigits 10 i.natAbs).all isAsciiDigit = true := List.all_eq_true.mpr digits
  have signed := Decimal.takeSign_sign (decide (i < 0)) [] Nat.toDigits_ne_nil digits
  rw [List.append_nil] at signed
  have value : (if decide (i < 0) = true then -((i.natAbs : Nat) : Int) else i.natAbs) = i := by
    split
    next negative => have := of_decide_eq_true negative; omega
    next positive => have : ¬ i < 0 := fun h => positive (decide_eq_true h); omega
  have range : -9223372036854775808 ≤ i ∧ i < 9223372036854775808 := ⟨inRange.1, fits⟩
  simp only [numeralValue?, signed, all, ↓reduceIte, digitsValue_toDigits, value, range,
    and_self, Number.ofInt?]
  exact dif_pos inRange

/-- A spelling with a point has the double that it rounds to as its value. -/
theorem numeralValue?_double {negative : Bool} {whole fraction : List Char} {x : Double}
    (some : whole ≠ []) (digits : ∀ c ∈ whole ++ fraction, isAsciiDigit c = true)
    (rounds : Decimal.toDouble? ⟨negative, digitsValue (whole ++ fraction),
      -(fraction.length : Int)⟩ = .some x) :
    numeralValue? (Decimal.sign negative ++ (whole ++ '.' :: fraction)) = .some (.double x) := by
  have point : (whole ++ '.' :: fraction).all isAsciiDigit = false := by
    simp [isAsciiDigit]
  have read : Double.ofText? (Decimal.sign negative ++ (whole ++ '.' :: fraction)) = .some x := by
    rw [Double.ofText?, Decimal.ofText?_point _ some digits, Option.bind_some, rounds]
  have signed := Decimal.takeSign_sign negative ('.' :: fraction) some
    fun c mem => digits c (List.mem_append_left _ mem)
  simp only [numeralValue?, signed, point, Bool.false_eq_true, ↓reduceIte, read, Option.map_some]

/-- A whole number is read as it was written. -/
theorem yields_integer {before : Option Char} {i : Int} {rest : List Char} {ls : List Lexeme}
    (inRange : InWordRange i) (fits : i < 9223372036854775808) (stop : Text.StopsAt goesOn rest)
    (behind : ∀ before, Yields before rest ls) :
    Yields before ((toString i).toList ++ rest) (.number (.integer i inRange) :: ls) := by
  obtain ⟨-, noDigit, -, noPoint⟩ := stops_of_goesOn stop
  have digits : ∀ c ∈ Nat.toDigits 10 i.natAbs, isAsciiDigit c = true :=
    fun c => isAsciiDigit_of_mem_toDigits
  have some : Nat.toDigits 10 i.natAbs ≠ [] := Nat.toDigits_ne_nil
  have first := exists_numeralStart (decide (i < 0)) [] some digits
  rw [List.append_nil] at first
  rw [Decimal.toList_toString]
  refine Yields.numeral first ?_ (numeralValue?_integer inRange fits) behind
  rw [List.append_assoc, numeral?_sign _ _ some digits]
  exact unsigned?_whole some (fun c mem => Text.isDigit_of_isAsciiDigit (digits c mem)) noDigit
    noPoint

/-- A double is read as it was written: the places behind the point are all there, so it rounds to
itself. -/
theorem yields_double {before : Option Char} {x : Double} {rest : List Char} {ls : List Lexeme}
    (stop : Text.StopsAt goesOn rest) (behind : ∀ before, Yields before rest ls) :
    Yields before ((x.toDecimal.text numberLayout).toList ++ rest) (.number (.double x) :: ls) := by
  obtain ⟨-, noDigit, -, -⟩ := stops_of_goesOn stop
  obtain ⟨whole, fraction, written, some, digits, rounds⟩ :=
    Decimal.exists_splits x.toDecimal.digits x.toDecimal.exponent
  have digitsBefore : ∀ c ∈ whole, isAsciiDigit c = true :=
    fun c mem => digits c (List.mem_append_left _ mem)
  have digitsBehind : ∀ c ∈ fraction, Text.isDigit c = true :=
    fun c mem => Text.isDigit_of_isAsciiDigit (digits c (List.mem_append_right _ mem))
  rw [numberLayout, Decimal.toList_text, written]
  refine Yields.numeral (exists_numeralStart _ _ some digitsBefore) ?_ ?_ behind
  · rw [List.append_assoc, List.append_assoc, numeral?_sign _ _ some digitsBefore,
      List.cons_append, unsigned?_point some
        (fun c mem => Text.isDigit_of_isAsciiDigit (digitsBefore c mem)) digitsBehind noDigit,
      List.append_assoc]
  · refine numeralValue?_double some digits ?_
    rw [rounds]
    exact x.toDouble?_toDecimal

/-- A number is read as it was written. -/
theorem yields_number {before : Option Char} {n : Number} {rest : List Char} {ls : List Lexeme}
    (fits : n.Fits) (stop : Text.StopsAt goesOn rest) (behind : ∀ before, Yields before rest ls) :
    Yields before ((numberText n).toList ++ rest) (.number n :: ls) := by
  cases n with
  | integer i inRange => exact yields_integer inRange fits stop behind
  | double x => exact yields_double stop behind

/-! ## Words and booleans -/

/-- What begins as a word is neither a mark, nor a text, nor a number. -/
theorem pieceAt_of_isWordStart {before : Option Char} {c : Char} {cs : List Char}
    (start : isWordStart c = true) : pieceAt before c cs = some (wordPiece before c cs) := by
  obtain ⟨noMark, noQuote⟩ := undecided start (by decide +kernel)
  have noNumber : numeral? (c :: cs) = none :=
    numeral?_eq_none (by rintro rfl; cases start) (isDigit_of_isWordStart start)
  simp only [pieceAt, noMark, noQuote, noNumber, start, ↓reduceIte]

/-- The characters of a word, the first of them apart. -/
theorem exists_isWordStart {name : String} (word : isWord name = true) :
    ∃ c cs, name.toList = c :: cs ∧ isWordStart c = true ∧ ∀ d ∈ cs, isWordChar d = true := by
  unfold isWord at word
  split at word
  · cases word
  next c cs split =>
    simp only [Bool.and_eq_true, List.all_eq_true] at word
    exact ⟨c, cs, split, word.1, word.2⟩

/-- A word that spells no boolean, in front of a text that does not go on with it. -/
theorem Yields.word {before : Option Char} {name : String} {rest : List Char} {ls : List Lexeme}
    (bare : isBareWord name = true) (stop : Text.StopsAt isWordChar rest)
    (behind : ∀ before, Yields before rest ls) :
    Yields before (name.toList ++ rest) (.word name :: ls) := by
  simp only [isBareWord, Bool.and_eq_true, Option.isNone_iff_eq_none] at bare
  obtain ⟨c, cs, split, start, chars⟩ := exists_isWordStart bare.1
  have spelled : String.ofList (c :: cs) = name := by rw [← split, String.ofList_toList]
  rw [split]
  refine Yields.lexeme _ ?_ (behind _)
  rw [pieceAt_of_isWordStart start]
  simp only [wordPiece, Text.takeWhile_span chars stop, spelled, bare.2, spelledPiece,
    List.length_cons, Nat.add_sub_cancel]

/-- A boolean that nothing touches. -/
theorem Yields.bool {before : Option Char} {b : Bool} {rest : List Char} {ls : List Lexeme}
    (alone : before.any touches = false) (stop : Text.StopsAt goesOn rest)
    (behind : ∀ before, Yields before rest ls) :
    Yields before ((if b then "true" else "false").toList ++ rest) (.bool b :: ls) := by
  obtain ⟨noWord, -, untouched, -⟩ := stops_of_goesOn stop
  have aloneBehind : rest.head?.any touches = false := by
    cases head : rest.head? with
    | none => rfl
    | some c => exact untouched c head
  have found : ∀ {c : Char} {cs : List Char}, isWordStart c = true →
      cs.all isWordChar = true → boolean? (String.ofList (c :: cs)) = some b →
      pieceAt before c (cs ++ rest) = some (.lexeme (.bool b), cs.length) := by
    intro c cs start all spelled
    have chars := List.all_eq_true.mp all
    rw [pieceAt_of_isWordStart start]
    simp only [wordPiece, Text.takeWhile_span chars noWord, Text.dropWhile_span chars noWord,
      spelled, alone, aloneBehind, Bool.not_false, Bool.and_self, ↓reduceIte, spelledPiece,
      List.length_cons, Nat.add_sub_cancel]
  cases b with
  | true =>
    exact Yields.lexeme ['r', 'u', 'e'] (found (by decide) (by decide) (by decide))
      (behind _)
  | false =>
    exact Yields.lexeme ['a', 'l', 's', 'e'] (found (by decide) (by decide) (by decide))
      (behind _)

/-! ## Texts -/

/-- Inside a text, a character that means nothing there stands for itself. -/
theorem quotedBody_cons {c : Char} {cs : List Char} (quote : c ≠ '"') (escape : c ≠ '\\')
    (more : cs ≠ []) : quotedBody '"' (c :: cs) = (quotedBody '"' cs).map (c :: ·) := by
  cases cs with
  | nil => exact absurd rfl more
  | cons d cs => simp only [quotedBody, quote, escape, ↓reduceIte]

theorem quotedBody_quote (cs : List Char) : quotedBody '"' ('"' :: cs) = some [] := by
  cases cs <;> rfl

/-- A text ends where it was ended when it was quoted. -/
theorem quotedBody_quoted (s rest : List Char) :
    quotedBody '"' (s.flatMap quoteChar ++ '"' :: rest) = some (s.flatMap quoteChar) := by
  induction s with
  | nil => exact quotedBody_quote rest
  | cons c s ih =>
    rw [List.flatMap_cons, List.append_assoc]
    by_cases special : c = '"' ∨ c = '\\'
    · have line : c ≠ '\n' := by rintro rfl; revert special; decide
      simp only [quoteChar, special, ↓reduceIte, List.cons_append, List.nil_append]
      rw [quotedBody.eq_3]
      simp only [Char.reduceEq, ↓reduceIte, line, ih, Option.map_some]
    · simp only [quoteChar, special, ↓reduceIte, List.cons_append, List.nil_append]
      rw [not_or] at special
      rw [quotedBody_cons special.1 special.2
        (fun none => List.cons_ne_nil _ _ (List.append_eq_nil_iff.mp none).2), ih, Option.map_some]

/-- Taking the escapes back leaves the text that was quoted. -/
theorem unescape_quoted (s : List Char) : unescape (s.flatMap quoteChar) = s := by
  induction s with
  | nil => rfl
  | cons c s ih =>
    rw [List.flatMap_cons]
    by_cases special : c = '"' ∨ c = '\\'
    · simp only [quoteChar, special, ↓reduceIte, List.cons_append, List.nil_append]
      have escaped : (c = '"' || c = '\'' || c = '\\') = true := by
        rcases special with rfl | rfl <;> decide
      rw [unescape, if_pos escaped, ih]
    · simp only [quoteChar, special, ↓reduceIte, List.cons_append, List.nil_append]
      rw [not_or] at special
      rw [unescape.eq_2 _ _ fun _ _ h _ => special.2 h, ih]

/-- A text is read as it was quoted, whatever stands behind it. -/
theorem Yields.quote {before : Option Char} {s : String} {rest : List Char} {ls : List Lexeme}
    (behind : ∀ before, Yields before rest ls) :
    Yields before (Script.quote s ++ rest) (.text s :: ls) := by
  have split : Script.quote s = '"' :: (s.toList.flatMap quoteChar ++ ['"']) := rfl
  rw [split]
  refine Yields.lexeme _ ?_ (behind _)
  have body := quotedBody_quoted s.toList rest
  have noMark : Mark.ofChar? '"' = none := by decide
  rw [List.append_assoc, List.singleton_append]
  simp only [pieceAt, noMark, true_or, ↓reduceIte, body, Option.map_some, unescape_quoted,
    String.ofList_toList, List.length_append, List.length_singleton]

/-! ## Blanks and comments -/

/-- A blank and those behind it are trivia. -/
theorem pieceAt_of_isBlank {before : Option Char} {c : Char} {cs : List Char}
    (blank : Text.isBlank c = true) :
    pieceAt before c cs = some (.trivia, (cs.takeWhile Text.isBlank).length) := by
  obtain ⟨noMark, noQuote⟩ := undecided blank (by decide +kernel)
  have noNumber : numeral? (c :: cs) = none :=
    numeral?_eq_none (by rintro rfl; cases blank) (isDigit_of_isBlank blank)
  have noWord : isWordStart c = false := isWordStart_of_isBlank blank
  simp only [pieceAt, noMark, noQuote, noNumber, noWord, Bool.false_eq_true, blank, ↓reduceIte]

/-- A blank in front of a text changes nothing: it is trivia alone, or with the blanks that the text
begins with. -/
theorem Yields.blank {before : Option Char} {c : Char} {rest : List Char} {ls : List Lexeme}
    (blank : Text.isBlank c = true) (behind : Yields (some c) rest ls) :
    Yields before (c :: rest) ls := by
  cases rest with
  | nil => exact Yields.trivia [] (pieceAt_of_isBlank blank) behind
  | cons d rest =>
    by_cases more : Text.isBlank d = true
    · -- The blanks are one piece, with this one or without it, so both scans go on alike behind them.
      intro position
      obtain ⟨ts, scanned, rfl⟩ := behind (position.next c)
      obtain ⟨piece, extra, ts', found, after, taken⟩ := scanFrom_cons_eq_ok.mp scanned
      rw [pieceAt_of_isBlank more] at found
      cases found
      obtain rfl : ts = ts' := by
        rcases taken with ⟨-, rfl⟩ | ⟨l, h, _⟩
        · rfl
        · cases h
      refine ⟨ts, ?_, rfl⟩
      refine scanFrom_cons_eq_ok.mpr ⟨_, _, ts, pieceAt_of_isBlank blank, ?_, .inl ⟨rfl, rfl⟩⟩
      rw [List.takeWhile_cons, if_pos more]
      exact after
    · refine Yields.trivia [] ?_ behind
      rw [pieceAt_of_isBlank blank]
      simp only [List.nil_append, List.takeWhile_cons, more, Bool.false_eq_true, ↓reduceIte]

/-- A hash and what stands behind it on its line are trivia. -/
theorem pieceAt_hash {before : Option Char} (cs : List Char) :
    pieceAt before '#' cs = some (.trivia, (cs.takeWhile (· != '\n')).length) := by
  have noMark : Mark.ofChar? '#' = none := by decide
  have noNumber : numeral? ('#' :: cs) = none := numeral?_eq_none (by decide) (by decide +kernel)
  have noWord : isWordStart '#' = false := by decide
  have noBlank : Text.isBlank '#' = false := by decide
  simp only [pieceAt, noMark, noNumber, noWord, noBlank, Char.reduceEq, or_self, Bool.false_eq_true,
    ↓reduceIte]

/-- A comment goes on to the end of its line. -/
theorem Yields.comment {before : Option Char} {text rest : List Char} {ls : List Lexeme}
    (line : '\n' ∉ text) (ends : Text.StopsAt (· != '\n') rest)
    (behind : ∀ before, Yields before rest ls) : Yields before ('#' :: text ++ rest) ls := by
  have chars : ∀ c ∈ text, (c != '\n') = true :=
    fun c mem => bne_iff_ne.mpr fun same => line (same ▸ mem)
  refine Yields.trivia _ ?_ (behind _)
  rw [pieceAt_hash, Text.takeWhile_span chars ends]

end Pipework.Script
