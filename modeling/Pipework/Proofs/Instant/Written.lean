import Mathlib.Data.String.Basic
import Pipework.Proofs.Instant.Calendar
import Pipework.Proofs.Number.Numeral
import Pipework.Proofs.Text.Span

/-!
# Written instants

The text of an instant is read back as it was written, and of two texts with the same offset the one
of the earlier instant sorts first. The first fact goes field by field; so does the second, since
all fields before the fraction have a fixed width in the years of four digits. Fractions have
different lengths: what follows them sorts before every digit, so that a shorter fraction sorts as
if it were filled up with zeros.
-/

namespace Pipework

/-! ## Digits in order -/

/-- The order of two texts is settled before what follows them. -/
theorem append_lt_append_of_length {a b : List Char} (length : a.length = b.length) (lt : a < b)
    {r s : List Char} : a ++ r < b ++ s := by
  induction a generalizing b with
  | nil =>
    obtain rfl : b = [] := List.eq_nil_of_length_eq_zero length.symm
    exact absurd lt (List.lt_irrefl _)
  | cons c cs ih =>
    cases b with
    | nil => cases length
    | cons d ds =>
      rw [List.cons_append, List.cons_append, List.cons_lt_cons_iff]
      refine (List.cons_lt_cons_iff.mp lt).imp_right fun ⟨same, lt⟩ => ⟨same, ?_⟩
      exact ih (Nat.succ.inj length) lt

/-- Digits of one length sort as the numbers they denote. -/
theorem lt_of_digitsValue_lt {a b : List Char} (length : a.length = b.length)
    (ha : ∀ c ∈ a, isAsciiDigit c = true) (hb : ∀ c ∈ b, isAsciiDigit c = true)
    (lt : digitsValue a < digitsValue b) : a < b := by
  induction a generalizing b with
  | nil =>
    obtain rfl : b = [] := List.eq_nil_of_length_eq_zero length.symm
    exact absurd lt (Nat.lt_irrefl _)
  | cons c cs ih =>
    cases b with
    | nil => cases length
    | cons d ds =>
      have shorter : cs.length = ds.length := Nat.succ.inj length
      have ha' : ∀ x ∈ cs, isAsciiDigit x = true := fun x mem => ha x (List.mem_cons_of_mem _ mem)
      have hb' : ∀ x ∈ ds, isAsciiDigit x = true := fun x mem => hb x (List.mem_cons_of_mem _ mem)
      rw [digitsValue_cons, digitsValue_cons, shorter] at lt
      rw [List.cons_lt_cons_iff]
      rcases Nat.lt_trichotomy c.toNat d.toNat with less | same | more
      · exact .inl less
      · obtain rfl := Char.toNat_inj.mp same
        exact .inr ⟨rfl, ih shorter ha' hb' (Nat.lt_of_add_lt_add_left lt)⟩
      · have ⟨d_ge, _⟩ := isAsciiDigit_iff.mp (hb d List.mem_cons_self)
        have step : d.toNat - '0'.toNat + 1 ≤ c.toNat - '0'.toNat := by omega
        have larger := Nat.mul_le_mul_right (10 ^ ds.length) step
        have rest := digitsValue_lt hb'
        rw [Nat.succ_mul] at larger
        omega

/-! ## Numbers of a fixed width -/

/-- The characters of a number of a fixed width. -/
theorem toList_padded (width n : Nat) : (padded width n).toList =
    List.replicate (width - (Nat.toDigits 10 n).length) '0' ++ Nat.toDigits 10 n := by
  rw [padded, String.toList_ofList]

theorem isAsciiDigit_of_mem_padded {width n : Nat} {c : Char} (mem : c ∈ (padded width n).toList) :
    isAsciiDigit c = true := by
  rw [toList_padded] at mem
  rcases List.mem_append.mp mem with mem | mem
  · exact Decimal.isAsciiDigit_of_mem_zeros mem
  · exact isAsciiDigit_of_mem_toDigits mem

theorem digitsValue_padded (width n : Nat) : digitsValue (padded width n).toList = n := by
  rw [toList_padded, digitsValue_zeros_append, digitsValue_toDigits]

theorem length_padded {width n : Nat} (pos : 0 < width) (small : n < 10 ^ width) :
    (padded width n).toList.length = width := by
  have := (Nat.length_toDigits_le_iff (by decide) pos).mpr small
  rw [toList_padded, List.length_append, List.length_replicate]
  omega

/-- Texts that begin with numbers of one width sort by the numbers, and then by what follows. -/
theorem padded_append_lt {width m n : Nat} {r s : List Char} (hm : m < 10 ^ width)
    (hn : n < 10 ^ width) (lt : m < n ∨ m = n ∧ r < s) :
    (padded width m).toList ++ r < (padded width n).toList ++ s := by
  rcases lt with lt | ⟨rfl, lt⟩
  · have pos : 0 < width := by
      rcases Nat.eq_zero_or_pos width with rfl | pos
      · omega
      · exact pos
    have length := (length_padded pos hm).trans (length_padded pos hn).symm
    refine append_lt_append_of_length length (lt_of_digitsValue_lt length ?_ ?_ ?_)
    · exact fun c => isAsciiDigit_of_mem_padded
    · exact fun c => isAsciiDigit_of_mem_padded
    · rwa [digitsValue_padded, digitsValue_padded]
  · exact List.append_left_lt lt

/-- The same with a separator behind the numbers. -/
theorem field_lt {width m n : Nat} {r s : List Char} {separator : Char} (hm : m < 10 ^ width)
    (hn : n < 10 ^ width) (lt : m < n ∨ m = n ∧ r < s) :
    (padded width m).toList ++ separator :: r < (padded width n).toList ++ separator :: s := by
  refine padded_append_lt hm hn (lt.imp_right fun ⟨same, lt⟩ => ⟨same, ?_⟩)
  exact List.cons_lt_cons_iff.mpr (.inr ⟨rfl, lt⟩)

/-! ## Fractions -/

namespace Civil

/-- A fraction is absent if there is none, and otherwise as many digits as have to be filled up with
zeros to give nine. -/
theorem fractionText_cases {c : Civil} (small : c.nanosecond < 1000000000) :
    c.nanosecond = 0 ∧ c.fractionText.toList = [] ∨
      ∃ digits k, c.fractionText.toList = '.' :: digits ∧ digits ≠ [] ∧ digits.length + k = 9 ∧
        (∀ d ∈ digits, isAsciiDigit d = true) ∧ digitsValue digits * 10 ^ k = c.nanosecond := by
  have written (width : Nat) {n : Nat} (pos : 0 < width) (small : n < 10 ^ width) :
      ("." ++ padded width n).toList = '.' :: (padded width n).toList ∧
        (padded width n).toList ≠ [] ∧ (padded width n).toList.length = width := by
    have length := length_padded pos small
    refine ⟨by rw [String.toList_append]; rfl, ?_, length⟩
    intro none
    rw [none] at length
    exact absurd length.symm (Nat.ne_of_gt pos)
  unfold fractionText
  by_cases zero : c.nanosecond = 0
  · exact .inl ⟨zero, by rw [if_pos zero]; rfl⟩
  rw [if_neg zero]
  right
  by_cases thousandths : c.nanosecond % 1000000 = 0
  · obtain ⟨text, some, length⟩ := written 3 (n := c.nanosecond / 1000000) (by decide) (by omega)
    rw [if_pos thousandths]
    refine ⟨_, 6, text, some, by rw [length], fun _ => isAsciiDigit_of_mem_padded, ?_⟩
    rw [digitsValue_padded]
    omega
  rw [if_neg thousandths]
  by_cases millionths : c.nanosecond % 1000 = 0
  · obtain ⟨text, some, length⟩ := written 6 (n := c.nanosecond / 1000) (by decide) (by omega)
    rw [if_pos millionths]
    refine ⟨_, 3, text, some, by rw [length], fun _ => isAsciiDigit_of_mem_padded, ?_⟩
    rw [digitsValue_padded]
    omega
  · obtain ⟨text, some, length⟩ := written 9 (n := c.nanosecond) (by decide) small
    rw [if_neg millionths]
    refine ⟨_, 0, text, some, by rw [length], fun _ => isAsciiDigit_of_mem_padded, ?_⟩
    rw [digitsValue_padded]
    omega

end Civil

/-- No digits sort before zeros. -/
theorem not_lt_zeros {digits : List Char} {k : Nat} (length : digits.length = k)
    (all : ∀ c ∈ digits, isAsciiDigit c = true) : ¬ digits < List.replicate k '0' := by
  induction digits generalizing k with
  | nil =>
    obtain rfl : 0 = k := length
    exact List.lt_irrefl _
  | cons c cs ih =>
    obtain rfl : cs.length + 1 = k := length
    have ⟨ge, _⟩ := isAsciiDigit_iff.mp (all c List.mem_cons_self)
    rw [List.replicate_succ, List.cons_lt_cons_iff]
    rintro (less | ⟨-, lt⟩)
    · exact absurd less (Nat.not_lt.mpr ge)
    · exact ih rfl (fun d mem => all d (List.mem_cons_of_mem _ mem)) lt

/-- Digits that end earlier sort as if they were filled up with zeros, since the sign behind them
sorts before every digit. -/
theorem append_plus_lt {a b : List Char} {k l : Nat} (length : a.length + k = b.length + l)
    (ha : ∀ c ∈ a, isAsciiDigit c = true) (hb : ∀ c ∈ b, isAsciiDigit c = true)
    (lt : a ++ List.replicate k '0' < b ++ List.replicate l '0') {r s : List Char} :
    a ++ '+' :: r < b ++ '+' :: s := by
  induction a generalizing b with
  | nil =>
    cases b with
    | nil =>
      obtain rfl : k = l := by simpa using length
      exact absurd lt (List.lt_irrefl _)
    | cons d ds =>
      have ⟨ge, _⟩ := isAsciiDigit_iff.mp (hb d List.mem_cons_self)
      exact List.cons_lt_cons_iff.mpr (.inl (Nat.lt_of_lt_of_le (by decide) ge))
  | cons c cs ih =>
    cases b with
    | nil =>
      refine absurd lt (not_lt_zeros ?_ ?_)
      · rw [List.length_append, List.length_replicate, length, List.length_nil, Nat.zero_add]
      · intro d mem
        rcases List.mem_append.mp mem with mem | mem
        · exact ha d mem
        · exact Decimal.isAsciiDigit_of_mem_zeros mem
    | cons d ds =>
      rw [List.cons_append, List.cons_append, List.cons_lt_cons_iff] at lt ⊢
      refine lt.imp_right fun ⟨same, lt⟩ => ⟨same, ih ?_ ?_ ?_ lt⟩
      · rw [List.length_cons, List.length_cons] at length
        omega
      · exact fun x mem => ha x (List.mem_cons_of_mem _ mem)
      · exact fun x mem => hb x (List.mem_cons_of_mem _ mem)

/-- Fractions before an offset sort by what they denote. -/
theorem fractionText_lt {a b : Civil} (ha : a.nanosecond < 1000000000)
    (hb : b.nanosecond < 1000000000) (lt : a.nanosecond < b.nanosecond) {r s : List Char} :
    a.fractionText.toList ++ '+' :: r < b.fractionText.toList ++ '+' :: s := by
  rcases Civil.fractionText_cases hb with ⟨zero, -⟩ | ⟨ds, l, text, -, length, digits, value⟩
  · omega
  rcases Civil.fractionText_cases ha with ⟨-, text'⟩ | ⟨ds', k, text', -, length', digits', value'⟩
  · rw [text, text']
    exact List.cons_lt_cons_iff.mpr (.inl (by decide))
  · rw [text, text', List.cons_append, List.cons_append, List.cons_lt_cons_iff]
    refine .inr ⟨rfl, append_plus_lt (length'.trans length.symm) digits' digits ?_⟩
    refine lt_of_digitsValue_lt ?_ ?_ ?_ ?_
    · simp only [List.length_append, List.length_replicate, length, length']
    · exact fun c mem => (List.mem_append.mp mem).elim (digits' c) Decimal.isAsciiDigit_of_mem_zeros
    · exact fun c mem => (List.mem_append.mp mem).elim (digits c) Decimal.isAsciiDigit_of_mem_zeros
    · rwa [digitsValue_append_zeros, digitsValue_append_zeros, value, value']

/-- All parts of a proper time but year and fraction have two digits. -/
theorem Civil.Proper.small {c : Civil} (proper : c.Proper) : c.month < 10 ^ 2 ∧ c.day < 10 ^ 2 ∧
    c.hour < 10 ^ 2 ∧ c.minute < 10 ^ 2 ∧ c.second < 10 ^ 2 := by
  obtain ⟨⟨-, month_le, -, day_le⟩, hour_lt, minute_lt, second_lt, -⟩ := proper
  have := Civil.daysInMonth_le c.year c.month
  omega

/-! ## Order -/

namespace Instant

/-- The characters of an instant. -/
theorem toList_textIn (zone : String) (t : Instant) : (t.textIn zone).toList =
    (Civil.yearText t.civil.year).toList ++ '-' :: ((padded 2 t.civil.month).toList ++
      '-' :: ((padded 2 t.civil.day).toList ++ 'T' :: ((padded 2 t.civil.hour).toList ++
        ':' :: ((padded 2 t.civil.minute).toList ++ ':' :: ((padded 2 t.civil.second).toList ++
          (t.civil.fractionText.toList ++ zone.toList)))))) := by
  have dash : "-".toList = ['-'] := rfl
  have colon : ":".toList = [':'] := rfl
  have mark : "T".toList = ['T'] := rfl
  simp only [textIn, Civil.dateText, Civil.timeText, String.toList_append, dash, colon, mark,
    List.append_assoc, List.cons_append, List.nil_append]

/-- The year of the instant has four digits and no sign. -/
def HasPlainYear (t : Instant) : Prop := 0 ≤ t.civil.year ∧ t.civil.year ≤ 9999

instance (t : Instant) : Decidable t.HasPlainYear :=
  inferInstanceAs (Decidable (_ ∧ _))

theorem yearText_of_plain {t : Instant} (plain : t.HasPlainYear) :
    Civil.yearText t.civil.year = padded 4 t.civil.year.toNat :=
  if_pos plain

theorem toList_offset : "+00:00".toList = ['+', '0', '0', ':', '0', '0'] := rfl

/-- The text of the earlier instant sorts first. -/
theorem offsetText_lt {a b : Instant} (ha : a.HasPlainYear) (hb : b.HasPlainYear)
    (earlier : a.nanoseconds < b.nanoseconds) : a.offsetText < b.offsetText := by
  have before := before_civil earlier
  have pa := a.proper_civil
  have pb := b.proper_civil
  obtain ⟨month, day, hour, minute, second⟩ := pa.small
  obtain ⟨month', day', hour', minute', second'⟩ := pb.small
  rw [offsetText, offsetText, String.lt_iff_toList_lt, toList_textIn, toList_textIn,
    yearText_of_plain ha, yearText_of_plain hb]
  unfold HasPlainYear at ha hb
  -- Field by field: either the fields differ, or they are the same and the rest decides.
  refine field_lt (by omega) (by omega)
    (before.imp (by omega) (And.imp (congrArg _) fun before => ?_))
  refine field_lt month month' (before.imp_right (And.imp_right fun before => ?_))
  refine field_lt day day' (before.imp_right (And.imp_right fun before => ?_))
  refine field_lt hour hour' (before.imp_right (And.imp_right fun before => ?_))
  refine field_lt minute minute' (before.imp_right (And.imp_right fun before => ?_))
  refine padded_append_lt second second' (before.imp_right (And.imp_right fun lt => ?_))
  rw [toList_offset]
  exact fractionText_lt pa.nanosecond_lt pb.nanosecond_lt lt

/-- The texts of instants sort as the instants. -/
theorem offsetText_le_iff {a b : Instant} (ha : a.HasPlainYear) (hb : b.HasPlainYear) :
    a.offsetText ≤ b.offsetText ↔ a.nanoseconds ≤ b.nanoseconds := by
  constructor
  · intro le
    refine Int.not_lt.mp fun later => ?_
    exact absurd le (not_le.mpr (offsetText_lt hb ha later))
  · intro le
    rcases Int.lt_or_eq_of_le le with earlier | same
    · exact le_of_lt (offsetText_lt ha hb earlier)
    · obtain rfl : a = b := congrArg mk same
      exact le_rfl

/-! ## Reading -/

/-- A number of a fixed width is taken off as it is written. -/
theorem takeDigits?_padded {width n : Nat} (pos : 0 < width) (small : n < 10 ^ width)
    (rest : List Char) : takeDigits? width ((padded width n).toList ++ rest) = some (n, rest) := by
  have length := length_padded pos small
  have taken : ((padded width n).toList ++ rest).take width = (padded width n).toList :=
    List.take_left' length
  have left : ((padded width n).toList ++ rest).drop width = rest := List.drop_left' length
  have digits : (padded width n).toList.all isAsciiDigit = true :=
    List.all_eq_true.mpr fun _ => isAsciiDigit_of_mem_padded
  simp only [takeDigits?, taken, left, length, digits, digitsValue_padded, and_self, ↓reduceIte]

/-- A number of a fixed width begins with a digit. -/
theorem head_padded {width n : Nat} (pos : 0 < width) (small : n < 10 ^ width) {c : Char}
    {rest cs : List Char} (text : (padded width n).toList ++ rest = c :: cs) :
    isAsciiDigit c = true := by
  rcases List.append_eq_cons_iff.mp text with ⟨none, -⟩ | ⟨_, some, -⟩
  · have length := length_padded pos small
    rw [none] at length
    exact absurd length (Nat.ne_of_lt pos)
  · exact isAsciiDigit_of_mem_padded (some ▸ List.mem_cons_self)

/-- Digits behind a sign are taken off as they are written. -/
theorem takeYear?_signed (sign : Int) (year : Nat) {rest : List Char}
    (stop : Text.StopsAt isAsciiDigit rest) :
    takeYear?.signed sign ((padded 4 year).toList ++ rest) = some (sign * year, rest) := by
  have digits : ∀ c ∈ (padded 4 year).toList, isAsciiDigit c = true :=
    fun _ => isAsciiDigit_of_mem_padded
  have some : (padded 4 year).toList.isEmpty = false := by
    rw [List.isEmpty_eq_false_iff, toList_padded]
    exact List.append_ne_nil_of_right_ne_nil _ Nat.toDigits_ne_nil
  simp only [takeYear?.signed, Text.takeWhile_span digits stop, Text.dropWhile_span digits stop,
    some, digitsValue_padded, Bool.false_eq_true, ↓reduceIte]

/-- A year is taken off as it is written, with its sign if it has one. -/
theorem takeYear?_yearText (year : Int) {rest : List Char} (stop : Text.StopsAt isAsciiDigit rest) :
    takeYear? ((Civil.yearText year).toList ++ rest) = some (year, rest) := by
  unfold Civil.yearText
  by_cases plain : 0 ≤ year ∧ year ≤ 9999
  · have small : year.toNat < 10 ^ 4 := by omega
    have taken := takeDigits?_padded (by decide) small rest
    rw [if_pos plain]
    unfold takeYear?
    split
    next sign => exact absurd (head_padded (by decide) small sign) (by decide)
    next sign => exact absurd (head_padded (by decide) small sign) (by decide)
    next => simp only [taken, Option.map_some, Int.toNat_of_nonneg plain.1]
  · have plus : "+".toList = ['+'] := rfl
    have minus : "-".toList = ['-'] := rfl
    rw [if_neg plain, String.toList_append, List.append_assoc]
    by_cases negative : year < 0
    · rw [if_pos negative, minus, List.singleton_append, takeYear?, takeYear?_signed _ _ stop]
      rw [show -1 * (year.natAbs : Int) = year by omega]
    · rw [if_neg negative, plus, List.singleton_append, takeYear?, takeYear?_signed _ _ stop]
      rw [show 1 * (year.natAbs : Int) = year by omega]

/-- A fraction is taken off as it is written. -/
theorem takeFraction?_fractionText {c : Civil} (small : c.nanosecond < 1000000000)
    {rest : List Char} (stop : Text.StopsAt isAsciiDigit rest) (point : rest.head? ≠ some '.') :
    takeFraction? (c.fractionText.toList ++ rest) = some (c.nanosecond, rest) := by
  rcases Civil.fractionText_cases small with
    ⟨zero, text⟩ | ⟨digits, k, text, some, length, all, value⟩
  · rw [text, zero, List.nil_append]
    unfold takeFraction?
    split
    · exact absurd rfl point
    · rfl
  · have nine : (digits ++ List.replicate 9 '0').take 9 = digits ++ List.replicate k '0' := by
      obtain rfl : k = 9 - digits.length := by omega
      rw [List.take_append, List.take_of_length_le (by omega), List.take_replicate,
        Nat.min_eq_left (by omega)]
    rw [text, List.cons_append]
    simp only [takeFraction?, Text.takeWhile_span all stop, Text.dropWhile_span all stop, nine,
      digitsValue_append_zeros, value, List.isEmpty_eq_false_iff.mpr some, Bool.false_eq_true,
      ↓reduceIte]

/-- The text of an instant is read as that instant, whichever of its names universal time has. -/
theorem ofText?_textIn {zone : String} (stop : Text.StopsAt isAsciiDigit zone.toList)
    (point : zone.toList.head? ≠ some '.') (universal : zoneSeconds? zone.toList = some 0)
    (t : Instant) : ofText? (t.textIn zone) = some t := by
  have proper := t.proper_civil
  have whole := t.toInstant_civil
  rw [ofText?, toList_textIn]
  generalize t.civil = c at proper whole ⊢
  obtain ⟨month, day, hour, minute, second⟩ := proper.small
  obtain ⟨⟨month_pos, month_le, day_pos, day_le⟩, hour_lt, minute_lt, second_lt, small⟩ := proper
  have pos : 0 < 2 := by decide
  have stop' (rest : List Char) : Text.StopsAt isAsciiDigit ('-' :: rest) := Text.stopsAt_cons rfl
  have inRange : 1 ≤ c.month ∧ c.month ≤ 12 ∧ 1 ≤ c.day ∧
      c.day ≤ Civil.daysInMonth c.year c.month ∧ c.hour < 24 ∧ c.minute < 60 ∧ c.second < 60 :=
    ⟨month_pos, month_le, day_pos, day_le, hour_lt, minute_lt, second_lt⟩
  refine Option.bind_eq_some_iff.mpr ⟨_, takeYear?_yearText _ (stop' _), ?_⟩
  refine Option.bind_eq_some_iff.mpr ⟨_, rfl, ?_⟩
  refine Option.bind_eq_some_iff.mpr ⟨_, takeDigits?_padded pos month _, ?_⟩
  refine Option.bind_eq_some_iff.mpr ⟨_, rfl, ?_⟩
  refine Option.bind_eq_some_iff.mpr ⟨_, takeDigits?_padded pos day _, ?_⟩
  refine Option.bind_eq_some_iff.mpr ⟨_, rfl, ?_⟩
  refine Option.bind_eq_some_iff.mpr ⟨_, takeDigits?_padded pos hour _, ?_⟩
  refine Option.bind_eq_some_iff.mpr ⟨_, rfl, ?_⟩
  refine Option.bind_eq_some_iff.mpr ⟨_, takeDigits?_padded pos minute _, ?_⟩
  refine Option.bind_eq_some_iff.mpr ⟨_, rfl, ?_⟩
  refine Option.bind_eq_some_iff.mpr ⟨_, takeDigits?_padded pos second _, ?_⟩
  refine Option.bind_eq_some_iff.mpr ⟨_, takeFraction?_fractionText small stop point, ?_⟩
  refine Option.bind_eq_some_iff.mpr ⟨_, universal, ?_⟩
  refine (if_pos inRange).trans ?_
  simp only [whole, Int.zero_mul, Int.sub_zero]

/-- The text with an offset is read back. -/
theorem ofText?_offsetText (t : Instant) : ofText? t.offsetText = some t := by
  refine ofText?_textIn ?_ ?_ ?_ t <;> rw [toList_offset]
  · exact Text.stopsAt_cons rfl
  · decide
  · rfl

end Instant

end Pipework
