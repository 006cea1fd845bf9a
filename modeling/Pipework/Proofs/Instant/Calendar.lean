import Mathlib.Data.Int.ConditionallyCompleteOrder
import Mathlib.Order.Monotone.Basic
import Mathlib.Tactic.IntervalCases
import Pipework.Instant

/-!
# The calendar

Dates and days count the same thing. Both directions go through years that begin in March:
`firstOfMonth` counts the days up to a month, the months being numbered through, and a month is as
long as `daysInMonth` says. So `dateOfDays` finds the one date that has the number of days it is
given, and of two dates the later one has more days. Together with the time of day this makes
`civil` and `toInstant` inverse, and `toInstant` strictly monotone.
-/

namespace Pipework.Civil

/-! ## Years and months -/

/-- Where a day stands in its era: so many whole years from March to February, and the days after
them. Only the last year of four has a day 365, and not every fourth one. -/
theorem exists_yearOfEra {d : Int} (nonneg : 0 ≤ d) (bounded : d < 146097) :
    ∃ year day : Int, 0 ≤ year ∧ year < 400 ∧ 0 ≤ day ∧ day ≤ 365 ∧
      d = 365 * year + year / 4 - year / 100 + day ∧
      (day = 365 → (year + 1) % 4 = 0 ∧ ((year + 1) % 100 ≠ 0 ∨ (year + 1) % 400 = 0)) ∧
      (d - d / 1460 + d / 36524 - d / 146096) / 365 = year := by
  by_cases last : d = 146096
  · subst last
    exact ⟨399, 365, by decide⟩
  -- Centuries, then spans of four years, then single years.
  obtain ⟨g, r, rfl, century, r_nonneg, r_lt⟩ : ∃ g r : Int, d = 36524 * g + r ∧
      (g = 0 ∨ g = 1 ∨ g = 2 ∨ g = 3) ∧ 0 ≤ r ∧ r < 36524 :=
    ⟨d / 36524, d % 36524, by omega, by omega, by omega, by omega⟩
  obtain ⟨a, b, rfl, a_nonneg, a_le, b_nonneg, b_lt⟩ : ∃ a b : Int, r = 1461 * a + b ∧
      0 ≤ a ∧ a ≤ 24 ∧ 0 ≤ b ∧ b < 1461 :=
    ⟨r / 1461, r % 1461, by omega, by omega, by omega, by omega, by omega⟩
  obtain ⟨j, day, rfl, single, day_nonneg, day_le, leap⟩ : ∃ j day : Int, b = 365 * j + day ∧
      (j = 0 ∨ j = 1 ∨ j = 2 ∨ j = 3) ∧ 0 ≤ day ∧ day ≤ 365 ∧ (day = 365 → j = 3) := by
    by_cases b = 1460
    · exact ⟨3, 365, by omega, by omega, by omega, by omega, by omega⟩
    · exact ⟨b / 365, b % 365, by omega, by omega, by omega, by omega, by omega⟩
  refine ⟨100 * g + 4 * a + j, day, by omega, by omega, day_nonneg, day_le, ?_, ?_, ?_⟩
  · omega
  · omega
  · rcases single with rfl | rfl | rfl | rfl <;> rcases century with rfl | rfl | rfl | rfl <;> omega

/-- Days from the start of 1970 to the first of a month, the months being numbered through from
March of the year 0. -/
def firstOfMonth (n : Int) : Int :=
  365 * (n / 12) + n / 12 / 4 - n / 12 / 100 + n / 12 / 400 + (153 * (n % 12) + 2) / 5 - 719468

/-- The number of a month. -/
abbrev monthNumber (year : Int) (month : Nat) : Int := 12 * year + month - 3

/-- The days of a date are those up to its month, and those in it. -/
theorem daysOfDate_eq (year : Int) {month : Nat} (day : Nat) (pos : 1 ≤ month) (le : month ≤ 12) :
    daysOfDate year month day = firstOfMonth (monthNumber year month) + day - 1 := by
  simp only [daysOfDate, firstOfMonth, monthNumber]
  split
  · have : (12 * year + month - 3) / 12 = year - 1 := by omega
    have : ((month + 9) % 12 : Nat) = (12 * year + month - 3) % 12 := by omega
    omega
  · have : (12 * year + month - 3) / 12 = year := by omega
    have : ((month + 9) % 12 : Nat) = (12 * year + month - 3) % 12 := by omega
    omega

/-- After a month the next one begins. -/
theorem firstOfMonth_succ (year : Int) {month : Nat} (pos : 1 ≤ month) (le : month ≤ 12) :
    firstOfMonth (monthNumber year month + 1) =
      firstOfMonth (monthNumber year month) + daysInMonth year month := by
  simp only [firstOfMonth, monthNumber, daysInMonth]
  interval_cases month <;> simp only [Nat.reduceEqDiff, ↓reduceIte, or_false, false_or, or_self] <;>
    (try split) <;> omega

theorem daysInMonth_le (year : Int) (month : Nat) : daysInMonth year month ≤ 31 := by
  unfold daysInMonth
  repeat' split
  all_goals decide

theorem firstOfMonth_monotone : Monotone firstOfMonth := by
  refine monotone_int_of_le_succ fun n => ?_
  have number : n = monthNumber ((n + 2) / 12) ((n + 2) % 12 + 1).toNat := by
    unfold monthNumber
    omega
  rw [number, firstOfMonth_succ _ (by omega) (by omega)]
  omega

/-! ## Dates -/

/-- A day that the calendar has. -/
structure IsDate (year : Int) (month day : Nat) : Prop where
  month_pos : 1 ≤ month
  month_le : month ≤ 12
  day_pos : 1 ≤ day
  day_le : day ≤ daysInMonth year month

/-- The month and the day of a day of the year, counted from March. The last day of all is in a
leap year. -/
theorem isDate_of_dayOfYear (year : Int) {day index month : Int} (nonneg : 0 ≤ day) (le : day ≤ 365)
    (leap : day = 365 → (year + 1) % 4 = 0 ∧ ((year + 1) % 100 ≠ 0 ∨ (year + 1) % 400 = 0))
    (index_eq : index = (5 * day + 2) / 153)
    (month_eq : month = if index < 10 then index + 3 else index - 9) :
    IsDate (year + if month ≤ 2 then 1 else 0) month.toNat
      (day - (153 * index + 2) / 5 + 1).toNat := by
  have index_nonneg : 0 ≤ index := by omega
  have index_lt : index < 12 := by omega
  subst month_eq
  interval_cases index <;> refine ⟨by decide, by decide, by omega, ?_⟩ <;>
    simp +decide only [daysInMonth, ↓reduceIte] <;> (try split) <;> omega

/-- Every number of days is that of a date. -/
theorem exists_date (days : Int) : ∃ year month day, dateOfDays days = (year, month, day) ∧
    IsDate year month day ∧ daysOfDate year month day = days := by
  obtain ⟨y, doy, y_nonneg, y_lt, doy_nonneg, doy_le, place, leap, y_eq⟩ :=
    exists_yearOfEra (d := (days + 719468) % 146097) (by omega) (by omega)
  obtain ⟨era, era_eq⟩ : ∃ era, era = (days + 719468) / 146097 := ⟨_, rfl⟩
  obtain ⟨index, index_eq⟩ : ∃ index, index = (5 * doy + 2) / 153 := ⟨_, rfl⟩
  obtain ⟨month, month_eq⟩ : ∃ month, month = if index < 10 then index + 3 else index - 9 :=
    ⟨_, rfl⟩
  have doy_eq : (days + 719468) % 146097 - (365 * y + y / 4 - y / 100) = doy := by omega
  have isDate := isDate_of_dayOfYear (y + era * 400) doy_nonneg doy_le (by omega) index_eq month_eq
  refine ⟨_, _, _, ?_, isDate, ?_⟩
  · simp only [dateOfDays, y_eq, doy_eq, ← index_eq, ← month_eq, ← era_eq]
  · clear y_eq
    rw [daysOfDate_eq _ _ isDate.month_pos isDate.month_le, firstOfMonth]
    have := isDate.day_pos
    have number : monthNumber (y + era * 400 + if month ≤ 2 then 1 else 0) month.toNat =
        12 * (y + era * 400) + index := by
      unfold monthNumber
      split at month_eq <;> split <;> omega
    have year : (12 * (y + era * 400) + index) / 12 = y + era * 400 := by omega
    have rest : (12 * (y + era * 400) + index) % 12 = index := by omega
    have fours : (y + era * 400) / 4 = y / 4 + era * 100 := by omega
    have hundreds : (y + era * 400) / 100 = y / 100 + era * 4 := by omega
    have eras : (y + era * 400) / 400 = era := by omega
    rw [number, year, rest, fours, hundreds, eras]
    omega

/-- A date in an earlier month, or earlier in the same month, has fewer days. -/
theorem daysOfDate_lt {y y' : Int} {m m' d d' : Nat} (date : IsDate y m d) (date' : IsDate y' m' d')
    (before : y < y' ∨ y = y' ∧ (m < m' ∨ m = m' ∧ d < d')) :
    daysOfDate y m d < daysOfDate y' m' d' := by
  rw [daysOfDate_eq y d date.month_pos date.month_le,
    daysOfDate_eq y' d' date'.month_pos date'.month_le]
  obtain ⟨month_pos, month_le, -, day_le⟩ := date
  obtain ⟨month_pos', month_le', day_pos', -⟩ := date'
  by_cases same : y = y' ∧ m = m'
  · obtain ⟨rfl, rfl⟩ := same
    omega
  · have later : monthNumber y m + 1 ≤ monthNumber y' m' := by
      unfold monthNumber
      omega
    have := firstOfMonth_monotone later
    rw [firstOfMonth_succ y month_pos month_le] at this
    omega

/-! ## Dates with times -/

/-- A date of the calendar with a time of day. -/
structure Proper (c : Civil) : Prop where
  date : IsDate c.year c.month c.day
  hour_lt : c.hour < 24
  minute_lt : c.minute < 60
  second_lt : c.second < 60
  nanosecond_lt : c.nanosecond < 1000000000

/-- The first part in which two dates with times differ is smaller in this one. -/
def Before (a b : Civil) : Prop :=
  a.year < b.year ∨ a.year = b.year ∧ (a.month < b.month ∨ a.month = b.month ∧
    (a.day < b.day ∨ a.day = b.day ∧ (a.hour < b.hour ∨ a.hour = b.hour ∧
      (a.minute < b.minute ∨ a.minute = b.minute ∧ (a.second < b.second ∨ a.second = b.second ∧
        a.nanosecond < b.nanosecond)))))

theorem before_trichotomy (a b : Civil) : Before a b ∨ a = b ∨ Before b a := by
  obtain ⟨year, month, day, hour, minute, second, nanosecond⟩ := a
  obtain ⟨year', month', day', hour', minute', second', nanosecond'⟩ := b
  simp only [Before, Civil.mk.injEq]
  omega

/-- What comes before by its parts is the earlier instant. -/
theorem toInstant_lt {a b : Civil} (ha : Proper a) (hb : Proper b) (before : Before a b) :
    a.toInstant.nanoseconds < b.toInstant.nanoseconds := by
  obtain ⟨date, hour_lt, minute_lt, second_lt, nanosecond_lt⟩ := ha
  have date' := hb.date
  simp only [toInstant]
  by_cases same : a.year = b.year ∧ a.month = b.month ∧ a.day = b.day
  · obtain ⟨year, month, day⟩ := same
    rw [year, month, day]
    unfold Before at before
    omega
  · have days : daysOfDate a.year a.month a.day < daysOfDate b.year b.month b.day := by
      refine daysOfDate_lt date date' ?_
      unfold Before at before
      omega
    omega

end Pipework.Civil

namespace Pipework.Instant

/-- The date and time of an instant, and back. -/
theorem civil_spec (t : Instant) : t.civil.Proper ∧ t.civil.toInstant = t := by
  obtain ⟨nanoseconds⟩ := t
  obtain ⟨seconds, seconds_eq⟩ : ∃ seconds, seconds = nanoseconds / 1000000000 := ⟨_, rfl⟩
  obtain ⟨rest, rest_eq⟩ : ∃ rest : Nat, rest = (seconds % 86400).toNat := ⟨_, rfl⟩
  obtain ⟨year, month, day, date_eq, date, days_eq⟩ := Civil.exists_date (seconds / 86400)
  have civil_eq : civil ⟨nanoseconds⟩ = ⟨year, month, day, rest / 3600, rest / 60 % 60, rest % 60,
      (nanoseconds % 1000000000).toNat⟩ := by
    simp only [civil, ← seconds_eq, ← rest_eq, date_eq]
  rw [civil_eq]
  refine ⟨⟨date, ?_, ?_, ?_, ?_⟩, ?_⟩
  · show rest / 3600 < 24
    omega
  · show rest / 60 % 60 < 60
    omega
  · show rest % 60 < 60
    omega
  · show (nanoseconds % 1000000000).toNat < 1000000000
    omega
  · simp only [Civil.toInstant, days_eq, Instant.mk.injEq]
    omega

theorem proper_civil (t : Instant) : t.civil.Proper := t.civil_spec.1

theorem toInstant_civil (t : Instant) : t.civil.toInstant = t := t.civil_spec.2

/-- The earlier instant comes before by the parts of its date and time. -/
theorem before_civil {a b : Instant} (earlier : a.nanoseconds < b.nanoseconds) :
    Civil.Before a.civil b.civil := by
  rcases Civil.before_trichotomy a.civil b.civil with before | same | behind
  · exact before
  · have : a = b := by rw [← a.toInstant_civil, same, b.toInstant_civil]
    rw [this] at earlier
    exact absurd earlier (Int.lt_irrefl _)
  · have later := Civil.toInstant_lt b.proper_civil a.proper_civil behind
    rw [toInstant_civil, toInstant_civil] at later
    exact absurd later (Int.lt_asymm earlier)

end Pipework.Instant
