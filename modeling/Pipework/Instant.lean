import Pipework.Number.Decimal

/-!
# Instants

A point in time, counted in nanoseconds from the start of 1970 in universal
time, and its calendar form. Days are converted to dates and back in the
calendar that repeats every 400 years, with years that begin in March, so that
the leap day comes last.

The text of an instant has a fraction of no, three, six or nine digits, as few
as keep it exact.
-/

namespace Pipework

/-- Nanoseconds since the start of 1970, universal time. -/
structure Instant where
  nanoseconds : Int
  deriving DecidableEq, Repr, Inhabited

/-- A number with zeros in front, up to a width. -/
def padded (width n : Nat) : String :=
  let digits := Nat.toDigits 10 n
  String.ofList (List.replicate (width - digits.length) '0' ++ digits)

/-- A date and a time of day. -/
structure Civil where
  year : Int
  month : Nat
  day : Nat
  hour : Nat
  minute : Nat
  second : Nat
  nanosecond : Nat
  deriving DecidableEq, Repr

namespace Civil

/-- Days from the start of 1970 to a date. -/
def daysOfDate (year : Int) (month day : Nat) : Int :=
  let year := if month ≤ 2 then year - 1 else year
  let era := year / 400
  let yearOfEra := year % 400
  let monthIndex := (month + 9) % 12
  let dayOfYear : Int := (153 * monthIndex + 2) / 5 + day - 1
  let dayOfEra := yearOfEra * 365 + yearOfEra / 4 - yearOfEra / 100 + dayOfYear
  era * 146097 + dayOfEra - 719468

/-- Year, month and day of a number of days from the start of 1970. -/
def dateOfDays (days : Int) : Int × Nat × Nat :=
  let days := days + 719468
  let era := days / 146097
  let dayOfEra := days % 146097
  let yearOfEra := (dayOfEra - dayOfEra / 1460 + dayOfEra / 36524 - dayOfEra / 146096) / 365
  let dayOfYear := dayOfEra - (365 * yearOfEra + yearOfEra / 4 - yearOfEra / 100)
  let monthIndex := (5 * dayOfYear + 2) / 153
  let day := dayOfYear - (153 * monthIndex + 2) / 5 + 1
  let month := if monthIndex < 10 then monthIndex + 3 else monthIndex - 9
  let year := yearOfEra + era * 400 + if month ≤ 2 then 1 else 0
  (year, month.toNat, day.toNat)

/-- The instant of a date and time in universal time. -/
def toInstant (c : Civil) : Instant :=
  let seconds := daysOfDate c.year c.month c.day * 86400 + c.hour * 3600 + c.minute * 60 + c.second
  ⟨seconds * 1000000000 + c.nanosecond⟩

/-- How many days a month has. -/
def daysInMonth (year : Int) (month : Nat) : Nat :=
  if month = 2 then
    if year % 4 = 0 ∧ (year % 100 ≠ 0 ∨ year % 400 = 0) then 29 else 28
  else if month = 4 ∨ month = 6 ∨ month = 9 ∨ month = 11 then 30
  else 31

/-- A year, with a sign when it does not have four digits. -/
def yearText (year : Int) : String :=
  if 0 ≤ year ∧ year ≤ 9999 then padded 4 year.toNat
  else (if year < 0 then "-" else "+") ++ padded 4 year.natAbs

def dateText (c : Civil) : String :=
  yearText c.year ++ "-" ++ padded 2 c.month ++ "-" ++ padded 2 c.day

def timeText (c : Civil) : String :=
  padded 2 c.hour ++ ":" ++ padded 2 c.minute ++ ":" ++ padded 2 c.second

/-- The fraction of a second, in as few groups of three digits as keep it exact. -/
def fractionText (c : Civil) : String :=
  if c.nanosecond = 0 then ""
  else if c.nanosecond % 1000000 = 0 then "." ++ padded 3 (c.nanosecond / 1000000)
  else if c.nanosecond % 1000 = 0 then "." ++ padded 6 (c.nanosecond / 1000)
  else "." ++ padded 9 c.nanosecond

end Civil

namespace Instant

/-- Date and time in universal time. -/
def civil (t : Instant) : Civil :=
  let seconds := t.nanoseconds / 1000000000
  let days := seconds / 86400
  let rest := (seconds % 86400).toNat
  let (year, month, day) := Civil.dateOfDays days
  ⟨year, month, day, rest / 3600, rest / 60 % 60, rest % 60, (t.nanoseconds % 1000000000).toNat⟩

/-- The instant as text, with the given name for universal time at the end. -/
def textIn (zone : String) (t : Instant) : String :=
  let c := t.civil
  c.dateText ++ "T" ++ c.timeText ++ c.fractionText ++ zone

/-- The instant as documents write it. -/
def text (t : Instant) : String := t.textIn "Z"

/-- The instant with a numeric offset. -/
def offsetText (t : Instant) : String := t.textIn "+00:00"

/-- Date and time to the second, for listings. -/
def listingText (t : Instant) : String :=
  t.civil.dateText ++ " " ++ t.civil.timeText

/-- Time of day to the millisecond, for log lines. -/
def clockText (t : Instant) : String :=
  t.civil.timeText ++ "." ++ padded 3 (t.civil.nanosecond / 1000000)

/-- Whole milliseconds from one instant to another, rounded toward zero. -/
def millisecondsTo (start finish : Instant) : Int :=
  Int.tdiv (finish.nanoseconds - start.nanoseconds) 1000000

/-! ## Reading -/

/-- A number of exactly so many digits. -/
def takeDigits? (width : Nat) (cs : List Char) : Option (Nat × List Char) :=
  let digits := cs.take width
  if digits.length = width ∧ digits.all isAsciiDigit then some (digitsValue digits, cs.drop width)
  else none

/-- A year: four digits, or a sign and any number of digits. -/
def takeYear? : List Char → Option (Int × List Char)
  | '+' :: cs => signed 1 cs
  | '-' :: cs => signed (-1) cs
  | cs => (takeDigits? 4 cs).map fun (year, cs) => ((year : Int), cs)
where
  signed (sign : Int) (cs : List Char) : Option (Int × List Char) :=
    let digits := cs.takeWhile isAsciiDigit
    if digits.isEmpty then none
    else some (sign * digitsValue digits, cs.dropWhile isAsciiDigit)

/-- The fraction of a second in nanoseconds; digits beyond the ninth are dropped. -/
def takeFraction? : List Char → Option (Nat × List Char)
  | '.' :: cs =>
    let digits := cs.takeWhile isAsciiDigit
    if digits.isEmpty then none
    else
      let nine := (digits ++ List.replicate 9 '0').take 9
      some (digitsValue nine, cs.dropWhile isAsciiDigit)
  | cs => some (0, cs)

/-- The offset from universal time in seconds, which must be all that is left. -/
def zoneSeconds? : List Char → Option Int
  | ['Z'] | ['z'] => some 0
  | c :: cs => do
    let sign : Int ← if c = '+' then some 1 else if c = '-' then some (-1) else none
    let (hours, cs) ← takeDigits? 2 cs
    let cs ← match cs with
      | ':' :: cs => some cs
      | _ => none
    let (minutes, cs) ← takeDigits? 2 cs
    if cs.isEmpty ∧ hours < 24 ∧ minutes < 60 then
      some (sign * (hours * 3600 + minutes * 60))
    else none
  | [] => none

/-- What is left after one of the given characters. -/
def takeOne? (allowed : List Char) : List Char → Option (List Char)
  | c :: cs => if allowed.contains c then some cs else none
  | [] => none

/-- The instant that a text gives by date, time and offset. -/
def ofText? (s : String) : Option Instant := do
  let (year, cs) ← takeYear? s.toList
  let (month, cs) ← takeDigits? 2 (← takeOne? ['-'] cs)
  let (day, cs) ← takeDigits? 2 (← takeOne? ['-'] cs)
  let (hour, cs) ← takeDigits? 2 (← takeOne? ['T', 't', ' '] cs)
  let (minute, cs) ← takeDigits? 2 (← takeOne? [':'] cs)
  let (second, cs) ← takeDigits? 2 (← takeOne? [':'] cs)
  let (nanosecond, cs) ← takeFraction? cs
  let offset ← zoneSeconds? cs
  if 1 ≤ month ∧ month ≤ 12 ∧ 1 ≤ day ∧ day ≤ Civil.daysInMonth year month ∧
      hour < 24 ∧ minute < 60 ∧ second < 60 then
    let here := Civil.toInstant ⟨year, month, day, hour, minute, second, nanosecond⟩
    some ⟨here.nanoseconds - offset * 1000000000⟩
  else none

end Instant

end Pipework
