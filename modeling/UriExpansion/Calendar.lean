/-
UriExpansion/Calendar.lean

Dates, times of day and moments of the proleptic Gregorian calendar, and
their ISO 8601 text.

A `TimeOfDay` and a `Moment` may carry an offset from universal time in
seconds east.  Days are counted from 1 January of the year 1, which is a
Monday.
-/
import UriExpansion.Text

namespace UriExpansion

/-- A calendar date. -/
structure Date where
  year : Nat
  month : Nat
  day : Nat
  deriving DecidableEq, Repr, Inhabited

/-- A time of day without an offset. -/
structure Clock where
  hour : Nat
  minute : Nat
  second : Nat
  microsecond : Nat
  deriving DecidableEq, Repr, Inhabited

/-- A time of day, possibly with an offset. -/
structure TimeOfDay where
  clock : Clock
  offset : Option Int
  deriving DecidableEq, Repr, Inhabited

/-- A date and a time of day, possibly with an offset. -/
structure Moment where
  date : Date
  clock : Clock
  offset : Option Int
  deriving DecidableEq, Repr, Inhabited

namespace Date

/-- Every fourth year is a leap year, except centuries not divisible by 400. -/
def isLeap (year : Nat) : Bool :=
  year % 4 = 0 && (year % 100 ≠ 0 || year % 400 = 0)

/-- The number of days of a month. -/
def daysIn (year month : Nat) : Nat :=
  if month = 2 then (if isLeap year then 29 else 28)
  else if month = 4 ∨ month = 6 ∨ month = 9 ∨ month = 11 then 30
  else 31

/-- Whether there is such a date in the years 1 to 9999. -/
def isValid (d : Date) : Bool :=
  1 ≤ d.year && d.year ≤ 9999 && 1 ≤ d.month && d.month ≤ 12
    && 1 ≤ d.day && d.day ≤ daysIn d.year d.month

/-- The day of the year, counted from 1. -/
def dayOfYear (d : Date) : Nat :=
  (List.range (d.month - 1)).foldl (fun n m => n + daysIn d.year (m + 1)) d.day

/-- The number of days before a year. -/
def daysBefore (year : Nat) : Nat :=
  let y := year - 1
  365 * y + y / 4 - y / 100 + y / 400

/-- The day counted from 1 January of the year 1, which is day 1. -/
def ordinal (d : Date) : Nat := daysBefore d.year + d.dayOfYear

/-- The day of the week, Monday being 0. -/
def weekday (d : Date) : Nat := (d.ordinal + 6) % 7

/-- The ISO 8601 year and week: weeks begin on Monday, and the first week of a
year is the one with its first Thursday. -/
def isoWeek (d : Date) : Nat × Nat :=
  let week : Int := ((d.dayOfYear : Int) - (d.weekday + 1) + 10) / 7
  let weeksIn := fun year =>
    let first := (Date.mk year 1 1).weekday
    if first = 3 ∨ (first = 2 ∧ isLeap year) then 53 else 52
  if week < 1 then (d.year - 1, weeksIn (d.year - 1))
  else if (weeksIn d.year : Int) < week then (d.year + 1, 1)
  else (d.year, week.toNat)

/-- `YYYY-MM-DD`. -/
def toText (d : Date) : Text :=
  Text.padded 4 d.year ++ lit "-" ++ Text.padded 2 d.month ++ lit "-" ++ Text.padded 2 d.day

end Date

namespace Clock

/-- Midnight. -/
def midnight : Clock := ⟨0, 0, 0, 0⟩

/-- Whether there is such a time. -/
def isValid (c : Clock) : Bool :=
  c.hour < 24 && c.minute < 60 && c.second < 60 && c.microsecond < 1000000

/-- `HH:MM:SS`, with six decimal places if the fraction is not zero. -/
def toText (c : Clock) : Text :=
  Text.padded 2 c.hour ++ lit ":" ++ Text.padded 2 c.minute ++ lit ":" ++ Text.padded 2 c.second
    ++ (if c.microsecond = 0 then [] else lit "." ++ Text.padded 6 c.microsecond)

/-- Microseconds since midnight. -/
def total (c : Clock) : Nat :=
  ((c.hour * 60 + c.minute) * 60 + c.second) * 1000000 + c.microsecond

end Clock

/-- `±HH` and `MM` with `mark` between them, and `SS` after another `mark` if
it is not zero. -/
def offsetText (mark : Text) (offset : Int) : Text :=
  let n := offset.natAbs
  (if offset < 0 then lit "-" else lit "+") ++ Text.padded 2 (n / 3600) ++ mark
    ++ Text.padded 2 (n / 60 % 60)
    ++ (if n % 60 = 0 then [] else mark ++ Text.padded 2 (n % 60))

namespace TimeOfDay

/-- The time in ISO 8601 form. -/
def toText (t : TimeOfDay) : Text :=
  t.clock.toText ++ match t.offset with
    | none => []
    | some offset => offsetText (lit ":") offset

/-- Microseconds since midnight, in universal time where the offset is known. -/
def instant (t : TimeOfDay) : Int := (t.clock.total : Int) - t.offset.getD 0 * 1000000

end TimeOfDay

namespace Moment

/-- The moment in ISO 8601 form with `between` after the date. -/
def toTextWith (between : Text) (m : Moment) : Text :=
  m.date.toText ++ between ++ TimeOfDay.toText ⟨m.clock, m.offset⟩

/-- The moment in ISO 8601 form. -/
def toText (m : Moment) : Text := m.toTextWith (lit "T")

/-- Microseconds since the beginning of day 0, in universal time where the
offset is known. -/
def instant (m : Moment) : Int :=
  ((m.date.ordinal * 86400000000 + m.clock.total : Nat) : Int) - (m.offset.getD 0) * 1000000

end Moment

end UriExpansion
