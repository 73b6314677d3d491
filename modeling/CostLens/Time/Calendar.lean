/-! # The calendar

Dates of the Gregorian calendar extended backwards, counted in days from the first day of year
one.
-/
namespace CostLens.Calendar

structure Date where
  year : Nat
  month : Nat
  day : Nat
  deriving DecidableEq, Repr

def isLeap (year : Nat) : Bool :=
  year % 4 == 0 && (year % 100 != 0 || year % 400 == 0)

def monthLength (year month : Nat) : Nat :=
  match month with
  | 2 => if isLeap year then 29 else 28
  | 4 | 6 | 9 | 11 => 30
  | _ => 31

/-- The years that can be written. -/
def isYear (year : Nat) : Bool := decide (1 ≤ year) && decide (year ≤ 9999)

def Date.isValid (d : Date) : Bool :=
  isYear d.year && decide (1 ≤ d.month) && decide (d.month ≤ 12) && decide (1 ≤ d.day)
    && decide (d.day ≤ monthLength d.year d.month)

/-- The days of the months before a month. -/
def daysBeforeMonth (year month : Nat) : Nat :=
  ((List.range (month - 1)).map fun m => monthLength year (m + 1)).foldl (· + ·) 0

/-- The days of the years before a year. -/
def daysBeforeYear (year : Nat) : Nat :=
  let y := year - 1
  365 * y + y / 4 - y / 100 + y / 400

/-- The place of a date in its year, counted from one. -/
def Date.dayOfYear (d : Date) : Nat := daysBeforeMonth d.year d.month + d.day

/-- The days from the first day of year one to a date. -/
def Date.toDays (d : Date) : Nat := daysBeforeYear d.year + d.dayOfYear - 1

/-- The day of the week, counted from Monday as zero. -/
def weekday (days : Nat) : Nat := days % 7

/-- The month and the day of a day of the year, counted from zero, from a month on. -/
def monthAndDay (year : Nat) : List Nat → Nat → Nat × Nat
  | [], rest => (12, rest + 1)
  | month :: months, rest =>
    let length := monthLength year month
    if rest < length then (month, rest + 1) else monthAndDay year months (rest - length)

/-- The date that lies so many days after the first day of year one: the year is found by cutting
off cycles of four hundred, a hundred and four years. -/
def Date.ofDays (days : Nat) : Date :=
  let cycles := days / 146097
  let inCycle := days % 146097
  let centuries := min 3 (inCycle / 36524)
  let inCentury := inCycle - centuries * 36524
  let quads := inCentury / 1461
  let inQuad := inCentury % 1461
  let years := min 3 (inQuad / 365)
  let year := 400 * cycles + 100 * centuries + 4 * quads + years + 1
  let (month, day) := monthAndDay year (List.range' 1 12) (inQuad - years * 365)
  ⟨year, month, day⟩

/-- The number of weeks of a year whose weeks belong to the year of their Thursday. -/
def weeksIn (year : Nat) : Nat :=
  let first := weekday (daysBeforeYear year)
  if first = 3 ∨ (first = 2 ∧ isLeap year = true) then 53 else 52

/-- The day on which the first week of a year begins, when weeks belong to the year of their
Thursday. For year one it is the first day of all. -/
def firstMonday (year : Nat) : Nat :=
  let first := daysBeforeYear year
  let w := weekday first
  if 3 < w then first + 7 - w else first - w

/-- The date of a day of a week. -/
def Date.ofWeek? (year week day : Nat) : Option Date :=
  if isYear year && decide (1 ≤ week) && decide (week ≤ weeksIn year) && decide (1 ≤ day)
      && decide (day ≤ 7) then
    some (Date.ofDays (firstMonday year + (week - 1) * 7 + (day - 1)))
  else none

end CostLens.Calendar
