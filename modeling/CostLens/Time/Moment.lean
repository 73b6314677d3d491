import CostLens.Text.Digit
import CostLens.Time.Calendar

/-! # Moments

A moment is a date and a time of day, with an offset from universal time or without one. It is
written in the form `2024-05-01T12:30:00.000001+02:00`, in which a fraction of zero and a missing
offset are left out.
-/
namespace CostLens

open Calendar

/-- A date and a time of day, and the microseconds by which it is ahead of universal time. -/
structure Moment where
  date : Date
  hour : Nat := 0
  minute : Nat := 0
  second : Nat := 0
  micro : Nat := 0
  offset : Option Int := none
  deriving DecidableEq, Repr

namespace Moment

def microsPerSecond : Nat := 1000000

def microsPerDay : Nat := 86400 * microsPerSecond

/-- Whether the date, the time of day and the offset exist: an offset is shorter than a day. -/
def isValid (m : Moment) : Bool :=
  m.date.isValid && decide (m.hour < 24) && decide (m.minute < 60) && decide (m.second < 60)
    && decide (m.micro < microsPerSecond)
    && (match m.offset with
      | none => true
      | some o => decide (o.natAbs < microsPerDay))

/-- The microseconds from the start of year one by the clock of the moment itself. -/
def wallMicros (m : Moment) : Int :=
  (m.date.toDays * microsPerDay + (3600 * m.hour + 60 * m.minute + m.second) * microsPerSecond
    + m.micro : Nat)

/-- The microseconds from the start of year one in universal time. A moment without an offset is
taken to be in universal time. -/
def micros (m : Moment) : Int := m.wallMicros - m.offset.getD 0

/-- The moment that lies so many microseconds after the start of year one. -/
def ofWallMicros (n : Nat) (offset : Option Int) : Moment :=
  let seconds := n % microsPerDay / microsPerSecond
  { date := Date.ofDays (n / microsPerDay), hour := seconds / 3600, minute := seconds / 60 % 60,
    second := seconds % 60, micro := n % microsPerSecond, offset }

/-- The same moment by a clock that is so many microseconds ahead of universal time. `none` when
that lies outside the years that can be written. -/
def atOffset? (m : Moment) (offset : Int) : Option Moment :=
  let wall := m.micros + offset
  if wall < 0 then none
  else
    let n := ofWallMicros wall.toNat (some offset)
    if isYear n.date.year then some n else none

/-- The same moment in universal time. `none` when that lies outside the years that can be
written. -/
def toUniversal? (m : Moment) : Option Moment := m.atOffset? 0

/-- An offset in hours and minutes, and in seconds and microseconds where it has any. -/
def offsetText (o : Int) : Text :=
  let n := o.natAbs
  let seconds := n / microsPerSecond
  let micro := n % microsPerSecond
  (if o < 0 then ['-'] else ['+']) ++ padded 2 (seconds / 3600) ++ ":"
    ++ padded 2 (seconds / 60 % 60)
    ++ (if seconds % 60 = 0 ∧ micro = 0 then [] else ':' :: padded 2 (seconds % 60))
    ++ (if micro = 0 then [] else '.' :: padded 6 micro)

def text (m : Moment) : Text :=
  padded 4 m.date.year ++ "-" ++ padded 2 m.date.month ++ "-" ++ padded 2 m.date.day ++ "T"
    ++ padded 2 m.hour ++ ":" ++ padded 2 m.minute ++ ":" ++ padded 2 m.second
    ++ (if m.micro = 0 then [] else '.' :: padded 6 m.micro)
    ++ (match m.offset with
      | none => []
      | some o => offsetText o)

end Moment

end CostLens
