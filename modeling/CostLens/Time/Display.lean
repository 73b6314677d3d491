import CostLens.Number.Binary64
import CostLens.Time.Reader

/-! # How moments are displayed

A moment is displayed by a format with directives, in universal time, or by its age.
-/
namespace CostLens.Moment

open Calendar

def dayNames : List Text :=
  ["Monday", "Tuesday", "Wednesday", "Thursday", "Friday", "Saturday", "Sunday"]

def monthNames : List Text :=
  ["January", "February", "March", "April", "May", "June", "July", "August", "September",
    "October", "November", "December"]

/-- The hour on a clock face. -/
def faceHour (hour : Nat) : Nat := if hour % 12 = 0 then 12 else hour % 12

/-- What stands for a directive; one that is not known stands for itself. -/
def directive (m : Moment) (c : Char) : Text :=
  let date := natText m.date.year ++ "-" ++ padded 2 m.date.month ++ "-" ++ padded 2 m.date.day
  let time := padded 2 m.hour ++ ":" ++ padded 2 m.minute ++ ":" ++ padded 2 m.second
  let dayName := dayNames.getD (weekday m.date.toDays) []
  let monthName := monthNames.getD (m.date.month - 1) []
  match c with
  | 'H' => padded 2 m.hour
  | 'M' => padded 2 m.minute
  | 'S' => padded 2 m.second
  | 'Y' => natText m.date.year
  | 'y' => padded 2 (m.date.year % 100)
  | 'm' => padded 2 m.date.month
  | 'd' => padded 2 m.date.day
  | 'f' => padded 6 m.micro
  | 'I' => padded 2 (faceHour m.hour)
  | 'p' => if m.hour < 12 then "AM" else "PM"
  | 'Z' => if m.offset.isSome then "UTC" else []
  | 'z' => if m.offset.isSome then "+0000" else []
  | 'j' => padded 3 m.date.dayOfYear
  | 'A' => dayName
  | 'a' => dayName.take 3
  | 'B' => monthName
  | 'b' => monthName.take 3
  | 'F' => date
  | 'T' => time
  | '%' => "%"
  | c => ['%', c]

/-- A format with what stands for its directives. -/
def filled (m : Moment) : Text → Text
  | [] => []
  | '%' :: c :: rest => m.directive c ++ filled m rest
  | c :: rest => c :: filled m rest

/-- A moment by a format, which ends at the first null character. -/
def formatted (m : Moment) (format : Text) : Text :=
  m.filled (format.takeWhile (· != '\x00'))

/-- What is displayed for a text that spells no moment. -/
def unknown : Text := "?"

/-- A moment without an offset as it is, any other one in universal time. `none` when that lies
outside the years that can be written. -/
def displayed? (m : Moment) : Option Moment :=
  match m.offset with
  | none => some m
  | some _ => m.toUniversal?

/-- The seconds between two moments, rounded to the nearest double and cut to an integer. -/
def secondsBetween (earlier later : Moment) : Int :=
  let d := later.micros - earlier.micros
  match Binary64.ofRatio (decide (d < 0)) d.natAbs microsPerSecond with
  | .finite negative m e => Binary64.truncate negative m e
  | _ => 0

/-- A span of seconds in the greatest unit that fits. -/
def ageText (seconds : Int) : Text :=
  if seconds < 60 then intText seconds ++ "s ago"
  else if seconds < 3600 then intText (seconds / 60) ++ "m ago"
  else if seconds < 86400 then intText (seconds / 3600) ++ "h ago"
  else intText (seconds / 86400) ++ "d ago"

/-- The age of a moment by the clock of its own offset. `none` when that clock shows a time outside
the years that can be written. -/
def age? (now m : Moment) : Option Text :=
  match m.offset with
  | none => some (ageText (secondsBetween m now))
  | some offset => (now.atOffset? offset).map fun n => ageText (secondsBetween m n)

end CostLens.Moment
