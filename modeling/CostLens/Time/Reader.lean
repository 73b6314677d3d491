import CostLens.Text.Utf8
import CostLens.Time.Moment

/-! # Reading moments

A date by month or by week, with hyphens or without; then, behind any one character, a time of day
with colons or without, down to microseconds; then an offset. Places and lengths count bytes: what
is read here is the row of bytes of a text, and only the character between the date and the time
may take several of them.
-/
namespace CostLens

namespace Moment.Reader

open Calendar

/-- The character that stands for the end of the text. -/
def endMark : Char := '\x00'

/-- The value of so many ASCII digits, and the text behind them. -/
def digits? : Nat → Text → Option (Nat × Text)
  | 0, t => some (0, t)
  | count + 1, c :: t =>
    if c.isDigit then
      (digits? count t).map fun r => ((c.toNat - '0'.toNat) * Nat.pow 10 count + r.1, r.2)
    else none
  | _ + 1, [] => none

/-- The character at a place. -/
def charAt (t : Text) (i : Nat) : Char := (t[i]?).getD endMark

/-- How many characters at the front of a text belong to the date. A date by week without hyphens
may lack the day: the digits of the time come in pairs, so their parity tells. -/
def dateLength (t : Text) : Nat :=
  if t.length = 7 then 7
  else if charAt t 4 = '-' then
    if charAt t 5 = 'W' then
      if charAt t 8 = '-' then if (charAt t 10).isDigit then 8 else 10 else 8
    else 10
  else if charAt t 4 = 'W' then
    let digits := ((t.drop 7).takeWhile Char.isDigit).length
    if digits < 2 then 7 + digits else if digits % 2 = 1 then 7 else 8
  else 8

/-- One hyphen less at the front, where dates are written with hyphens. -/
def hyphen? (used : Bool) : Text → Option Text
  | '-' :: t => if used then some t else some ('-' :: t)
  | t => if used then none else some t

/-- A date by week: the week, and a day unless the text ends there. -/
def weekDate? (year : Nat) (used : Bool) (t : Text) : Option Date := do
  let (week, t) ← digits? 2 t
  if t.isEmpty then Date.ofWeek? year week 1
  else
    let (day, _) ← digits? 1 (← hyphen? used t)
    Date.ofWeek? year week day

/-- The date that a text begins with. -/
def date? (t : Text) : Option Date := do
  let (year, t) ← digits? 4 t
  let used := t.head? == some '-'
  let t ← hyphen? used t
  match t with
  | 'W' :: t => weekDate? year used t
  | _ =>
    let (month, t) ← digits? 2 t
    let (day, _) ← digits? 2 (← hyphen? used t)
    pure ⟨year, month, day⟩

/-- A time of day, or the size of an offset, and whether the whole text was read for it. -/
structure Clock where
  hour : Nat := 0
  minute : Nat := 0
  second : Nat := 0
  micro : Nat := 0
  complete : Bool := true

/-- A fraction of a second: up to six digits count, and more are passed over. -/
def fraction? (t : Text) : Option (Nat × Bool) := do
  let count := min 6 t.length
  let (value, rest) ← digits? count t
  let rest := rest.dropWhile Char.isDigit
  pure (value * Nat.pow 10 (6 - count), rest.isEmpty || rest.head? == some endMark)

/-- What follows a pair of digits. -/
inductive After
  /-- The text ends, or ends with one more character. -/
  | last (complete : Bool)
  /-- Another pair of digits. -/
  | pair (rest : Text)
  /-- A fraction. -/
  | fraction (rest : Text)

/-- What follows a pair of digits, where the pairs are or are not divided by colons. -/
def after? (colons : Bool) (t : Text) : Option After :=
  match t with
  | [] => some (.last true)
  | [c] => some (.last (c == endMark))
  | c :: rest =>
    if colons && c == ':' then some (.pair rest)
    else if c = '.' ∨ c = ',' then some (.fraction rest)
    else if colons then none
    else some (.pair t)

/-- The pairs of digits from the third one on, and a fraction. -/
def fromSecond? (clock : Clock) (colons : Bool) (t : Text) : Option Clock := do
  let (second, t) ← digits? 2 t
  match ← after? colons t with
  | .last complete => pure { clock with second, complete }
  | .pair rest | .fraction rest =>
    let (micro, complete) ← fraction? rest
    pure { clock with second, micro, complete }

/-- The pairs of digits from the second one on, and a fraction. -/
def fromMinute? (clock : Clock) (colons : Bool) (t : Text) : Option Clock := do
  let (minute, t) ← digits? 2 t
  match ← after? colons t with
  | .last complete => pure { clock with minute, complete }
  | .pair rest => fromSecond? { clock with minute } colons rest
  | .fraction rest =>
    let (micro, complete) ← fraction? rest
    pure { clock with minute, micro, complete }

/-- A time of day. A colon behind the hour says that the pairs of digits are divided by colons. -/
def clock? (t : Text) : Option Clock := do
  let (hour, t) ← digits? 2 t
  let colons := t.head? == some ':'
  match ← after? colons t with
  | .last complete => pure { hour, complete }
  | .pair rest => fromMinute? { hour } colons rest
  | .fraction rest =>
    let (micro, complete) ← fraction? rest
    pure { hour, micro, complete }

def isZone (c : Char) : Bool := c == '+' || c == '-' || c == 'Z'

/-- An offset in microseconds. A fraction without whole seconds is dropped. -/
def zone? (t : Text) : Option Int :=
  match t with
  | ['Z'] | 'Z' :: '\x00' :: _ => some 0
  | sign :: body =>
    if sign = 'Z' then none
    else match clock? body with
      | some c =>
        let seconds := 3600 * c.hour + 60 * c.minute + c.second
        let size : Int := if seconds = 0 then 0 else (seconds * microsPerSecond + c.micro : Nat)
        if c.complete then some (if sign = '-' then -size else size) else none
      | none => none
  | [] => none

/-- A time of day with an offset or without one. In front of an offset, what follows a complete
pair of digits or fraction is not looked at. -/
def time? (t : Text) : Option (Clock × Option Int) := do
  let body := t.takeWhile fun c => !isZone c
  let clock ← clock? body
  match t.drop body.length with
  | [] => if clock.complete then some (clock, none) else none
  | zone => (zone? zone).map fun o => (clock, some o)

/-- How many bytes belong to a character behind its first byte. -/
def furtherBytes (first : Char) : Nat :=
  match Utf8.lead? (Utf8.byte first.toNat) with
  | some lead => lead.following
  | none => 0

/-- The moment that a row of bytes spells out, whether it exists or not. -/
def fields? (t : Text) : Option Moment := do
  let length := dateLength t
  let date ← date? (t.take length)
  match t.drop length with
  | [] => pure { date }
  | mark :: rest =>
    let (clock, offset) ← time? (rest.drop (furtherBytes mark))
    pure { date, hour := clock.hour, minute := clock.minute, second := clock.second,
           micro := clock.micro, offset }

end Moment.Reader

/-- The moment that a text of at least seven characters spells. -/
def Moment.read? (t : Text) : Option Moment :=
  if t.length < 7 then none
  else match Moment.Reader.fields? (Utf8.octets t) with
    | some m => if m.isValid then some m else none
    | none => none

end CostLens
