import CostLens.Text.Replace

/-! # Escaping marks

In a line with marks, a bracket that would begin a mark is written behind a backslash, and the
backslashes before it are doubled.
-/
namespace CostLens.Markup

/-- Whether a character can be the first of a mark. -/
def beginsMark (c : Char) : Bool := c.isLower || c == '#' || c == '/' || c == '@'

/-- The length of the mark at the front of a text: a bracket, a first character, and anything but
an opening bracket up to the next closing one. -/
def length? : Text → Option Nat
  | '[' :: c :: rest =>
    if beginsMark c then
      let inside := rest.takeWhile fun d => d != '[' && d != ']'
      if (rest.drop inside.length).head? = some ']' then some (inside.length + 3) else none
    else none
  | _ => none

/-- Backslashes and the mark behind them. -/
def mark : Finder := fun t =>
  let slashes := (t.takeWhile (· == '\\')).length
  let rest := t.drop slashes
  (length? rest).map fun n =>
    (slashes + n, List.replicate (2 * slashes + 1) '\\' ++ rest.take n)

/-- A text that ends in exactly one backslash with another one. -/
def closeBackslash (t : Text) : Text :=
  if endsWith t "\\" && !endsWith t "\\\\" then t ++ ['\\'] else t

/-- A text that is shown as it is within a line with marks. -/
def escape (t : Text) : Text := closeBackslash (replaceAll mark t)

end CostLens.Markup
