import CostLens.Text.Digit
import CostLens.Text.Printable

/-! # Quoted texts

How a message shows a text: between quotes, with the quote, the backslash and everything that is
not printable escaped.
-/
namespace CostLens.Quoted

/-- A number in lower-case hexadecimal digits, padded with zeros. -/
def hex (width n : Nat) : Text :=
  let digits := Nat.toDigits 16 n
  List.replicate (width - digits.length) '0' ++ digits

/-- One character between the given quotes. -/
def char (quote c : Char) : Text :=
  if c = quote ∨ c = '\\' then ['\\', c]
  else if c = '\n' then "\\n"
  else if c = '\r' then "\\r"
  else if c = '\t' then "\\t"
  else if isPrintable c then [c]
  else if c.toNat < 0x100 then "\\x" ++ hex 2 c.toNat
  else if c.toNat < 0x10000 then "\\u" ++ hex 4 c.toNat
  else "\\U" ++ hex 8 c.toNat

/-- The quote around a text: a single one, unless the text has such a quote and no double one. -/
def quoteFor (t : Text) : Char := if t.contains '\'' && !t.contains '"' then '"' else '\''

def text (t : Text) : Text :=
  let quote := quoteFor t
  [quote] ++ t.flatMap (char quote) ++ [quote]

end CostLens.Quoted
