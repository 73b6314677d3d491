import CostLens.Number.Binary64
import CostLens.Text.Digit

/-! # The shortest decimal of a double

A double is written with the fewest digits that read back as the same double, and of those the
nearest. Which decimals read back is decided on the exact interval of reals that round to it.
-/
namespace CostLens.Binary64

/-- A decimal: the value is `digits * 10 ^ exponent`. -/
structure Decimal where
  digits : Nat
  exponent : Int
  deriving DecidableEq, Repr

/-- Whether `digits * 10 ^ exponent` rounds to `mantissa * 2 ^ power`. All sides are multiplied by
four times a common denominator, so that the interval around the number has integer bounds. Its
lower half is smaller when the mantissa is the least of its power. -/
def readsBack (mantissa : Nat) (power : Int) (digits : Nat) (exponent : Int) : Bool :=
  let (unit, den) := ratio 1 power
  let value :=
    if exponent < 0 then 4 * digits * den else 4 * digits * Nat.pow 10 exponent.toNat * den
  let scale := if exponent < 0 then Nat.pow 10 (-exponent).toNat else 1
  let low :=
    if mantissa = fullMantissa ∧ minExponent < power then 4 * mantissa - 1 else 4 * mantissa - 2
  let high := 4 * mantissa + 2
  if mantissa % 2 = 0 then
    decide (low * unit * scale ≤ value) && decide (value ≤ high * unit * scale)
  else decide (low * unit * scale < value) && decide (value < high * unit * scale)

/-- The exponent of the leading digit plus one: the least `k` with a value below `10 ^ k`. -/
def pointOf (num den : Nat) : Int :=
  if den ≤ num then (natText (num / den)).length
  else 1 - ((natText (den / num)).length : Int)

/-- The decimal with so many digits that reads back and is nearest to the value, if there is
one. -/
def withDigits? (mantissa : Nat) (power : Int) (count : Nat) : Option Decimal :=
  let (num, den) := ratio mantissa power
  let point := pointOf num den
  let exponent := point - count
  let (n, d) :=
    if exponent < 0 then (num * Nat.pow 10 (-exponent).toNat, den)
    else (num, den * Nat.pow 10 exponent.toNat)
  let below := n / d
  let nearest := roundDiv n d
  let other := if nearest = below then below + 1 else below
  if readsBack mantissa power nearest exponent then some ⟨nearest, exponent⟩
  else if readsBack mantissa power other exponent then some ⟨other, exponent⟩
  else none

/-- The shortest decimal that reads back. Seventeen digits always do. -/
def shortest (mantissa : Nat) (power : Int) : Decimal :=
  ((List.range 17).findSome? fun k => withDigits? mantissa power (k + 1)).getD ⟨0, 0⟩

/-- Digits with the trailing zeros removed. -/
def significant (digits : Text) : Text := (digits.reverse.dropWhile (· == '0')).reverse

/-- How numbers are written: in positions up to a greatest place of the point and from a least
one on, with a fraction kept, and with an exponent of two digits at least otherwise. -/
structure NumberFormat where
  leastPoint : Int
  greatestPoint : Int
  exponentWidth : Nat

/-- Numbers from one ten-thousandth up to sixteen places are written in positions. -/
def shownFormat : NumberFormat := ⟨-3, 16, 2⟩

/-- Significant digits with the point at a place, in positions. -/
def positional (digits : Text) (point : Int) : Text :=
  if point ≤ 0 then "0." ++ List.replicate (-point).toNat '0' ++ digits
  else if digits.length ≤ point.toNat then
    digits ++ List.replicate (point.toNat - digits.length) '0' ++ ".0"
  else digits.take point.toNat ++ "." ++ digits.drop point.toNat

/-- Significant digits with the point behind the first one, and an exponent. -/
def scientific (format : NumberFormat) (digits : Text) (point : Int) : Text :=
  let exponent := point - 1
  let fraction := digits.drop 1
  digits.take 1 ++ (if fraction.isEmpty then [] else '.' :: fraction)
    ++ (if exponent < 0 then "e-" else "e+") ++ padded format.exponentWidth exponent.natAbs

/-- The text of a finite number without its sign. -/
def finiteText (format : NumberFormat) (mantissa : Nat) (power : Int) : Text :=
  if mantissa = 0 then "0.0"
  else
    let decimal := shortest mantissa power
    let digits := natText decimal.digits
    let point := decimal.exponent + digits.length
    if format.leastPoint ≤ point ∧ point ≤ format.greatestPoint then
      positional (significant digits) point
    else scientific format (significant digits) point

def text : Binary64 → Text
  | nan => "nan"
  | infinity negative => if negative then "-inf" else "inf"
  | finite negative m e => (if negative then ['-'] else []) ++ finiteText shownFormat m e

end CostLens.Binary64
