import CostLens.Text.Blank
import CostLens.Text.Digit

/-! # Reading integers

An integer is written with digits of any script, single underscores between digits, an optional
sign in front, and white space around it.
-/
namespace CostLens.Integer

/-- The greatest number of digits that is read. -/
def maxDigits : Nat := 4300

/-- White space that may surround an integer; the information separators may not. -/
def isPadding (c : Char) : Bool :=
  isBlank c && !(decide (0x1c ≤ c.toNat) && decide (c.toNat ≤ 0x1f))

/-- The values of the digits of a text in which single underscores may stand between digits.
`afterDigit` says whether a digit stands right before. -/
def digits? (afterDigit : Bool) : Text → Option (List Nat)
  | [] => if afterDigit then some [] else none
  | c :: t =>
    if c = '_' then if afterDigit then digits? false t else none
    else match digitValue? c with
      | some d => (digits? true t).map (d :: ·)
      | none => none

def ofDigits (digits : List Nat) : Nat := digits.foldl (fun n d => 10 * n + d) 0

def natural? (t : Text) : Option Nat :=
  match digits? false t with
  | some digits => if digits.length ≤ maxDigits then some (ofDigits digits) else none
  | none => none

def read? (t : Text) : Option Int :=
  let body := ((t.dropWhile isPadding).reverse.dropWhile isPadding).reverse
  match body with
  | '-' :: rest => (natural? rest).map fun n => -(n : Int)
  | '+' :: rest => (natural? rest).map fun n => (n : Int)
  | _ => (natural? body).map fun n => (n : Int)

end CostLens.Integer
