import CostLens.Text.Blank
import CostLens.Text.Word

/-! # Tests of what stands at a position

A test is asked about the text from some position on. Tests are built in the order in which the
text is read: each takes the test of what has to follow. A test built from these that holds of a
text holds of every text that goes on longer, so a fragment found in a part is found in the whole.
-/
namespace CostLens

/-- A test of the text from a position on. -/
abbrev Test := Text → Bool

namespace Test

/-- Nothing more is asked. -/
def done : Test := fun _ => true

/-- The word `w`, then `k`. -/
def lit (w : Text) (k : Test) : Test := fun t =>
  match w.isPrefixOf? t with
  | some rest => k rest
  | none => false

/-- One character of the class `p`, then `k`. -/
def one (p : Char → Bool) (k : Test) : Test
  | [] => false
  | c :: rest => p c && k rest

/-- Some characters of the class `p`, none at all included, then `k`. -/
def many (p : Char → Bool) (k : Test) : Test
  | [] => k []
  | c :: rest => k (c :: rest) || (p c && many p k rest)

/-- All the white space there is, then `k`. -/
def blanks (k : Test) : Test := fun t => k (trimStart t)

/-- All the white space there is and at least one character of it, then `k`. -/
def gap (k : Test) : Test := one isBlank (blanks k)

/-- Some characters of the same line, then `k`. -/
def onLine (k : Test) : Test := many (· != newline) k

/-- Either test. -/
def either (k m : Test) : Test := fun t => k t || m t

/-- The test holds at some position of the text. -/
def somewhere (k : Test) : Test := many (fun _ => true) k

/-- The test holds at some position that no word character stands before. `inWord` says whether
one stands before the text. -/
def atWordStart (k : Test) : Bool → Test
  | inWord, [] => !inWord && k []
  | inWord, c :: rest => (!inWord && k (c :: rest)) || atWordStart k (isWord c) rest

/-- The word `w` stands somewhere in the text. -/
def has (w : Text) : Test := somewhere (lit w done)

/-- The word `w` stands somewhere in the text with no word character before it. -/
def hasWord (w : Text) : Test := atWordStart (lit w done) false

end Test

end CostLens
