import CostLens.Source.Family
import CostLens.Text.Test

/-! # Loop nesting

The nesting of loops is estimated line by line: a line that looks like a loop header goes one
level down, and every closing brace on a line comes one level up again, never above the top. An
indented block has no closing braces, so there every header counts.
-/
namespace CostLens.Loop

open Test

/-- Headers of loops and of calls that visit every element. -/
def headers : List Test :=
  let call (w : Text) : Test := somewhere <| lit w <| blanks <| lit "(" done
  [call "for", call "while", somewhere <| lit "do" <| blanks <| lit "\x7b" done, call "forEach",
    call "map", call "filter", call "reduce"]

/-- A character of the targets of a loop: word characters, white space and the signs that group
several of them. -/
def isTarget (c : Char) : Bool := isWord c || isBlank c || [',', '(', ')', '[', ']', '*'].contains c

/-- A loop over the elements of something, as a statement or inside an expression. -/
def forIn : Test := fun line =>
  atWordStart (lit "for" <| one isBlank <| one isTarget <| many isTarget <| one isBlank <|
    lit "in" <| one isBlank done) false line

/-- A conditional loop whose header ends with a colon. -/
def whileColon : Test :=
  blanks <| lit "while" fun rest => !(rest.head?.any isWord) && endsWith (trimEnd rest) ":"

def headerTests : Family → List Test
  | .brace => headers
  | _ => headers ++ [forIn, whileColon]

def isHeader (family : Family) (line : Text) : Bool := (headerTests family).any (· line)

/-- The current and the greatest depth after one more line. -/
def step (family : Family) (depths : Nat × Nat) (line : Text) : Nat × Nat :=
  let current := if isHeader family line then depths.1 + 1 else depths.1
  (current - line.count '\x7d', max depths.2 current)

/-- The greatest depth of loop nesting in a text. -/
def depth (family : Family) (span : Text) : Nat :=
  ((splitLines span).foldl (step family) (0, 0)).2

end CostLens.Loop
