import CostLens.Source.Family

/-! # Where a block ends

A brace block ends on the line on which the braces counted from its first line balance; an
indented block ends before the first line that is indented no deeper than its first line. A block
whose end is not found ends after a fixed number of lines.
-/
namespace CostLens.Block

/-- The number of lines after which a block without an end is cut. -/
def maxSpan : Nat := 50

/-- How many lines after the first one the braces balance for the first time, once a brace has
been opened. The state is whether one has been and the excess of opening over closing braces. -/
def balanceOffset? : Bool → Int → List Text → Option Nat
  | _, _, [] => none
  | entered, balance, line :: lines =>
    let opening := line.count '\x7b'
    let entered := entered || decide (0 < opening)
    let balance := balance + opening - line.count '\x7d'
    if entered && balance == 0 then some 0
    else (balanceOffset? entered balance lines).map (· + 1)

/-- Whether a line bounds an indented block: it is neither blank nor a comment, and indented no
deeper than `base`. -/
def isDedent (base : Nat) (line : Text) : Bool :=
  let body := trim line
  !body.isEmpty && !startsWith body "#" && decide (indentation line ≤ base)

/-- The line on which the braces opened from `start` on balance. `none` when there is no line
`start`, unless the document ends before it. -/
def braceEnd? (lines : List Text) (start : Int) : Option Int :=
  (linesFrom? lines start).map fun block =>
    match balanceOffset? false 0 block with
    | some k => start + k
    | none => min (start + maxSpan) (lines.length - 1)

/-- The first line after the indented block that begins on line `start`. `none` when there is no
such line. -/
def indentEnd? (lines : List Text) (start : Int) : Option Int :=
  match linesFrom? lines start with
  | some (first :: block) =>
    match (block.take maxSpan).findIdx? (isDedent (indentation first)) with
    | some k => some (start + 1 + k)
    | none => some (min lines.length (start + maxSpan))
  | _ => none

def end? (family : Family) (lines : List Text) (start : Int) : Option Int := do
  match family.ofLine (← lineAt? lines start) with
  | .indent => indentEnd? lines start
  | _ => braceEnd? lines start

/-- The text of the lines from one bound up to another. -/
def span (lines : List Text) (first last : Int) : Text := joinLines (sliceLines lines first last)

/-- The text of a block. The last line of a brace block holds its closing brace and belongs to it;
an indented block stops before its end. -/
def text? (family : Family) (lines : List Text) (first last : Int) : Option Text := do
  match family.ofLine (← lineAt? lines first) with
  | .indent => pure (span lines first last)
  | _ => pure (span lines first (min (last + 1) lines.length))

end CostLens.Block
