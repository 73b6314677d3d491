import CostLens.Source.Block
import CostLens.Source.Declaration

/-! # Candidates

The functions, methods and classes found in a document: one for each declaration line whose block
ends after it.
-/
namespace CostLens

/-- A declared name with the line of its declaration and the end of its block. -/
structure Candidate where
  name : Text
  startLine : Int
  endLine : Int
  deriving DecidableEq, Repr

namespace Candidate

def lineCount (c : Candidate) : Int := c.endLine - c.startLine

/-- The candidate declared on a line of a document. -/
def atLine? (family : Family) (lines : List Text) (i : Nat) : Option Candidate := do
  let name ← Declaration.name? family (← lines[i]?)
  let last ← Block.end? family lines i
  if (i : Int) < last then some ⟨name, i, last⟩ else none

/-- The candidates of a document, in its order. -/
def scan (family : Family) (lines : List Text) : List Candidate :=
  (List.range lines.length).filterMap (atLine? family lines)

end Candidate

end CostLens
