import CostLens.Analysis.Explanation
import CostLens.Source.Candidate

/-! # The analysis of a document -/
namespace CostLens

/-- A candidate with the verdict on it and the features behind the verdict. -/
structure Analysis where
  candidate : Candidate
  verdict : Verdict
  features : Features
  deriving DecidableEq, Repr

namespace Analysis

/-- The analysis of the block that a candidate stands for. The features are looked for in the way
of the family that the declaration line decides on. `none` when there is no such line. -/
def ofCandidate? (family : Family) (lines : List Text) (c : Candidate) : Option Analysis := do
  let span ← Block.text? family lines c.startLine c.endLine
  let features := Features.ofSpan (family.ofLine (← lineAt? lines c.startLine)) span
  pure ⟨c, features.verdict, features⟩

/-- The analyses of all candidates of a document, in its order. -/
def ofDocument (family : Family) (lines : List Text) : List Analysis :=
  (Candidate.scan family lines).filterMap (ofCandidate? family lines)

def explanation (a : Analysis) : Text := Explanation.ofVerdict a.verdict a.features

end Analysis

end CostLens
