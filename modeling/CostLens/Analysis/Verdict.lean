import CostLens.Analysis.Growth
import CostLens.Analysis.Idiom
import CostLens.Analysis.Loop
import CostLens.Analysis.Recursion
import CostLens.Analysis.Sanitized
import CostLens.Analysis.Structure

/-! # Verdicts

What the detectors find in a text, and the rates of growth concluded from it. The rules for time
are applied in a fixed order, each under its own guard, so the order decides when several fit.
-/
namespace CostLens

/-- What the detectors find in a text. -/
structure Features where
  depth : Int := 0
  recursiveNames : List Text := []
  structures : List Structure := []
  idioms : Idioms := {}
  deriving DecidableEq, Repr

/-- The growth of time and of space. -/
structure Verdict where
  time : Growth := .constant
  space : Growth := .constant
  deriving DecidableEq, Repr

namespace Features

/-- The detectors applied to a text as it is. -/
def ofClean (family : Family) (clean : Text) : Features where
  depth := Loop.depth family clean
  recursiveNames := Recursion.names clean
  structures := Structure.find clean
  idioms := Idioms.find clean

/-- The detectors applied to a text without its comments and literals. -/
def ofSpan (family : Family) (span : Text) : Features :=
  ofClean family (Sanitized.of family span)

/-- The time concluded from the loops, raised to exponential by recursion where there are none. -/
def loopTime (x : Features) : Growth :=
  if 1 ≤ x.depth then .polynomial x.depth
  else if x.recursiveNames.isEmpty then .constant
  else .exponential

/-- The time after a quadratic sort has been counted in. -/
def sortTime (idioms : Idioms) (time : Growth) : Growth :=
  if idioms.quadraticSort && (time == .constant || time == .linear) then .quadratic else time

/-- The time after a linearithmic sort, which overrides, and a binary search, which replaces only
constant time. -/
def searchTime (idioms : Idioms) (time : Growth) : Growth :=
  if idioms.linearithmicSort then .linearithmic
  else if idioms.binarySearch && time == .constant then .logarithmic
  else time

def verdict (x : Features) : Verdict where
  time := searchTime x.idioms (sortTime x.idioms x.loopTime)
  space := if x.structures.any Structure.isLinear then .linear else .constant

end Features

end CostLens
