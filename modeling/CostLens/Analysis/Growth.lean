import CostLens.Text.Digit

/-! # Rates of growth -/
namespace CostLens

/-- How a cost grows with the size of the input. -/
inductive Growth
  | constant
  | logarithmic
  | linear
  | linearithmic
  | quadratic
  | power (exponent : Int)
  | exponential
  deriving DecidableEq, Repr

namespace Growth

def label : Growth → Text
  | constant => "O(1)"
  | logarithmic => "O(log n)"
  | linear => "O(n)"
  | linearithmic => "O(n log n)"
  | quadratic => "O(n²)"
  | power e => "O(n^" ++ intText e ++ ")"
  | exponential => "O(2^n)"

/-- The growth of so many nested loops. -/
def polynomial (depth : Int) : Growth :=
  if depth = 1 then linear else if depth = 2 then quadratic else power depth

end Growth

end CostLens
