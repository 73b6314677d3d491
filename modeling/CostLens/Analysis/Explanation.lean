import CostLens.Analysis.Verdict

/-! # Explanations

A verdict in words. The sentences are chosen by the labels of the verdict and filled from the
features behind it.
-/
namespace CostLens.Explanation

/-- The sentences about time. A label that stands for no growth gets none. -/
def timeLines (time : Text) (x : Features) : List Text :=
  if time = Growth.constant.label then
    ["Time Complexity: O(1) - Constant time",
      "  • No loops, recursion or sorting were detected."]
  else if time = Growth.logarithmic.label then
    ["Time Complexity: O(log n) - Logarithmic time",
      "  • The function looks like a binary search."]
  else if time = Growth.linear.label then
    ["Time Complexity: O(n) - Linear time",
      "  • The function iterates through its input once."]
  else if time = Growth.quadratic.label then
    ["Time Complexity: O(n²) - Quadratic time",
      if 2 ≤ x.depth then "  • The function uses two nested loops."
      else "  • The function sorts with a built-in or quadratic sort."]
  else if time = Growth.linearithmic.label then
    ["Time Complexity: O(n log n)", "  • The function uses quicksort or mergesort."]
  else if time = Growth.exponential.label then
    ["Time Complexity: O(2^n) - Exponential time",
      "  • Recursive calls detected: " ++ joinWith ", " (sortedNames x.recursiveNames) ++ "."]
  else if contains "O(n^" time then
    ["Time Complexity: " ++ time ++ " - Polynomial time",
      "  • The function uses " ++ intText x.depth ++ " nested loops."]
  else []

def spaceLines (space : Text) : List Text :=
  if space = Growth.constant.label then
    ["\nSpace Complexity: O(1) - Constant space",
      "  • No input-sized arrays or maps are constructed."]
  else
    ["\nSpace Complexity: " ++ space ++ " - Linear space",
      "  • The function builds arrays or maps that grow with the input."]

def structureLines (x : Features) : List Text :=
  if x.structures.isEmpty then []
  else ["\nData structures: " ++
    joinWith ", " ((Structure.all.filter x.structures.contains).map Structure.label)]

/-- Advice for the costly labels. -/
def adviceLines (time : Text) (x : Features) : List Text :=
  if time = Growth.quadratic.label ∨ time = Growth.exponential.label
      ∨ startsWith time "O(n^" = true then
    let hashing : List Text :=
      if x.structures.contains .hashMap then []
      else ["  • Consider using hash maps for O(1) lookups."]
    let memoizing : List Text :=
      if time = Growth.exponential.label then
        ["  • Consider memoization to avoid redundant recursive calculations."]
      else []
    "\nOptimization Potential:" :: (hashing ++ memoizing)
  else []

/-- The explanation of two labels by the features behind them. -/
def ofLabels (time space : Text) (x : Features) : Text :=
  joinLines (timeLines time x ++ spaceLines space ++ structureLines x ++ adviceLines time x)

def ofVerdict (v : Verdict) (x : Features) : Text := ofLabels v.time.label v.space.label x

end CostLens.Explanation
