import CostLens.Analysis.Verdict

/-! # What a verdict is concluded from

The rules for time are guarded and override one another, so a rate of growth does not show by itself
which rule gave it. Each rate is given here with everything that its rule asks, the rules that could
have overridden it included.
-/
namespace CostLens.Features

/-- The features that lead to a rate of growth of time. -/
inductive Grounds (x : Features) : Growth → Prop
  | nothing (hd : x.depth < 1) (hn : x.recursiveNames = []) (hq : x.idioms.quadraticSort = false)
      (hl : x.idioms.linearithmicSort = false) (hb : x.idioms.binarySearch = false) :
      Grounds x .constant
  | search (hd : x.depth < 1) (hn : x.recursiveNames = []) (hq : x.idioms.quadraticSort = false)
      (hl : x.idioms.linearithmicSort = false) (hb : x.idioms.binarySearch = true) :
      Grounds x .logarithmic
  | oneLoop (hd : x.depth = 1) (hq : x.idioms.quadraticSort = false)
      (hl : x.idioms.linearithmicSort = false) : Grounds x .linear
  | quadraticSort (hd : ¬ 2 ≤ x.depth) (hn : x.depth = 1 ∨ x.recursiveNames = [])
      (hq : x.idioms.quadraticSort = true) (hl : x.idioms.linearithmicSort = false) :
      Grounds x .quadratic
  | twoLoops (hd : x.depth = 2) (hl : x.idioms.linearithmicSort = false) : Grounds x .quadratic
  | loops (hd : 3 ≤ x.depth) (hl : x.idioms.linearithmicSort = false) : Grounds x (.power x.depth)
  | recursion (hd : x.depth < 1) (hn : x.recursiveNames ≠ [])
      (hl : x.idioms.linearithmicSort = false) : Grounds x .exponential
  | linearithmicSort (hl : x.idioms.linearithmicSort = true) : Grounds x .linearithmic

theorem verdict_grounds (x : Features) : Grounds x x.verdict.time := by
  have htime : x.verdict.time = searchTime x.idioms (sortTime x.idioms x.loopTime) := rfl
  by_cases hl : x.idioms.linearithmicSort = true
  · rw [htime, searchTime, if_pos hl]
    exact .linearithmicSort hl
  rw [htime, searchTime, if_neg hl]
  rw [Bool.not_eq_true] at hl
  rcases Int.lt_trichotomy x.depth 1 with hd | hd | hd
  · have hloops : x.loopTime = if x.recursiveNames.isEmpty then .constant else .exponential := by
      rw [loopTime, if_neg (by omega)]
    cases hn : x.recursiveNames with
    | cons n names =>
      have hsort : sortTime x.idioms x.loopTime = .exponential := by simp [hloops, hn, sortTime]
      rw [hsort]
      simpa using Grounds.recursion hd (by simp [hn]) hl
    | nil =>
      cases hq : x.idioms.quadraticSort with
      | true =>
        have hsort : sortTime x.idioms x.loopTime = .quadratic := by simp [hloops, hn, sortTime, hq]
        rw [hsort]
        simpa using Grounds.quadraticSort (by omega) (.inr hn) hq hl
      | false =>
        have hsort : sortTime x.idioms x.loopTime = .constant := by simp [hloops, hn, sortTime, hq]
        rw [hsort]
        cases hb : x.idioms.binarySearch with
        | true => simpa using Grounds.search hd hn hq hl hb
        | false => simpa using Grounds.nothing hd hn hq hl hb
  · have hloops : x.loopTime = .linear := by simp [loopTime, Growth.polynomial, hd]
    cases hq : x.idioms.quadraticSort with
    | true => simpa [hloops, sortTime, hq] using Grounds.quadraticSort (by omega) (.inl hd) hq hl
    | false => simpa [hloops, sortTime, hq] using Grounds.oneLoop hd hq hl
  · have hloops : x.loopTime = if x.depth = 2 then .quadratic else .power x.depth := by
      rw [loopTime, if_pos (by omega), Growth.polynomial, if_neg (by omega)]
    by_cases htwo : x.depth = 2
    · simpa [hloops, htwo, sortTime] using Grounds.twoLoops htwo hl
    · simpa [hloops, htwo, sortTime] using Grounds.loops (by omega) hl

end CostLens.Features
