import CostLens.Proofs.Analysis.Verdict
import CostLens.Proofs.Text.Digit
import Mathlib.Data.ENat.Lattice
import Mathlib.Data.List.Nodup

/-! # Rates of growth in order

A label belongs to one rate of growth only, so the label of nested loops tells how many they are. The
labels of verdicts stand in a rising order. A rule for time either raises the rank of what it is
given to a least one or sets it, whatever the loops are. So loops that are nested deeper never lead
to a lower label.
-/
namespace CostLens

namespace Growth

/-! ## Labels -/

/-- The rates of growth whose labels are fixed texts. -/
def fixed : List Growth :=
  [constant, logarithmic, linear, linearithmic, quadratic, exponential]

theorem mem_fixed_or_power (g : Growth) : g ∈ fixed ∨ ∃ e, g = power e := by
  cases g with
  | power e => exact .inr ⟨e, rfl⟩
  | _ => exact .inl (by decide)

theorem label_power_ne {g : Growth} (hg : g ∈ fixed) (e : Int) : (power e).label ≠ g.label := by
  have hother : ∀ g ∈ fixed, startsWith g.label "O(n^" = false := by decide
  have hpower : startsWith (power e).label "O(n^" = true := rfl
  intro h
  rw [h, hother g hg] at hpower
  cases hpower

theorem label_injective : Function.Injective label := by
  have hfixed : (fixed.map label).Nodup := by decide
  intro a b h
  rcases mem_fixed_or_power a with ha | ⟨e, rfl⟩
  · rcases mem_fixed_or_power b with hb | ⟨e, rfl⟩
    · exact List.inj_on_of_nodup_map hfixed ha hb h
    · exact absurd h.symm (label_power_ne ha e)
  · rcases mem_fixed_or_power b with hb | ⟨e', rfl⟩
    · exact absurd h (label_power_ne hb e)
    · have hdigits : intText e = intText e' :=
        List.append_cancel_left (List.append_cancel_right h)
      rw [intText_inj hdigits]

theorem polynomial_injective : Function.Injective polynomial := by
  intro d d' h
  unfold polynomial at h
  split at h <;> split at h
  all_goals grind

theorem polynomial_label_notMem (d : Int) :
    (polynomial d).label ∉ [constant, logarithmic, linearithmic, exponential].map label := by
  rw [List.mem_map_of_injective label_injective]
  unfold polynomial
  split
  · decide
  split
  · decide
  · simp

/-! ## Ranks -/

/-- The rank of a label among the labels of verdicts, from the lowest on. The powers begin with the
third, there is no end to them, and the exponential label comes after them all. -/
inductive Ranked : Text → ℕ∞ → Prop
  | constant : Ranked "O(1)" 0
  | logarithmic : Ranked "O(log n)" 1
  | linear : Ranked "O(n)" 2
  | linearithmic : Ranked "O(n log n)" 3
  | quadratic : Ranked "O(n²)" 4
  | power (k : ℕ) : Ranked ("O(n^" ++ natText (k + 3) ++ ")") (k + 5 : ℕ)
  | exponential : Ranked "O(2^n)" ⊤

/-- The rates of growth that have a rank: powers below the third have names of their own. -/
def HasRank : Growth → Prop
  | power e => 3 ≤ e
  | _ => True

/-- The rank of a rate of growth that has one. -/
def rank : Growth → ℕ∞
  | constant => 0
  | logarithmic => 1
  | linear => 2
  | linearithmic => 3
  | quadratic => 4
  | power e => (e.toNat + 2 : ℕ)
  | exponential => ⊤

theorem HasRank.ranked {g : Growth} (h : g.HasRank) : Ranked g.label g.rank := by
  cases g with
  | power e =>
    have he : 3 ≤ e := h
    obtain ⟨k, rfl⟩ : ∃ k : ℕ, e = (k + 3 : ℕ) := ⟨(e - 3).toNat, by omega⟩
    exact .power k
  | constant => exact .constant
  | logarithmic => exact .logarithmic
  | linear => exact .linear
  | linearithmic => exact .linearithmic
  | quadratic => exact .quadratic
  | exponential => exact .exponential

theorem Ranked.exists_growth {t : Text} {r : ℕ∞} (h : Ranked t r) :
    ∃ g : Growth, g.HasRank ∧ g.label = t ∧ g.rank = r := by
  cases h with
  | constant => exact ⟨.constant, trivial, rfl, rfl⟩
  | logarithmic => exact ⟨.logarithmic, trivial, rfl, rfl⟩
  | linear => exact ⟨.linear, trivial, rfl, rfl⟩
  | linearithmic => exact ⟨.linearithmic, trivial, rfl, rfl⟩
  | quadratic => exact ⟨.quadratic, trivial, rfl, rfl⟩
  | power k => exact ⟨.power (k + 3 : ℕ), by simp only [HasRank]; omega, rfl, rfl⟩
  | exponential => exact ⟨.exponential, trivial, rfl, rfl⟩

/-- The labels of different rates differ, so a label has no other rank than that of its rate. -/
theorem ranked_label_iff {g : Growth} (hg : g.HasRank) {r : ℕ∞} :
    Ranked g.label r ↔ r = g.rank := by
  constructor
  · intro h
    obtain ⟨g', -, hl, rfl⟩ := h.exists_growth
    rw [label_injective hl]
  · rintro rfl
    exact hg.ranked

/-- One loop has the rank two, and more loops have ranks without a gap. -/
theorem rank_polynomial (d : Int) :
    (polynomial d).rank = (if d = 1 then 2 else d.toNat + 2 : ℕ) := by
  unfold polynomial
  by_cases hone : d = 1
  · rw [if_pos hone, if_pos hone]
    rfl
  by_cases htwo : d = 2
  · subst htwo
    rfl
  · rw [if_neg hone, if_neg htwo, if_neg hone]
    rfl

theorem rank_polynomial_le {d d' : Int} (h : 1 ≤ d) (hd : d ≤ d') :
    (polynomial d).rank ≤ (polynomial d').rank := by
  rw [rank_polynomial, rank_polynomial, Nat.cast_le]
  split <;> split <;> omega

end Growth

namespace Features

open Growth (rank HasRank Ranked polynomial)

/-! ## The rules for time -/

/-- The rates that loops and recursion alone lead to. -/
inductive FromLoops : Growth → Prop
  | constant : FromLoops .constant
  | linear : FromLoops .linear
  | quadratic : FromLoops .quadratic
  | power {e : Int} (he : 3 ≤ e) : FromLoops (.power e)
  | exponential : FromLoops .exponential

theorem fromLoops_loopTime (x : Features) : FromLoops x.loopTime := by
  unfold loopTime polynomial
  split
  · split
    · exact .linear
    split
    · exact .quadratic
    · exact .power (by omega)
  · split
    · exact .constant
    · exact .exponential

/-- A quadratic sort raises the rank to that of quadratic time at least. -/
theorem rank_sortTime {g : Growth} (hg : FromLoops g) (idioms : Idioms) :
    (sortTime idioms g).rank = max (if idioms.quadraticSort then 4 else 0) g.rank := by
  unfold sortTime
  cases idioms.quadraticSort with
  | false => simp
  | true =>
    cases hg with
    | @power e he =>
      have hfour : 4 ≤ (Growth.power e).rank := Nat.cast_le.2 (show 4 ≤ e.toNat + 2 by omega)
      exact (max_eq_right hfour).symm
    | linear =>
      have hfour : Growth.linear.rank ≤ 4 := Nat.cast_le.2 (show 2 ≤ 4 by decide)
      exact (max_eq_left hfour).symm
    | _ => simp [rank]

theorem one_le_rank {g : Growth} (h : g ≠ .constant) : 1 ≤ g.rank := by
  cases g with
  | constant => exact absurd rfl h
  | power e => exact Nat.cast_le.2 (show 1 ≤ e.toNat + 2 by omega)
  | _ => simp [rank]

/-- A linearithmic sort sets the rank, and a binary search raises it to that of logarithmic time at
least. -/
theorem rank_searchTime (g : Growth) (idioms : Idioms) :
    (searchTime idioms g).rank = if idioms.linearithmicSort then 3
      else max (if idioms.binarySearch then 1 else 0) g.rank := by
  unfold searchTime
  cases idioms.linearithmicSort with
  | true => rfl
  | false =>
    cases idioms.binarySearch with
    | false => simp
    | true =>
      by_cases hg : g = .constant
      · simp [hg, rank]
      · simp [hg, max_eq_right (one_le_rank hg)]

/-! ## Verdicts -/

theorem hasRank_time (x : Features) : x.verdict.time.HasRank := by
  have hgrounds := x.verdict_grounds
  generalize x.verdict.time = g at hgrounds
  cases hgrounds with
  | loops hd _ => exact hd
  | _ => trivial

theorem rank_time (x : Features) :
    x.verdict.time.rank = if x.idioms.linearithmicSort then 3
      else max (if x.idioms.binarySearch then 1 else 0)
        (max (if x.idioms.quadraticSort then 4 else 0) x.loopTime.rank) := by
  have htime : x.verdict.time = searchTime x.idioms (sortTime x.idioms x.loopTime) := rfl
  rw [htime, rank_searchTime, rank_sortTime x.fromLoops_loopTime]

section Deeper
variable {d d' : Int} {names : List Text} (structures : List Structure) (idioms : Idioms)

/-- Recursion without a loop gives more than any loop, so it is left aside. -/
theorem rank_loopTime_le (hd : d ≤ d') (hn : names = [] ∨ 1 ≤ d) :
    (loopTime ⟨d, names, structures, idioms⟩).rank ≤
      (loopTime ⟨d', names, structures, idioms⟩).rank := by
  unfold loopTime
  by_cases h : 1 ≤ d
  · rw [if_pos h, if_pos (h.trans hd)]
    exact Growth.rank_polynomial_le h hd
  · obtain rfl := hn.resolve_right h
    rw [if_neg h]
    exact zero_le

theorem rank_time_le (hd : d ≤ d') (hn : names = [] ∨ 1 ≤ d) :
    (verdict ⟨d, names, structures, idioms⟩).time.rank ≤
      (verdict ⟨d', names, structures, idioms⟩).time.rank := by
  rw [rank_time, rank_time]
  split
  · exact le_rfl
  · exact max_le_max_left _ (max_le_max_left _ (rank_loopTime_le structures idioms hd hn))

end Deeper

theorem space_label (x : Features) :
    x.verdict.space.label ∈ (["O(1)", "O(n)"] : List Text) := by
  have hboth : ∀ linear : Bool,
      (if linear then Growth.linear else .constant).label ∈ (["O(1)", "O(n)"] : List Text) := by
    decide
  exact hboth _

/-- The label of nested loops tells how many they are and is no label of another kind. Every verdict
has a label of one rank for time, and constant or linear space; and loops that are nested deeper
never lower the rank for time, unless recursion without a loop has raised it. -/
theorem deeper_loops_rank_no_lower :
    (Function.Injective fun d => (polynomial d).label) ∧
    (∀ d, (polynomial d).label ∉ (["O(1)", "O(log n)", "O(n log n)", "O(2^n)"] : List Text)) ∧
    (∀ x : Features, (∃! r, Ranked x.verdict.time.label r) ∧
      x.verdict.space.label ∈ (["O(1)", "O(n)"] : List Text)) ∧
    ∀ d d' : Int, d ≤ d' → ∀ names structures idioms, names = [] ∨ 1 ≤ d → ∀ r r',
      Ranked (verdict ⟨d, names, structures, idioms⟩).time.label r →
      Ranked (verdict ⟨d', names, structures, idioms⟩).time.label r' → r ≤ r' := by
  refine ⟨Growth.label_injective.comp Growth.polynomial_injective,
    Growth.polynomial_label_notMem, ?_, ?_⟩
  · intro x
    have hr := x.hasRank_time
    exact ⟨⟨_, hr.ranked, fun r h => (Growth.ranked_label_iff hr).1 h⟩, x.space_label⟩
  · intro d d' hd names structures idioms hn r r' h h'
    rw [Growth.ranked_label_iff (hasRank_time _)] at h h'
    rw [h, h']
    exact rank_time_le structures idioms hd hn

theorem deeper_loops_rank_no_lower_twelve :
    Ranked (verdict ⟨1, ["f"], [.set], { quadraticSort := true }⟩).time.label 4 ∧
      Ranked (verdict ⟨12, ["f"], [.set], { quadraticSort := true }⟩).time.label 14 ∧
      (4 : ℕ∞) ≤ 14 := by
  have hone : Ranked (verdict ⟨1, ["f"], [.set], { quadraticSort := true }⟩).time.label 4 :=
    .quadratic
  have htwelve : Ranked (verdict ⟨12, ["f"], [.set], { quadraticSort := true }⟩).time.label 14 :=
    .power 9
  obtain ⟨-, -, -, hle⟩ := deeper_loops_rank_no_lower
  exact ⟨hone, htwelve, hle 1 12 (by decide) _ _ _ (.inr (by decide)) 4 14 hone htwelve⟩

end Features
end CostLens
