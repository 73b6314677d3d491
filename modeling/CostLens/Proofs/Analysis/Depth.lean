import CostLens.Analysis.Loop
import CostLens.Proofs.Text.Lines
import Mathlib.Algebra.BigOperators.Intervals
import Mathlib.Algebra.Order.Ring.Int
import Mathlib.Order.Interval.Finset.Nat

/-! # What the loop depth measures

The depth is kept as a counter that never falls below zero and the greatest value it had. The
counter before a line is the greatest balance of headers against closing braces over the lines that
lead up to it, however far back they begin. So the depth of a text is the greatest excess of headers
over closing braces in a run of consecutive lines, where the braces on the last line of the run do
not count: a header is counted before the line is closed.
-/
namespace CostLens.Loop

variable (family : Family) (lines : List Text)

/-- One where a line looks like a loop header, and zero elsewhere. -/
def headerAt (t : Nat) : Int := if isHeader family (lines.getD t []) then 1 else 0

/-- The number of closing braces on a line. -/
def bracesAt (t : Nat) : Int := (lines.getD t []).count '\x7d'

/-- The headers on the lines from `i` to `j`, less the closing braces on those before `j`. -/
def excess (i j : Nat) : Int :=
  ∑ t ∈ Finset.Icc i j, headerAt family lines t - ∑ t ∈ Finset.Ico i j, bracesAt lines t

/-- The first and the last line of every run of consecutive lines. -/
def runs : Finset (Nat × Nat) :=
  (Finset.range lines.length ×ˢ Finset.range lines.length).filter fun r => r.1 ≤ r.2

/-- The headers on the lines from `i` up to `n`, the last one excluded, less their braces. -/
def balance (i n : Nat) : Int :=
  ∑ t ∈ Finset.Ico i n, (headerAt family lines t - bracesAt lines t)

theorem mem_runs {r : Nat × Nat} : r ∈ runs lines ↔ r.1 ≤ r.2 ∧ r.2 < lines.length := by
  simp only [runs, Finset.mem_filter, Finset.mem_product, Finset.mem_range]
  omega

theorem runs_nonempty (span : Text) : (runs (splitLines span)).Nonempty := by
  have hpos := List.length_pos_iff.2 (splitLines_ne_nil span)
  exact ⟨(0, 0), (mem_runs _).2 ⟨Nat.le_refl 0, hpos⟩⟩

theorem balance_self (n : Nat) : balance family lines n n = 0 := by simp [balance]

theorem balance_succ {i n : Nat} (h : i ≤ n) : balance family lines i (n + 1) =
    balance family lines i n + headerAt family lines n - bracesAt lines n := by
  rw [balance, Finset.sum_Ico_succ_top h, balance, ← add_sub_assoc]

theorem excess_eq {i j : Nat} (h : i ≤ j) :
    excess family lines i j = balance family lines i j + headerAt family lines j := by
  rw [excess, ← Finset.Ico_add_one_right_eq_Icc, Finset.sum_Ico_succ_top h, balance,
    Finset.sum_sub_distrib]
  omega

/-! ## The counter and its greatest value -/

/-- What the two depths are before the line `n`. -/
structure Reached (n : Nat) (depths : Nat × Nat) : Prop where
  current : IsGreatest {x | ∃ i ≤ n, balance family lines i n = x} (depths.1 : Int)
  greatest : IsGreatest {x | x = 0 ∨ ∃ i j, i ≤ j ∧ j < n ∧ excess family lines i j = x}
    (depths.2 : Int)

theorem reached_start : Reached family lines 0 (0, 0) := by
  constructor
  · constructor
    · exact ⟨0, Nat.le_refl 0, balance_self family lines 0⟩
    · rintro x ⟨i, hi, rfl⟩
      rw [Nat.le_zero.1 hi, balance_self]
      exact le_refl 0
  · constructor
    · exact Or.inl rfl
    · rintro x (rfl | ⟨i, j, -, hj, -⟩)
      · exact le_refl 0
      · exact absurd hj (Nat.not_lt_zero j)

variable {family lines}

theorem step_fst (n : Nat) (depths : Nat × Nat) :
    ((step family depths (lines.getD n [])).1 : Int) =
      max 0 (depths.1 + headerAt family lines n - bracesAt lines n) := by
  simp only [step, headerAt, bracesAt]
  split <;> omega

theorem step_snd (n : Nat) (depths : Nat × Nat) :
    ((step family depths (lines.getD n [])).2 : Int) =
      max (depths.2 : Int) (depths.1 + headerAt family lines n) := by
  simp only [step, headerAt]
  split <;> omega

theorem Reached.current_step {n : Nat} {depths : Nat × Nat} (h : Reached family lines n depths) :
    IsGreatest {x | ∃ i ≤ n + 1, balance family lines i (n + 1) = x}
      ((step family depths (lines.getD n [])).1 : Int) := by
  obtain ⟨⟨i₀, hi₀, hcurrent⟩, hbound⟩ := h.current
  rw [step_fst]
  constructor
  · rcases le_total 0 (depths.1 + headerAt family lines n - bracesAt lines n) with hle | hle
    · refine ⟨i₀, Nat.le_succ_of_le hi₀, ?_⟩
      rw [balance_succ family lines hi₀, hcurrent, max_eq_right hle]
    · -- The counter stops at zero: the lines that lead up to the next one begin anew.
      refine ⟨n + 1, Nat.le_refl _, ?_⟩
      rw [balance_self, max_eq_left hle]
  · rintro x ⟨i, hi, rfl⟩
    rcases Nat.lt_or_eq_of_le hi with hlt | rfl
    · have hle : i ≤ n := Nat.le_of_lt_succ hlt
      have hb : balance family lines i n ≤ depths.1 := hbound ⟨i, hle, rfl⟩
      rw [balance_succ family lines hle]
      omega
    · rw [balance_self]
      exact le_max_left ..

theorem Reached.greatest_step {n : Nat} {depths : Nat × Nat} (h : Reached family lines n depths) :
    IsGreatest {x | x = 0 ∨ ∃ i j, i ≤ j ∧ j < n + 1 ∧ excess family lines i j = x}
      ((step family depths (lines.getD n [])).2 : Int) := by
  obtain ⟨⟨i₀, hi₀, hcurrent⟩, hbound⟩ := h.current
  obtain ⟨hgreatest, htop⟩ := h.greatest
  rw [step_snd]
  constructor
  · rcases le_total (depths.2 : Int) (depths.1 + headerAt family lines n) with hle | hle
    · -- The best run leads up to the new line, with the header there.
      refine Or.inr ⟨i₀, n, hi₀, Nat.lt_succ_self n, ?_⟩
      rw [excess_eq family lines hi₀, hcurrent, max_eq_right hle]
    · rw [max_eq_left hle]
      rcases hgreatest with hz | ⟨i, j, hij, hj, he⟩
      · exact Or.inl hz
      · exact Or.inr ⟨i, j, hij, Nat.lt_succ_of_lt hj, he⟩
  · rintro x (rfl | ⟨i, j, hij, hj, rfl⟩)
    · exact le_max_of_le_left (Int.natCast_nonneg _)
    · rcases Nat.lt_or_eq_of_le (Nat.le_of_lt_succ hj) with hlt | rfl
      · exact le_max_of_le_left (htop (Or.inr ⟨i, j, hij, hlt, rfl⟩))
      · have hb : balance family lines i j ≤ depths.1 := hbound ⟨i, hij, rfl⟩
        rw [excess_eq family lines hij]
        omega

variable (family)

theorem reached_take {n : Nat} (h : n ≤ lines.length) :
    Reached family lines n ((lines.take n).foldl (step family) (0, 0)) := by
  induction n with
  | zero => exact reached_start family lines
  | succ n ih =>
    have hn : n < lines.length := h
    have hlast : lines[n]?.toList = [lines.getD n []] := by
      rw [List.getD_eq_getElem?_getD, List.getElem?_eq_getElem hn]
      rfl
    rw [List.take_add_one, hlast, List.foldl_concat]
    have hbefore := ih (Nat.le_of_lt hn)
    exact ⟨hbefore.current_step, hbefore.greatest_step⟩

theorem foldl_step_of_no_brace {lines : List Text} (h : ∀ line ∈ lines, '\x7d' ∉ line) (k : Nat) :
    lines.foldl (step family) (k, k) =
      (k + lines.countP (isHeader family), k + lines.countP (isHeader family)) := by
  induction lines generalizing k with
  | nil => rfl
  | cons line lines ih =>
    have hcount : line.count '\x7d' = 0 := List.count_eq_zero.2 (h line List.mem_cons_self)
    have hrest := ih fun other ho => h other (List.mem_cons_of_mem line ho)
    have hstep : step family (k, k) line =
        (k + if isHeader family line then 1 else 0, k + if isHeader family line then 1 else 0) := by
      simp only [step, hcount, Prod.mk.injEq]
      split <;> omega
    rw [List.foldl_cons, hstep, hrest, List.countP_cons, Nat.add_assoc,
      Nat.add_comm (List.countP ..)]

theorem depth_isGreatest (span : Text) :
    IsGreatest {x | x = 0 ∨ ∃ i j, i ≤ j ∧ j < (splitLines span).length ∧
      excess family (splitLines span) i j = x} (depth family span : Int) := by
  have hreached := reached_take family (Nat.le_refl (splitLines span).length)
  rw [List.take_length] at hreached
  exact hreached.greatest

/-- The depth of a text is the greatest excess of headers over closing braces in a run of its lines,
and nothing if there is no excess. Where no brace is closed, every header counts. -/
theorem depth_eq_greatest_excess (span : Text) :
    (depth family span : Int) = max 0 ((runs (splitLines span)).sup' (runs_nonempty span)
        fun r => excess family (splitLines span) r.1 r.2) ∧
      ('\x7d' ∉ span → depth family span = (splitLines span).countP (isHeader family)) := by
  constructor
  · obtain ⟨hmem, hbound⟩ := depth_isGreatest family span
    apply le_antisymm
    · rcases hmem with hz | ⟨i, j, hij, hj, he⟩
      · exact le_max_of_le_left (le_of_eq hz)
      · have hr : (i, j) ∈ runs (splitLines span) := (mem_runs _).2 ⟨hij, hj⟩
        have hle := Finset.le_sup' (fun r => excess family (splitLines span) r.1 r.2) hr
        rw [← he]
        exact le_max_of_le_right hle
    · apply max_le (Int.natCast_nonneg _)
      apply Finset.sup'_le
      intro r hr
      obtain ⟨hle, hlt⟩ := (mem_runs _).1 hr
      exact hbound (Or.inr ⟨r.1, r.2, hle, hlt, rfl⟩)
  · intro hspan
    have hlines : ∀ line ∈ splitLines span, '\x7d' ∉ line :=
      fun line hl hc => hspan (mem_of_mem_splitLines hl hc)
    rw [depth, foldl_step_of_no_brace family hlines, Nat.zero_add]

/-- Two headers of an indented text, where no brace is closed. -/
theorem depth_eq_greatest_excess_indented :
    '\x7d' ∉ ("for x in xs:\n    while x:\n        x = f(x)" : Text) ∧
      depth .indent "for x in xs:\n    while x:\n        x = f(x)" =
        (splitLines "for x in xs:\n    while x:\n        x = f(x)").countP (isHeader .indent) :=
  ⟨by decide, (depth_eq_greatest_excess .indent _).2 (by decide)⟩

end CostLens.Loop
