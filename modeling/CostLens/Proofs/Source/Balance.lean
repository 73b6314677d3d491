import CostLens.Source.Block

/-! # Lines whose braces balance

The search for the end of a block with braces keeps a balance and whether a brace has been opened.
Taken together, the lines read so far tell the same: the search stops on the first line up to which
they open a brace and close as many as they open.
-/
namespace CostLens.Block

variable {lines : List Text} {k : Nat}

/-- Lines that open a brace, and close as many as they open. -/
def Balanced (lines : List Text) : Prop :=
  0 < lines.flatten.count '\x7b' ∧ lines.flatten.count '\x7b' = lines.flatten.count '\x7d'

instance (lines : List Text) : Decidable (Balanced lines) := inferInstanceAs (Decidable (_ ∧ _))

/-- After these lines the search stops, if it has not before: a brace has been opened, and as many
are closed as are open. -/
def Settles (entered : Bool) (balance : Int) (lines : List Text) : Prop :=
  (entered = true ∨ 0 < lines.flatten.count '\x7b') ∧
    balance + lines.flatten.count '\x7b' = lines.flatten.count '\x7d'

instance (entered : Bool) (balance : Int) (lines : List Text) :
    Decidable (Settles entered balance lines) := inferInstanceAs (Decidable (_ ∧ _))

theorem settles_cons (entered : Bool) (balance : Int) (line : Text) (lines : List Text) :
    Settles entered balance (line :: lines) ↔
      Settles (entered || decide (0 < line.count '\x7b'))
        (balance + line.count '\x7b' - line.count '\x7d') lines := by
  simp only [Settles, List.flatten_cons, List.count_append, Bool.or_eq_true, decide_eq_true_eq,
    or_assoc]
  exact and_congr (or_congr_right (by omega)) (by omega)

theorem settles_start (lines : List Text) : Settles false 0 lines ↔ Balanced lines := by
  simp only [Settles, Balanced, Bool.false_eq_true, false_or]
  omega

theorem balanceOffset?_eq_find? (entered : Bool) (balance : Int) (lines : List Text) :
    balanceOffset? entered balance lines =
      (List.range lines.length).find? fun k => decide (Settles entered balance (lines.take (k + 1))) := by
  induction lines generalizing entered balance with
  | nil => rfl
  | cons line lines ih =>
    rw [List.length_cons, List.range_succ_eq_map, List.find?_cons, List.find?_map]
    have hstop : decide (Settles entered balance ((line :: lines).take 1)) =
        ((entered || decide (0 < line.count '\x7b')) &&
          balance + line.count '\x7b' - line.count '\x7d' == 0) := by
      rw [List.take_succ_cons, List.take_zero, Bool.eq_iff_iff, decide_eq_true_eq, settles_cons]
      simp only [Settles, List.flatten_nil, List.count_nil, Bool.and_eq_true, beq_iff_eq]
      exact and_congr (or_iff_left (by omega)) (by omega)
    have hrest : (fun k => decide (Settles entered balance ((line :: lines).take (k + 1)))) ∘ Nat.succ =
        fun k => decide (Settles (entered || decide (0 < line.count '\x7b'))
          (balance + line.count '\x7b' - line.count '\x7d') (lines.take (k + 1))) := by
      funext k
      simp only [Function.comp_apply, List.take_succ_cons, settles_cons]
    rw [hstop, hrest, ← ih, balanceOffset?]
    cases (entered || decide (0 < line.count '\x7b')) &&
      balance + line.count '\x7b' - line.count '\x7d' == 0 <;> rfl

theorem balanceOffset?_eq_some_iff : balanceOffset? false 0 lines = some k ↔
    k < lines.length ∧ Balanced (lines.take (k + 1)) ∧
      ∀ j < k, ¬ Balanced (lines.take (j + 1)) := by
  rw [balanceOffset?_eq_find?, List.find?_range_eq_some]
  simp only [settles_start, decide_eq_true_eq, List.mem_range, Bool.not_eq_true',
    decide_eq_false_iff_not]
  exact and_left_comm

theorem balanceOffset?_eq_none_iff : balanceOffset? false 0 lines = none ↔
    ∀ k < lines.length, ¬ Balanced (lines.take (k + 1)) := by
  rw [balanceOffset?_eq_find?, List.find?_range_eq_none]
  simp only [settles_start, Bool.not_eq_true', decide_eq_false_iff_not]

theorem exists_balanceOffset? {n : Nat} (h : Balanced (lines.take n)) :
    ∃ k, balanceOffset? false 0 lines = some k := by
  refine Option.ne_none_iff_exists'.1 fun hnone => ?_
  -- more lines than there are balance as all of them do
  rw [List.take_eq_take_min] at h
  cases hm : min n lines.length with
  | zero =>
    rw [hm, List.take_zero] at h
    exact absurd h (by decide)
  | succ m =>
    rw [hm] at h
    exact balanceOffset?_eq_none_iff.1 hnone m (by omega) h

theorem balanceOffset?_append (h : balanceOffset? false 0 lines = some k) (behind : List Text) :
    balanceOffset? false 0 (lines ++ behind) = some k := by
  obtain ⟨hk, hb, hbefore⟩ := balanceOffset?_eq_some_iff.1 h
  have htake : ∀ j ≤ k, (lines ++ behind).take (j + 1) = lines.take (j + 1) := fun j hj =>
    List.take_append_of_le_length (by omega)
  refine balanceOffset?_eq_some_iff.2 ⟨?_, ?_, ?_⟩
  · rw [List.length_append]
    omega
  · rwa [htake k (Nat.le_refl k)]
  · intro j hj
    rw [htake j (Nat.le_of_lt hj)]
    exact hbefore j hj

end CostLens.Block
