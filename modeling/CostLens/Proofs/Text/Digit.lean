import CostLens.Text.Digit
import Mathlib.Algebra.Group.Nat.Defs

/-! # Digits of numbers

What the readers of numbers rely on: a written number is a row of ASCII digits, not empty, without
a leading zero, and as long as the number is great.
-/
namespace CostLens

theorem natText_ne_nil (n : Nat) : natText n ≠ [] := Nat.toDigits_ne_nil

theorem isDigit_of_mem_natText {n : Nat} {c : Char} (h : c ∈ natText n) : c.isDigit = true :=
  Nat.isDigit_of_mem_toDigits (by decide) (by decide) h

theorem natText_zero : natText 0 = ['0'] := Nat.toDigits_zero 10

theorem length_natText_le_iff {n k : Nat} (h : 0 < k) : (natText n).length ≤ k ↔ n < 10 ^ k :=
  Nat.length_toDigits_le_iff (by decide) h

theorem natText_head_ne_zero {n : Nat} (h : 0 < n) : (natText n).head? ≠ some '0' := by
  unfold natText
  induction n using Nat.base_induction 10 (by decide) with
  | single m hm =>
    have hd : ∀ m < 10, 0 < m → m.digitChar ≠ '0' := by decide
    rw [Nat.toDigits_of_lt_base hm]
    simpa using hd m hm h
  | digit m k hk hm ih =>
    obtain ⟨c, t, hc⟩ := List.exists_cons_of_ne_nil (natText_ne_nil m)
    rw [natText] at hc
    rw [← Nat.toDigits_append_toDigits (by decide) hm hk, hc]
    simpa [hc] using ih hm

theorem natText_inj {m n : Nat} (h : natText m = natText n) : m = n := by
  rw [← Nat.ofDigitChars_ten_toDigits (n := m), ← Nat.ofDigitChars_ten_toDigits (n := n)]
  exact congrArg (Nat.ofDigitChars 10 · 0) h

theorem notMem_intText {c : Char} (h : c ≠ '-' ∧ c.isDigit = false) (i : Int) :
    c ∉ intText i := by
  have hdigits : c ∉ natText i.natAbs := by
    intro hm
    rw [isDigit_of_mem_natText hm] at h
    cases h.2
  unfold intText
  split
  · rw [List.mem_cons]
    exact not_or.2 ⟨h.1, hdigits⟩
  · exact hdigits

theorem space_notMem_intText (i : Int) : ' ' ∉ intText i := notMem_intText (by decide) i

theorem exists_getLast?_intText (i : Int) :
    ∃ d, d.isDigit = true ∧ (intText i).getLast? = some d := by
  have hlast : (intText i).getLast? = (natText i.natAbs).getLast? := by
    unfold intText
    split
    · rw [List.getLast?_cons_of_ne_nil (natText_ne_nil _)]
    · rfl
  have hd := List.getLast?_eq_some_getLast (natText_ne_nil i.natAbs)
  exact ⟨_, isDigit_of_mem_natText (List.mem_of_getLast? hd), hlast.trans hd⟩

theorem intText_inj {i j : Int} (h : intText i = intText j) : i = j := by
  have hsign (n : Nat) (t : Text) : natText n ≠ '-' :: t := by
    intro hn
    have hm : '-' ∈ natText n := hn ▸ List.mem_cons_self
    exact absurd (isDigit_of_mem_natText hm) (by decide)
  unfold intText at h
  split at h <;> split at h
  · have hn := natText_inj (List.cons.inj h).2
    omega
  · exact absurd h.symm (hsign _ _)
  · exact absurd h (hsign _ _)
  · have hn := natText_inj h
    omega

end CostLens
