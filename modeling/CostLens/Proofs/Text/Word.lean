import CostLens.Text.Blank
import CostLens.Text.Word
import Mathlib.Data.List.Basic
import Mathlib.Data.List.TakeWhile

/-! # The first word of a text

A run of word characters at the front of a text is read as far as it goes. What follows it is no
word character, so the run is the same whatever the text goes on with, and what is left of it
behind some of its characters is the first word there.
-/
namespace CostLens

theorem isWord_of_isBlank {c : Char} (h : isBlank c = true) : isWord c = false := by
  have hall : ∀ r ∈ ([(0x09, 0x0d), (0x1c, 0x20), (0x85, 0x85), (0xa0, 0xa0), (0x1680, 0x1680),
      (0x2000, 0x200a), (0x2028, 0x2029), (0x202f, 0x202f), (0x205f, 0x205f), (0x3000, 0x3000)] :
      List (Nat × Nat)), ∀ k < 11, r.1 + k ≤ r.2 → isWord (Char.ofNat (r.1 + k)) = false := by
    decide +kernel
  obtain ⟨r, hr, hc⟩ := List.any_eq_true.1 h
  have hb := of_decide_eq_true hc
  have hk : c.toNat - r.1 < 11 := by
    simp only [List.mem_cons, List.not_mem_nil, or_false] at hr
    rcases hr with rfl | rfl | rfl | rfl | rfl | rfl | rfl | rfl | rfl | rfl <;> simp only at hb <;> omega
  have hf := hall r hr (c.toNat - r.1) hk (by omega)
  rwa [Nat.add_sub_cancel' hb.1, Char.ofNat_toNat] at hf

theorem isBlank_of_isWord {c : Char} (h : isWord c = true) : isBlank c = false := by
  by_contra hb
  rw [isWord_of_isBlank (Bool.of_not_eq_false hb)] at h
  cases h

theorem takeWhile_append_cons {w r : Text} {c : Char} (hw : ∀ d ∈ w, isWord d = true)
    (hc : isWord c = false) : (w ++ c :: r).takeWhile isWord = w ∧
      (w ++ c :: r).dropWhile isWord = c :: r := by
  constructor
  · rw [List.takeWhile_append_of_pos hw, List.takeWhile_cons_of_neg (by simp [hc]), List.append_nil]
  · rw [List.dropWhile_append_of_pos hw, List.dropWhile_cons_of_neg (by simp [hc])]

theorem takeWhile_word {w r : Text} {c : Char} (hw : ∀ d ∈ w, isWord d = true)
    (hc : isBlank c = true) : (w ++ c :: r).takeWhile isWord = w ∧
      (w ++ c :: r).dropWhile isWord = c :: r :=
  takeWhile_append_cons hw (isWord_of_isBlank hc)

theorem exists_cons_of_takeWhile {t : Text} (h : t.takeWhile isWord ≠ []) :
    ∃ d v, t = d :: v ∧ isWord d = true := by
  cases t with
  | nil => exact absurd rfl h
  | cons d v =>
    refine ⟨d, v, rfl, ?_⟩
    by_contra hd
    exact h (List.takeWhile_cons_of_neg hd)

/-- Behind some of its characters, the rest of the first word is the first word. -/
theorem takeWhile_drop {t : Text} {m : Nat} (h : m ≤ (t.takeWhile isWord).length) :
    (t.drop m).takeWhile isWord = (t.takeWhile isWord).drop m := by
  induction m generalizing t with
  | zero => rfl
  | succ m ih =>
    obtain ⟨c, v, rfl, hc⟩ := exists_cons_of_takeWhile (t := t) (by
      rintro hnil
      rw [hnil] at h
      cases h)
    rw [List.takeWhile_cons_of_pos hc] at h ⊢
    exact ih (Nat.le_of_succ_le_succ h)

theorem take_length_takeWhile (t : Text) :
    t.take (t.takeWhile isWord).length = t.takeWhile isWord :=
  (List.prefix_iff_eq_take.1 (List.takeWhile_prefix isWord)).symm

theorem isWord_behind_takeWhile (t : Text) :
    ∀ c ∈ t[(t.takeWhile isWord).length]?, isWord c = false := by
  induction t with
  | nil => simp
  | cons c t ih =>
    by_cases hc : isWord c = true
    · rw [List.takeWhile_cons_of_pos hc]
      exact ih
    · rw [List.takeWhile_cons_of_neg hc]
      simpa using hc

end CostLens
