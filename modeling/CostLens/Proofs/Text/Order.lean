import CostLens.Text.Basic

/-! # The order of texts

Texts are ordered by code points. The order is total, so names sorted by it stand in one order only,
and a set of names has one sorted list.
-/
namespace CostLens

theorem textLe_total (a b : Text) : (textLe a b || textLe b a) = true := by
  induction a generalizing b with
  | nil => rfl
  | cons c s ih =>
    cases b with
    | nil => rfl
    | cons d t =>
      by_cases he : c = d
      · simpa [textLe, he] using ih t
      · have hne : c.toNat ≠ d.toNat := fun h => he (Char.toNat_inj.1 h)
        have hlt : c.toNat < d.toNat ∨ d.toNat < c.toNat := by omega
        simpa [textLe, he, Ne.symm he] using hlt

theorem textLe_trans {a b c : Text} (hab : textLe a b = true) (hbc : textLe b c = true) :
    textLe a c = true := by
  induction a generalizing b c with
  | nil => rfl
  | cons x s ih =>
    cases b with
    | nil => cases hab
    | cons y t =>
      cases c with
      | nil => cases hbc
      | cons z u =>
        by_cases hxy : x = y
        · subst hxy
          by_cases hxz : x = z
          · subst hxz
            simp only [textLe, ↓reduceIte] at hab hbc ⊢
            exact ih hab hbc
          · simpa [textLe, hxz] using hbc
        · have h1 : x.toNat < y.toNat := by simpa [textLe, hxy] using hab
          by_cases hyz : y = z
          · subst hyz
            simpa [textLe, hxy] using h1
          · have h2 : y.toNat < z.toNat := by simpa [textLe, hyz] using hbc
            have h3 : x.toNat < z.toNat := Nat.lt_trans h1 h2
            have hxz : x ≠ z := by
              rintro rfl
              exact Nat.lt_irrefl _ h3
            simpa [textLe, hxz] using h3

theorem textLe_antisymm {a b : Text} (hab : textLe a b = true) (hba : textLe b a = true) :
    a = b := by
  induction a generalizing b with
  | nil =>
    cases b with
    | nil => rfl
    | cons d t => cases hba
  | cons c s ih =>
    cases b with
    | nil => cases hab
    | cons d t =>
      by_cases he : c = d
      · subst he
        simp only [textLe, ↓reduceIte] at hab hba
        rw [ih hab hba]
      · have h1 : c.toNat < d.toNat := by simpa [textLe, he] using hab
        have h2 : d.toNat < c.toNat := by simpa [textLe, Ne.symm he] using hba
        exact absurd h1 (Nat.lt_asymm h2)

theorem nodup_eraseDups {α : Type} [BEq α] [LawfulBEq α] (l : List α) : l.eraseDups.Nodup := by
  have hall : ∀ (n : Nat) (l : List α), l.length ≤ n → l.eraseDups.Nodup := by
    intro n
    induction n with
    | zero =>
      intro l hl
      simp [List.length_eq_zero_iff.1 (Nat.le_zero.1 hl)]
    | succ n ih =>
      intro l hl
      cases l with
      | nil => simp
      | cons a l =>
        have hf := List.length_filter_le (fun b => !b == a) l
        rw [List.eraseDups_cons, List.nodup_cons, List.mem_eraseDups]
        exact ⟨by simp, ih _ (Nat.le_trans hf (Nat.le_of_succ_le_succ hl))⟩
  exact hall _ _ (Nat.le_refl _)

theorem mem_sortedNames {names : List Text} {n : Text} : n ∈ sortedNames names ↔ n ∈ names := by
  rw [sortedNames, List.mem_mergeSort, List.mem_eraseDups]

theorem sortedNames_pairwise (names : List Text) :
    (sortedNames names).Pairwise fun a b => textLe a b = true ∧ a ≠ b := by
  have hsorted : (sortedNames names).Pairwise fun a b => textLe a b = true := by
    apply List.pairwise_mergeSort
    · intro a b c hab hbc
      exact textLe_trans hab hbc
    · exact textLe_total
  have hnodup : (sortedNames names).Nodup :=
    (List.mergeSort_perm _ _).nodup_iff.2 (nodup_eraseDups names)
  exact hsorted.and hnodup

/-- The order of names and how often each comes do not show in the sorted list. -/
theorem sortedNames_congr {names names' : List Text} (h : ∀ n, n ∈ names ↔ n ∈ names') :
    sortedNames names = sortedNames names' := by
  have hn := sortedNames_pairwise names
  have hn' := sortedNames_pairwise names'
  have hnodup : ∀ {l : List Text}, (l.Pairwise fun a b => textLe a b = true ∧ a ≠ b) → l.Nodup :=
    fun hl => hl.imp And.right
  have hmem : ∀ n, n ∈ sortedNames names ↔ n ∈ sortedNames names' := by
    intro n
    rw [mem_sortedNames, mem_sortedNames, h]
  refine ((List.perm_ext_iff_of_nodup (hnodup hn) (hnodup hn')).2 hmem).eq_of_pairwise ?_
    (hn.imp And.left) (hn'.imp And.left)
  intro a b _ _ hab hba
  exact textLe_antisymm hab hba

end CostLens
