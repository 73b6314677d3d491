import CostLens.Proofs.Text.Order
import CostLens.Store.Record

/-! # The order of keys

Keys are ordered by document, line and function. The order is total, so a list of records can be
sorted by its keys in one way only.
-/
namespace CostLens

namespace Key

theorem le_total (a b : Key) : (a.le b || b.le a) = true := by
  unfold le
  by_cases hd : a.document = b.document
  · by_cases hl : a.line = b.line
    · simpa [hd, hl] using textLe_total a.function b.function
    · have : a.line ≤ b.line ∨ b.line ≤ a.line := Int.le_total _ _
      simpa [hd, hl, Ne.symm hl] using this
  · simpa [hd, Ne.symm hd] using textLe_total a.document b.document

theorem le_trans {a b c : Key} (hab : a.le b = true) (hbc : b.le c = true) : a.le c = true := by
  unfold le at hab hbc ⊢
  by_cases h1 : a.document = b.document
  · by_cases h2 : b.document = c.document
    · simp only [h1, h2, ↓reduceIte] at hab hbc ⊢
      by_cases l1 : a.line = b.line
      · by_cases l2 : b.line = c.line
        · simp only [l1, l2, ↓reduceIte] at hab hbc ⊢
          exact textLe_trans hab hbc
        · simpa [l1, l2] using hbc
      · by_cases l2 : b.line = c.line
        · simpa [← l2, l1] using hab
        · have h3 : a.line ≤ b.line := by simpa [l1] using hab
          have h4 : b.line ≤ c.line := by simpa [l2] using hbc
          have h5 : a.line ≠ c.line := by omega
          simpa [h5] using Int.le_trans h3 h4
    · simpa [h1, h2] using hbc
  · by_cases h2 : b.document = c.document
    · simpa [← h2, h1] using hab
    · simp only [h1, h2, ↓reduceIte] at hab hbc
      by_cases h3 : a.document = c.document
      · exact absurd (textLe_antisymm (h3 ▸ hab) hbc) (h3 ▸ h1)
      · simpa [h3] using textLe_trans hab hbc

end Key

end CostLens
