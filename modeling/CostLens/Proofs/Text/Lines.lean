import CostLens.Text.Lines
import Mathlib.Data.List.Forall2

/-! # Lines by position

At a natural position a line, the lines from it on and a range of lines are what the list
operations give. Ranges do not change when lines are put before or behind the document. What stands
in a line stands in the text, and a text that keeps the line feeds of another one and some of its
other signs keeps them on their lines.
-/
namespace CostLens

theorem lineAt?_natCast (lines : List Text) (i : Nat) : lineAt? lines i = lines[i]? := by
  unfold lineAt? position?
  have hn : ¬ (i : Int) < 0 := by omega
  simp only [hn, ↓reduceIte]
  split
  · simp
  · next h =>
    have hl : lines.length ≤ i := by omega
    simp [List.getElem?_eq_none hl]

theorem linesFrom?_natCast (lines : List Text) (i : Nat) :
    linesFrom? lines i = some (lines.drop i) := by
  simp [linesFrom?]

theorem sliceLines_natCast (lines : List Text) (a b : Nat) :
    sliceLines lines a b = (lines.take b).drop a := by
  have ha : ¬ (a : Int) < 0 := by omega
  have hb : ¬ (b : Int) < 0 := by omega
  simp only [sliceLines, clampBound, ha, hb, ↓reduceIte, Int.toNat_natCast]
  rw [← List.take_eq_take_min]
  by_cases hl : a ≤ lines.length
  · rw [Nat.min_eq_left hl]
  · have hl' : lines.length ≤ a := Nat.le_of_not_le hl
    rw [Nat.min_eq_right hl', List.drop_eq_nil_of_le (List.length_take_le' _ _),
      List.drop_eq_nil_of_le (Nat.le_trans (List.length_take_le' _ _) hl')]

theorem sliceLines_append_left (before lines : List Text) (a b : Nat) :
    sliceLines (before ++ lines) (before.length + a : Nat) (before.length + b : Nat) =
      sliceLines lines a b := by
  rw [sliceLines_natCast, sliceLines_natCast, List.take_length_add_append,
    List.drop_length_add_append]

theorem sliceLines_append_right {lines : List Text} (behind : List Text) (a : Nat) {b : Nat}
    (h : b ≤ lines.length) : sliceLines (lines ++ behind) a b = sliceLines lines a b := by
  rw [sliceLines_natCast, sliceLines_natCast, List.take_append_of_le_length h]

theorem mem_of_mem_splitLines {span line : Text} {c : Char} (hl : line ∈ splitLines span)
    (hc : c ∈ line) : c ∈ span := by
  induction span generalizing line with
  | nil =>
    rw [splitLines, List.mem_singleton] at hl
    exact hl ▸ hc
  | cons d span ih =>
    rw [splitLines] at hl
    split at hl
    · rcases List.mem_cons.1 hl with rfl | hl
      · cases hc
      · exact List.mem_cons_of_mem d (ih hl hc)
    · split at hl
      · rw [List.mem_singleton] at hl
        subst hl
        rw [List.mem_singleton] at hc
        exact hc ▸ List.mem_cons_self
      · next first rest he =>
        rcases List.mem_cons.1 hl with rfl | hl
        · rcases List.mem_cons.1 hc with rfl | hc
          · exact List.mem_cons_self
          · exact List.mem_cons_of_mem d (ih (he ▸ List.mem_cons_self) hc)
        · exact List.mem_cons_of_mem d (ih (he ▸ List.mem_cons_of_mem first hl) hc)

theorem splitLines_newline (t : Text) : splitLines (newline :: t) = [] :: splitLines t := if_pos rfl

/-- A sign that is no line feed belongs to the first line. -/
theorem exists_splitLines_cons {c : Char} (hc : c ≠ newline) (t : Text) : ∃ line lines,
    splitLines t = line :: lines ∧ splitLines (c :: t) = (c :: line) :: lines := by
  obtain ⟨line, lines, h⟩ := List.exists_cons_of_ne_nil (splitLines_ne_nil t)
  refine ⟨line, lines, h, ?_⟩
  rw [splitLines, if_neg hc, h]

theorem splitLines_filter {p : Char → Bool} (hp : p newline = true) (t : Text) :
    splitLines (t.filter p) = (splitLines t).map (List.filter p) := by
  induction t with
  | nil => rfl
  | cons c t ih =>
    by_cases hc : c = newline
    · subst hc
      rw [List.filter_cons_of_pos hp, splitLines_newline, splitLines_newline, ih]
      rfl
    · obtain ⟨line, lines, ht, hct⟩ := exists_splitLines_cons hc t
      rw [hct, List.map_cons]
      rw [ht, List.map_cons] at ih
      by_cases hpc : p c = true
      · rw [List.filter_cons_of_pos hpc, List.filter_cons_of_pos hpc, splitLines, if_neg hc, ih]
      · rw [List.filter_cons_of_neg hpc, List.filter_cons_of_neg hpc, ih]

theorem forall₂_splitLines {s t : Text} (h : s.Sublist t) (hn : s.count newline = t.count newline) :
    List.Forall₂ List.Sublist (splitLines s) (splitLines t) := by
  induction h with
  | slnil => exact .cons (List.Sublist.refl _) .nil
  | @cons s t c h ih =>
    by_cases hc : c = newline
    · -- one line feed more than there are in the shorter text
      have hle := h.count_le newline
      rw [hc, List.count_cons_self] at hn
      omega
    · obtain ⟨line, lines, ht, hct⟩ := exists_splitLines_cons hc t
      rw [List.count_cons_of_ne hc] at hn
      have hlines := ih hn
      rw [ht] at hlines
      obtain ⟨line', lines', hline, hrest, hs⟩ := List.forall₂_cons_right_iff.1 hlines
      rw [hs, hct]
      exact .cons (hline.cons c) hrest
  | @cons_cons s t c h ih =>
    by_cases hc : c = newline
    · subst hc
      rw [List.count_cons_self, List.count_cons_self] at hn
      rw [splitLines_newline, splitLines_newline]
      exact .cons (List.Sublist.refl _) (ih (Nat.succ.inj hn))
    · obtain ⟨line, lines, hs, hcs⟩ := exists_splitLines_cons hc s
      obtain ⟨line', lines', ht, hct⟩ := exists_splitLines_cons hc t
      rw [List.count_cons_of_ne hc, List.count_cons_of_ne hc] at hn
      have hlines := ih hn
      rw [hs, ht] at hlines
      obtain ⟨hline, hrest⟩ := List.forall₂_cons.1 hlines
      rw [hcs, hct]
      exact .cons (hline.cons_cons c) hrest

end CostLens
