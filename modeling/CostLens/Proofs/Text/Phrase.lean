import CostLens.Proofs.Text.Digit
import CostLens.Proofs.Text.Lines
import CostLens.Proofs.Text.Replace

/-! # Phrases in a text

A phrase on one line stands in a text when it stands in one of its lines. Whether it stands in a line
of which only some parts are known shows in the signs before its spaces, or in a whole word of it.
-/
namespace CostLens

theorem joinWith_cons_cons (sep item other : Text) (rest : List Text) :
    joinWith sep (item :: other :: rest) = item ++ (sep ++ joinWith sep (other :: rest)) := by
  simp [joinWith]

theorem mem_joinWith {sep : Text} {items : List Text} {c : Char} (h : c ∈ joinWith sep items) :
    c ∈ sep ∨ ∃ item ∈ items, c ∈ item := by
  induction items with
  | nil => cases h
  | cons item rest ih =>
    cases rest with
    | nil => exact .inr ⟨item, List.mem_singleton_self item, h⟩
    | cons other rest =>
      rw [joinWith_cons_cons, List.mem_append, List.mem_append] at h
      rcases h with h | h | h
      · exact .inr ⟨item, List.mem_cons_self, h⟩
      · exact .inl h
      · obtain h | ⟨item, hm, h⟩ := ih h
        · exact .inl h
        · exact .inr ⟨item, List.mem_cons_of_mem _ hm, h⟩

/-! ## Lines -/

theorem joinLines_cons_cons (line other : Text) (rest : List Text) :
    joinLines (line :: other :: rest) = line ++ newline :: joinLines (other :: rest) := by
  exact joinWith_cons_cons [newline] line other rest

theorem joinLines_append {lines others : List Text} (hl : lines ≠ []) (ho : others ≠ []) :
    joinLines (lines ++ others) = joinLines lines ++ newline :: joinLines others := by
  induction lines with
  | nil => exact absurd rfl hl
  | cons line lines ih =>
    obtain ⟨other, rest, rfl⟩ := List.exists_cons_of_ne_nil ho
    cases lines with
    | nil => exact joinLines_cons_cons line other rest
    | cons next lines =>
      rw [List.cons_append, List.cons_append, joinLines_cons_cons, ← List.cons_append,
        ih (List.cons_ne_nil next lines), joinLines_cons_cons, List.append_assoc, List.cons_append]

theorem count_joinLines {c : Char} (hc : c ≠ newline) (lines : List Text) :
    (joinLines lines).count c = lines.flatten.count c := by
  induction lines with
  | nil => rfl
  | cons line rest ih =>
    cases rest with
    | nil => simp [joinLines, joinWith]
    | cons other rest =>
      rw [joinLines_cons_cons, List.flatten_cons, List.count_append, List.count_append,
        List.count_cons_of_ne (Ne.symm hc), ih]

theorem infix_joinLines_of_mem {line : Text} {lines : List Text} (h : line ∈ lines) :
    line <:+: joinLines lines := by
  induction lines with
  | nil => cases h
  | cons first rest ih =>
    cases rest with
    | nil => rw [List.mem_singleton.1 h]; exact List.infix_rfl
    | cons other rest =>
      rw [joinLines_cons_cons]
      rcases List.mem_cons.1 h with rfl | h
      · exact (List.prefix_append line _).isInfix
      · exact (ih h).trans ((List.suffix_cons newline _).trans (List.suffix_append first _)).isInfix

theorem infix_joinLines_iff {w : Text} {lines : List Text} (hw : newline ∉ w) (hne : w ≠ []) :
    w <:+: joinLines lines ↔ ∃ line ∈ lines, w <:+: line := by
  constructor
  · intro h
    induction lines with
    | nil => exact absurd (List.infix_nil.1 h) hne
    | cons first rest ih =>
      cases rest with
      | nil => exact ⟨first, List.mem_singleton_self first, h⟩
      | cons other rest =>
        rw [joinLines_cons_cons] at h
        rcases infix_append_cons hw h with h | h
        · exact ⟨first, List.mem_cons_self, h⟩
        · obtain ⟨line, hm, hl⟩ := ih h
          exact ⟨line, List.mem_cons_of_mem first hm, hl⟩
  · rintro ⟨line, hm, hl⟩
    exact hl.trans (infix_joinLines_of_mem hm)

theorem splitLines_eq_splitOn (t : Text) : splitLines t = t.splitOn newline := by
  induction t with
  | nil => rfl
  | cons c t ih =>
    rw [List.splitOn_eq_splitOnP, List.splitOnP_cons_eq_if_modifyHead, ← List.splitOn_eq_splitOnP,
      ← ih]
    by_cases hc : c = newline
    · simp [hc, splitLines_newline]
    · obtain ⟨line, lines, ht, hct⟩ := exists_splitLines_cons hc t
      simp [hc, ht, hct]

theorem splitLines_joinLines {lines : List Text} (h : lines ≠ []) :
    splitLines (joinLines lines) = lines.flatMap splitLines := by
  induction lines with
  | nil => exact absurd rfl h
  | cons first rest ih =>
    cases rest with
    | nil => simp [joinLines, joinWith]
    | cons other rest =>
      rw [joinLines_cons_cons, splitLines_eq_splitOn, List.splitOn_append_cons_self,
        ← splitLines_eq_splitOn, ← splitLines_eq_splitOn, ih (List.cons_ne_nil other rest)]
      rfl

theorem splitLines_of_not_mem {t : Text} (h : newline ∉ t) : splitLines t = [t] := by
  rw [splitLines_eq_splitOn, List.splitOn_eq_singleton h]

theorem infix_of_mem_splitLines {line t : Text} (h : line ∈ splitLines t) : line <:+: t := by
  rw [← joinLines_splitLines t]
  exact infix_joinLines_of_mem h

/-! ## Signs before a space -/

/-- The signs that stand before a space. -/
def beforeSpaces : Text → List Char
  | [] => []
  | c :: t => if t.head? = some ' ' then c :: beforeSpaces t else beforeSpaces t

theorem beforeSpaces_append (s t : Text) : beforeSpaces (s ++ t) =
    beforeSpaces s ++ ((if t.head? = some ' ' then s.getLast?.toList else []) ++ beforeSpaces t) := by
  induction s with
  | nil => simp [beforeSpaces]
  | cons c s ih =>
    cases s with
    | nil =>
      simp only [beforeSpaces, List.cons_append, List.nil_append, List.head?_nil, reduceCtorEq]
      split <;> rfl
    | cons d s =>
      have hsigns (r : Text) : beforeSpaces (c :: d :: r) =
          (if d = ' ' then [c] else []) ++ beforeSpaces (d :: r) := by
        by_cases hd : d = ' ' <;> simp [beforeSpaces, hd]
      rw [List.cons_append] at ih
      rw [List.cons_append, List.cons_append, hsigns, hsigns, ih, List.getLast?_cons_cons,
        List.append_assoc]

theorem mem_beforeSpaces_append {s t : Text} {c : Char} (h : c ∈ beforeSpaces (s ++ t)) :
    c ∈ beforeSpaces s ∨ (t.head? = some ' ' ∧ s.getLast? = some c) ∨ c ∈ beforeSpaces t := by
  rw [beforeSpaces_append, List.mem_append, List.mem_append] at h
  rcases h with h | h | h
  · exact .inl h
  · obtain ⟨hs, hc⟩ := List.mem_ite_nil_right.1 h
    exact .inr (.inl ⟨hs, Option.mem_toList.1 hc⟩)
  · exact .inr (.inr h)

theorem beforeSpaces_mono {w t : Text} (h : w <:+: t) {c : Char} (hc : c ∈ beforeSpaces w) :
    c ∈ beforeSpaces t := by
  obtain ⟨a, b, rfl⟩ := h
  simp [beforeSpaces_append, hc]

theorem beforeSpaces_eq_nil {t : Text} (h : ' ' ∉ t) : beforeSpaces t = [] := by
  induction t with
  | nil => rfl
  | cons c t ih =>
    rw [beforeSpaces, if_neg, ih fun hm => h (List.mem_cons_of_mem c hm)]
    intro hs
    exact h (List.mem_cons_of_mem c (List.mem_of_mem_head? hs))

theorem beforeSpaces_append_of_not_mem (s : Text) {t : Text} (h : ' ' ∉ t) :
    beforeSpaces (s ++ t) = beforeSpaces s := by
  have hhead : t.head? ≠ some ' ' := fun hs => h (List.mem_of_mem_head? hs)
  rw [beforeSpaces_append, if_neg hhead, beforeSpaces_eq_nil h]
  simp

/-- In a list with commas a space stands behind a comma, a space or a sign that has one behind it in
its own item. -/
theorem beforeSpaces_joinWith {items : List Text} {c : Char}
    (h : c ∈ beforeSpaces (joinWith ", " items)) :
    c = ',' ∨ c = ' ' ∨ ∃ item ∈ items, c ∈ beforeSpaces item := by
  induction items with
  | nil => cases h
  | cons item rest ih =>
    cases rest with
    | nil => exact .inr (.inr ⟨item, List.mem_singleton_self item, h⟩)
    | cons other rest =>
      rw [joinWith_cons_cons] at h
      obtain h | ⟨hc, -⟩ | h := mem_beforeSpaces_append h
      · exact .inr (.inr ⟨item, List.mem_cons_self, h⟩)
      · simp at hc
      obtain h | ⟨-, h⟩ | h := mem_beforeSpaces_append h
      · exact .inl (by simpa [beforeSpaces] using h)
      · exact .inr (.inl (by simpa using h.symm))
      · rcases ih h with h | h | ⟨item, hm, h⟩
        · exact .inl h
        · exact .inr (.inl h)
        · exact .inr (.inr ⟨item, List.mem_cons_of_mem _ hm, h⟩)

/-! ## Words -/

theorem mem_splitOn_of_infix {w t : Text} (hw : ' ' ∉ w) (h : ' ' :: (w ++ [' ']) <:+: t) :
    w ∈ t.splitOn ' ' := by
  obtain ⟨a, b, rfl⟩ := h
  have hcut : a ++ ' ' :: (w ++ [' ']) ++ b = a ++ ' ' :: (w ++ ' ' :: b) := by simp
  rw [hcut, List.splitOn_append_cons_self, List.splitOn_append_cons_self,
    List.splitOn_eq_singleton hw]
  simp

end CostLens
