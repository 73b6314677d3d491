import CostLens.Source.Declaration
import CostLens.Proofs.Text.Word

/-! # What declaration rules have in common

A rule that fits a line fixes the first words of the line: each leading word is the whole word at
its place, and another word follows. So two rules that fit one line agree on their leading words as
far as both have some.
-/
namespace CostLens

namespace DeclarationRule

/-- A text whose first word is followed by white space and another word. -/
def GoesOn (t : Text) : Prop :=
  ∃ c r d v, t.dropWhile isWord = c :: r ∧ isBlank c = true ∧ trimStart r = d :: v ∧
    isWord d = true

theorem afterWords?_append {w r : Text} {c : Char} (hc : isBlank c = true) (ws : List Text) :
    afterWords? (w :: ws) (w ++ c :: r) = afterWords? ws (trimStart r) := by
  have hp : w.isPrefixOf? (w ++ c :: r) = some (c :: r) :=
    List.isPrefixOf?_eq_some_iff_append_eq.2 rfl
  simp only [afterWords?, hp, hc, ↓reduceIte]

theorem afterWords?_cons_eq_some {w t u : Text} {ws : List Text} :
    afterWords? (w :: ws) t = some u ↔ ∃ c r, t = w ++ c :: r ∧ isBlank c = true ∧
      afterWords? ws (trimStart r) = some u := by
  constructor
  · intro h
    rw [afterWords?] at h
    split at h
    · next c r hp =>
      split at h
      · next hc => exact ⟨c, r, (List.append_eq_of_isPrefixOf?_eq_some hp).symm, hc, h⟩
      · cases h
    · cases h
  · rintro ⟨c, r, rfl, hc, h⟩
    rw [afterWords?_append hc, h]

theorem name?_eq_some {rule : DeclarationRule} {line name : Text} :
    rule.name? line = some name ↔ ∃ t, afterWords? rule.leading (trimStart line) = some t ∧
      name = t.takeWhile isWord ∧ name ≠ [] ∧ rule.refused.any (startsWith name) = false ∧
      rule.follows (t.dropWhile isWord) = true := by
  unfold name?
  constructor
  · intro h
    split at h
    · cases h
    · next t ht =>
      simp only at h
      split at h
      · next hc =>
        cases h
        simp only [Bool.and_eq_true, Bool.not_eq_true', List.isEmpty_eq_false_iff] at hc
        exact ⟨t, ht, rfl, hc.1.1, hc.1.2, hc.2⟩
      · cases h
  · rintro ⟨t, ht, rfl, hne, hr, hf⟩
    simp [ht, hne, hr, hf]

theorem takeWhile_of_afterWords? {w t u : Text} {ws : List Text} (hw : ∀ d ∈ w, isWord d = true)
    (h : afterWords? (w :: ws) t = some u) : t.takeWhile isWord = w := by
  obtain ⟨c, r, rfl, hc, -⟩ := afterWords?_cons_eq_some.1 h
  exact (takeWhile_word hw hc).1

/-- A word made of word characters. -/
def IsPlain (w : Text) : Prop := w ≠ [] ∧ ∀ d ∈ w, isWord d = true

instance (w : Text) : Decidable (IsPlain w) :=
  @instDecidableAnd _ _ _ (List.decidableBAll (fun d => isWord d = true) w)

theorem goesOn_of_afterWords? {w t u : Text} {ws : List Text} (hw : ∀ w' ∈ w :: ws, IsPlain w')
    (hu : u.takeWhile isWord ≠ []) (h : afterWords? (w :: ws) t = some u) : GoesOn t := by
  obtain ⟨c, r, rfl, hc, hr⟩ := afterWords?_cons_eq_some.1 h
  obtain ⟨hplain, hws⟩ := List.forall_mem_cons.1 hw
  have hnext : (trimStart r).takeWhile isWord ≠ [] := by
    cases ws with
    | nil =>
      obtain rfl := Option.some.inj hr
      exact hu
    | cons w₂ ws =>
      obtain ⟨hplain₂, -⟩ := List.forall_mem_cons.1 hws
      rw [takeWhile_of_afterWords? hplain₂.2 hr]
      exact hplain₂.1
  obtain ⟨d, v, hv, hd⟩ := exists_cons_of_takeWhile hnext
  exact ⟨c, r, d, v, (takeWhile_word hplain.2 hc).2, hc, hv, hd⟩

/-- Where another word follows, no other sign does. -/
theorem GoesOn.not_sign {t : Text} (h : GoesOn t) {x : Char} (hx : isWord x = false)
    (w : Text) (k : Test) : Test.blanks (Test.lit (x :: w) k) (t.dropWhile isWord) = false := by
  obtain ⟨c, r, d, v, ht, hc, hv, hd⟩ := h
  have hne : x ≠ d := by
    rintro rfl
    rw [hx] at hd
    cases hd
  have htrim : trimStart (c :: r) = d :: v := by
    rw [trimStart, List.dropWhile_cons_of_pos hc]
    exact hv
  rw [ht, Test.blanks, htrim, Test.lit]
  have hp : (x :: w).isPrefixOf? (d :: v) = none := if_neg (by simpa using hne)
  rw [hp]

end DeclarationRule

namespace Declaration

open Test

/-- The rules for braces by the words they begin with. -/
theorem braceRules_shape {rule : DeclarationRule} (h : rule ∈ braceRules) :
    (∃ k, rule = ⟨[], [], sign ":" k⟩) ∨ rule = ⟨[], controlWords, methodBody⟩ ∨
    (∃ w ∈ (["function", "const", "let", "var", "export"] : List Text), ∃ ws,
      rule.leading = w :: ws) ∨
    rule = ⟨["async"], controlWords, methodBody⟩ ∨
    rule = ⟨["async", "function"], [], parenthesis⟩ ∨ rule = ⟨["class"], [], done⟩ := by
  have hbound : ∀ k, rule ∈ (["const", "let", "var"] : List Text).map
      (fun w => (⟨[w], [], sign "=" k⟩ : DeclarationRule)) →
      ∃ w ∈ (["function", "const", "let", "var", "export"] : List Text), ∃ ws,
        rule.leading = w :: ws := by
    intro k hm
    obtain ⟨w, hw, rfl⟩ := List.mem_map.1 hm
    refine ⟨w, ?_, [], rfl⟩
    simp only [List.mem_cons, List.not_mem_nil, or_false] at hw ⊢
    rcases hw with rfl | rfl | rfl
    · exact .inr (.inl rfl)
    · exact .inr (.inr (.inl rfl))
    · exact .inr (.inr (.inr (.inl rfl)))
  unfold braceRules at h
  simp only [List.mem_append, List.mem_cons, List.not_mem_nil, or_false] at h
  rcases h with ((((rfl | h) | h) | h) | h) | h
  · exact .inr (.inr (.inl ⟨_, by decide, _, rfl⟩))
  · exact .inr (.inr (.inl (hbound _ h)))
  · exact .inr (.inr (.inl (hbound _ h)))
  · exact .inr (.inr (.inl (hbound _ h)))
  · exact .inr (.inr (.inl (hbound _ h)))
  rcases h with rfl | rfl | rfl | rfl | rfl | rfl | rfl | rfl | rfl | rfl | rfl | rfl | rfl
  · exact .inl ⟨_, rfl⟩
  · exact .inl ⟨_, rfl⟩
  · exact .inl ⟨_, rfl⟩
  · exact .inl ⟨_, rfl⟩
  · exact .inr (.inl rfl)
  · exact .inr (.inr (.inr (.inl rfl)))
  · exact .inr (.inr (.inr (.inr (.inl rfl))))
  · exact .inr (.inr (.inl ⟨_, by decide, _, rfl⟩))
  · exact .inr (.inr (.inl ⟨_, by decide, _, rfl⟩))
  · exact .inr (.inr (.inl ⟨_, by decide, _, rfl⟩))
  · exact .inr (.inr (.inl ⟨_, by decide, _, rfl⟩))
  · exact .inr (.inr (.inr (.inr (.inr rfl))))
  · exact .inr (.inr (.inl ⟨_, by decide, _, rfl⟩))

end Declaration

end CostLens
