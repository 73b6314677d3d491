import CostLens.Text.Test
import CostLens.Proofs.Text.Phrase

/-! # Tests of longer texts

A test built from words, classes of characters and white space never asks where the text ends, so
it goes on to hold when more text follows. A test that looks for its place in the text goes on to
hold when text is put in front as well, as long as no word character is put right before.
-/
namespace CostLens.Test

variable {k : Test} {w t : Text} {p : Char → Bool}

/-! ## What a test reads -/

theorem lit_iff : lit w k t = true ↔ ∃ rest, t = w ++ rest ∧ k rest = true := by
  constructor
  · intro h
    rw [lit] at h
    split at h
    · next rest hr => exact ⟨rest, (List.append_eq_of_isPrefixOf?_eq_some hr).symm, h⟩
    · cases h
  · rintro ⟨rest, rfl, hk⟩
    rw [lit, List.isPrefixOf?_eq_some_iff_append_eq.2 rfl]
    exact hk

theorem one_iff : one p k t = true ↔ ∃ c rest, t = c :: rest ∧ p c = true ∧ k rest = true := by
  cases t with
  | nil => simp [one]
  | cons c rest => simp [one]

theorem many_iff : many p k t = true ↔
    ∃ s rest, t = s ++ rest ∧ (∀ c ∈ s, p c = true) ∧ k rest = true := by
  induction t with
  | nil =>
    constructor
    · intro h
      exact ⟨[], [], rfl, by simp, h⟩
    · rintro ⟨s, rest, he, -, hk⟩
      obtain ⟨rfl, rfl⟩ := List.append_eq_nil_iff.1 he.symm
      exact hk
  | cons c t ih =>
    simp only [many, Bool.or_eq_true, Bool.and_eq_true, ih]
    constructor
    · rintro (hk | ⟨hc, s, rest, rfl, hs, hk⟩)
      · exact ⟨[], c :: t, rfl, by simp, hk⟩
      · exact ⟨c :: s, rest, rfl, List.forall_mem_cons.2 ⟨hc, hs⟩, hk⟩
    · rintro ⟨s, rest, he, hs, hk⟩
      cases s with
      | nil => exact .inl (he ▸ hk)
      | cons d s =>
        obtain ⟨rfl, rfl⟩ := List.cons.inj he
        obtain ⟨hc, hs⟩ := List.forall_mem_cons.1 hs
        exact .inr ⟨hc, s, rest, rfl, hs, hk⟩

theorem somewhere_iff : somewhere k t = true ↔ ∃ s rest, t = s ++ rest ∧ k rest = true := by
  simp [somewhere, many_iff]

theorem has_iff : has w t = true ↔ ∃ i, w <+: t.drop i := by
  rw [has, somewhere_iff]
  constructor
  · rintro ⟨s, rest, rfl, hl⟩
    obtain ⟨behind, rfl, -⟩ := lit_iff.1 hl
    exact ⟨s.length, behind, by rw [List.drop_left]⟩
  · rintro ⟨i, behind, he⟩
    refine ⟨t.take i, t.drop i, (List.take_append_drop i t).symm, ?_⟩
    exact lit_iff.2 ⟨behind, he.symm, rfl⟩

/-- A word begins where no word character stands before: neither in the text nor, at its beginning,
in front of it. -/
theorem atWordStart_iff {inWord : Bool} : atWordStart k inWord t = true ↔
    ∃ s rest, t = s ++ rest ∧ s.getLast?.elim inWord isWord = false ∧ k rest = true := by
  induction t generalizing inWord with
  | nil =>
    simp only [atWordStart, Bool.and_eq_true, Bool.not_eq_true']
    constructor
    · rintro ⟨hw, hk⟩
      exact ⟨[], [], rfl, hw, hk⟩
    · rintro ⟨s, rest, he, hw, hk⟩
      obtain ⟨rfl, rfl⟩ := List.append_eq_nil_iff.1 he.symm
      exact ⟨hw, hk⟩
  | cons c t ih =>
    have hlast (s : Text) :
        (c :: s).getLast?.elim inWord isWord = s.getLast?.elim (isWord c) isWord := by
      rw [List.getLast?_cons]
      cases s.getLast? <;> rfl
    simp only [atWordStart, Bool.or_eq_true, Bool.and_eq_true, Bool.not_eq_true', ih]
    constructor
    · rintro (⟨hw, hk⟩ | ⟨s, rest, rfl, hw, hk⟩)
      · exact ⟨[], c :: t, rfl, hw, hk⟩
      · exact ⟨c :: s, rest, rfl, (hlast s).trans hw, hk⟩
    · rintro ⟨s, rest, he, hw, hk⟩
      cases s with
      | nil => exact .inl ⟨hw, he ▸ hk⟩
      | cons d s =>
        obtain ⟨rfl, rfl⟩ := List.cons.inj he
        exact .inr ⟨s, rest, rfl, (hlast s).symm.trans hw, hk⟩

/-! ## Tests that more text does not disturb -/

/-- What holds of a text holds of every text that goes on longer. -/
def Persists (k : Test) : Prop := ∀ s t : Text, k s = true → k (s ++ t) = true

theorem persists_done : Persists done := fun _ _ _ => rfl

namespace Persists

variable (h : Persists k)
include h

theorem lit (w : Text) : Persists (lit w k) := by
  intro s t hs
  obtain ⟨rest, rfl, hk⟩ := lit_iff.1 hs
  exact lit_iff.2 ⟨rest ++ t, List.append_assoc .., h rest t hk⟩

theorem one (p : Char → Bool) : Persists (one p k) := by
  intro s t hs
  obtain ⟨c, rest, rfl, hc, hk⟩ := one_iff.1 hs
  exact one_iff.2 ⟨c, rest ++ t, rfl, hc, h rest t hk⟩

theorem many (p : Char → Bool) : Persists (many p k) := by
  intro s t hs
  obtain ⟨front, rest, rfl, hp, hk⟩ := many_iff.1 hs
  exact many_iff.2 ⟨front, rest ++ t, List.append_assoc .., hp, h rest t hk⟩

theorem blanks : Persists (blanks k) := by
  intro s t hs
  rw [Test.blanks, trimStart] at hs ⊢
  rw [List.dropWhile_append]
  split
  · next he =>
    -- white space only: the test has already held of nothing at all
    rw [List.isEmpty_iff] at he
    rw [he] at hs
    exact h [] _ hs
  · exact h _ t hs

theorem gap : Persists (gap k) := h.blanks.one isBlank

theorem onLine : Persists (onLine k) := h.many _

end Persists

/-! ## Tests that look for their place -/

/-- A text stands in another one with no word character right before it. -/
def StandsIn (s t : Text) : Prop :=
  ∃ before behind, t = before ++ s ++ behind ∧ ∀ c ∈ before.getLast?, isWord c = false

/-- What holds of a text holds of every text in which it stands. -/
def Spreads (k : Test) : Prop := ∀ s t : Text, StandsIn s t → k s = true → k t = true

theorem Persists.spreads_somewhere (h : Persists k) : Spreads (somewhere k) := by
  rintro s t ⟨before, behind, rfl, -⟩ hs
  obtain ⟨front, rest, rfl, hk⟩ := somewhere_iff.1 hs
  exact somewhere_iff.2 ⟨before ++ front, rest ++ behind, by simp, h rest behind hk⟩

theorem Persists.spreads_atWordStart (h : Persists k) : Spreads (atWordStart k false) := by
  rintro s t ⟨before, behind, rfl, hbefore⟩ hs
  obtain ⟨front, rest, rfl, hfront, hk⟩ := atWordStart_iff.1 hs
  refine atWordStart_iff.2 ⟨before ++ front, rest ++ behind, by simp, ?_, h rest behind hk⟩
  rw [List.getLast?_append]
  cases hl : front.getLast? with
  | some c => rwa [hl] at hfront
  | none =>
    cases hb : before.getLast? with
    | none => rfl
    | some c => exact hbefore c hb

theorem spreads_has (w : Text) : Spreads (has w) := (persists_done.lit w).spreads_somewhere

theorem spreads_hasWord (w : Text) : Spreads (hasWord w) :=
  (persists_done.lit w).spreads_atWordStart

end CostLens.Test

namespace CostLens

/-- A block of lines stands in the text of all the lines: before it comes a line feed or nothing. -/
theorem standsIn_joinLines {block lines : List Text} (h : block <:+: lines) :
    Test.StandsIn (joinLines block) (joinLines lines) := by
  obtain ⟨before, behind, rfl⟩ := h
  by_cases hblock : block = []
  · exact ⟨[], joinLines (before ++ block ++ behind), by rw [hblock]; rfl, by simp⟩
  have hfront : ∃ front, joinLines (before ++ block) = front ++ joinLines block ∧
      ∀ c ∈ front.getLast?, isWord c = false := by
    by_cases hbefore : before = []
    · exact ⟨[], by rw [hbefore]; rfl, by simp⟩
    · refine ⟨joinLines before ++ [newline], ?_, ?_⟩
      · rw [joinLines_append hbefore hblock, List.append_assoc]
        rfl
      · intro c hc
        rw [List.getLast?_concat, Option.mem_some_iff] at hc
        exact hc ▸ by decide
  obtain ⟨front, hf, hword⟩ := hfront
  by_cases hbehind : behind = []
  · exact ⟨front, [], by rw [hbehind, List.append_nil, List.append_nil, hf], hword⟩
  · refine ⟨front, newline :: joinLines behind, ?_, hword⟩
    rw [joinLines_append (by simp [hblock]) hbehind, hf]

end CostLens
