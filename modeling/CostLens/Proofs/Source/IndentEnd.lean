import CostLens.Proofs.Source.Nesting
import Mathlib.Order.Bounds.Defs

/-! # Where an indented block ends

A block ends on the first line behind its first one that is neither blank nor a comment and is
indented no deeper, if that comes before the end of the document and within the greatest length. How
deep a line is indented shows in the white space it begins with alone. The last line that is looked
at decides nothing: the block ends there whether or not it is indented deeper.
-/
namespace CostLens

/-! ## Indentation -/

/-- The width of the white space that a line begins with, tabs expanded. -/
def leadingWidth (line : Text) : Nat := (expandTabs tabWidth 0 (line.takeWhile isBlank)).length

/-- Expanding tabs turns white space into white space and leaves all else as it is. -/
theorem takeWhile_expandTabs (width column : Nat) (line : Text) :
    (expandTabs width column line).takeWhile isBlank =
      expandTabs width column (line.takeWhile isBlank) := by
  induction line generalizing column with
  | nil => rfl
  | cons c line ih =>
    by_cases hblank : isBlank c = true
    · rw [List.takeWhile_cons_of_pos hblank]
      unfold expandTabs
      split
      · have hspaces : ∀ d ∈ List.replicate (width - column % width) ' ', isBlank d = true := by
          intro d hd
          rw [List.eq_of_mem_replicate hd]
          decide
        rw [List.takeWhile_append_of_pos hspaces, ih]
      · split
        · rw [List.takeWhile_cons_of_pos hblank, ih]
        · rw [List.takeWhile_cons_of_pos hblank, ih]
    · have htab : c ≠ '\t' := by
        rintro rfl
        exact hblank (by decide)
      have hreturn : ¬ (c = '\n' ∨ c = '\r') := by
        rintro (rfl | rfl) <;> exact hblank (by decide)
      rw [expandTabs, if_neg htab, if_neg hreturn, List.takeWhile_cons_of_neg hblank,
        List.takeWhile_cons_of_neg hblank]
      rfl

theorem indentation_eq_leadingWidth (line : Text) : indentation line = leadingWidth line := by
  rw [indentation, takeWhile_expandTabs, leadingWidth]

namespace Block

variable {lines : List Text} {line : Text} {start i : Nat}

/-! ## Dedents -/

/-- Line `i` comes behind line `start`, is neither blank nor a comment, and has no wider white space
in front. -/
structure Dedents (lines : List Text) (start i : Nat) : Prop where
  start_lt : start < i
  ends : ∃ first line, lines[start]? = some first ∧ lines[i]? = some line ∧ trim line ≠ [] ∧
    ¬ ("#" : Text) <+: trim line ∧ leadingWidth line ≤ leadingWidth first

theorem isDedent_iff {base : Nat} : isDedent base line = true ↔
    trim line ≠ [] ∧ ¬ ("#" : Text) <+: trim line ∧ leadingWidth line ≤ base := by
  simp only [isDedent, Bool.and_eq_true, Bool.not_eq_true', ← Bool.not_eq_true, List.isEmpty_iff,
    startsWith_iff, decide_eq_true_eq, and_assoc, indentation_eq_leadingWidth, ne_eq]

theorem dedents_iff {first : Text} (h : lines[start]? = some first) (hi : lines[i]? = some line) :
    Dedents lines start i ↔ start < i ∧ isDedent (indentation first) line = true := by
  rw [isDedent_iff, indentation_eq_leadingWidth]
  constructor
  · rintro ⟨hlt, first', line', hf, hl, hends⟩
    obtain rfl := Option.some.inj (h.symm.trans hf)
    obtain rfl := Option.some.inj (hi.symm.trans hl)
    exact ⟨hlt, hends⟩
  · rintro ⟨hlt, hends⟩
    exact ⟨hlt, first, line, h, hi, hends⟩

/-- No dedent comes before the end of a block, and only a dedent ends it early. -/
theorem exists_indentEnd? (h : start < lines.length) : ∃ e : Nat,
    indentEnd? lines start = some (e : Int) ∧ start < e ∧ e ≤ min lines.length (start + 50) ∧
    (∀ i, Dedents lines start i → e ≤ i) ∧
    (e < min lines.length (start + 50) → Dedents lines start e) := by
  have hfirst := List.getElem?_eq_getElem h
  obtain ⟨e, he, hinside, hend⟩ := indentEnd?_eq hfirst
  obtain ⟨last, hlast, hlt⟩ := lt_indentEnd? hfirst
  have hle := indentEnd?_le hfirst he
  rw [he, Option.some.injEq] at hlast
  refine ⟨e, he, by omega, by omega, ?_, ?_⟩
  · intro i hi
    by_contra hie
    obtain ⟨-, line, -, hl, -⟩ := hi.ends
    have hd := ((dedents_iff hfirst hl).1 hi).2
    rw [hinside i line hi.start_lt (by omega) hl] at hd
    cases hd
  · intro hearly
    rcases hend with ⟨line, hl, hd⟩ | hcut
    · exact (dedents_iff hfirst hl).2 ⟨by omega, hd⟩
    · rw [maxSpan] at hcut
      omega

/-! ## The lines that are looked at -/

/-- The end of a block when `n` lines behind its first one are looked at. -/
def indentEndWithin? (n : Nat) (lines : List Text) (start : Nat) : Option Int :=
  match lines.drop start with
  | first :: block =>
    match (block.take n).findIdx? (isDedent (indentation first)) with
    | some k => some (start + 1 + k)
    | none => some (min lines.length (start + maxSpan))
  | [] => none

theorem indentEnd?_eq_within (lines : List Text) (start : Nat) :
    indentEnd? lines start = indentEndWithin? maxSpan lines start := by
  rw [indentEnd?, linesFrom?_natCast, indentEndWithin?]
  cases lines.drop start <;> rfl

/-- At the greatest length a block ends with a dedent as it does without one. -/
theorem indentEndWithin?_pred (lines : List Text) (start : Nat) :
    indentEndWithin? (maxSpan - 1) lines start = indentEndWithin? maxSpan lines start := by
  unfold indentEndWithin?
  cases hb : lines.drop start with
  | nil => rfl
  | cons first block =>
    have hlast : block.take maxSpan = block.take (maxSpan - 1) ++ block[maxSpan - 1]?.toList :=
      List.take_add_one
    simp only
    rw [hlast, List.findIdx?_append]
    cases (block.take (maxSpan - 1)).findIdx? (isDedent (indentation first)) with
    | some k => rfl
    | none =>
      cases hl : block[maxSpan - 1]? with
      | none => rfl
      | some line =>
        obtain ⟨hlt, -⟩ := List.getElem?_eq_some_iff.1 hl
        have htake : (block.take (maxSpan - 1)).length = maxSpan - 1 :=
          List.length_take_of_le (Nat.le_of_lt hlt)
        have hlen := congrArg List.length hb
        rw [List.length_drop, List.length_cons] at hlen
        simp only [Option.toList_some, List.findIdx?_singleton, htake, Option.none_or]
        cases isDedent (indentation first) line with
        | false => rfl
        | true =>
          simp only [↓reduceIte, Option.map_some, Option.some.injEq, maxSpan] at hlt ⊢
          omega

/-- An indented block ends on the least dedent behind its first line, if there is one before the end
of the document and within the greatest length, and is cut there otherwise. So each of its lines is
indented deeper, blank ones and comments aside, where only the white space in front of a line
counts. The line at the greatest length need not be looked at. -/
theorem indentEnd?_least (h : start < lines.length) : ∃ e : Nat,
    indentEnd? lines start = some (e : Int) ∧ start < e ∧
    ((∃ i, Dedents lines start i ∧ i < min lines.length (start + 50)) →
      IsLeast {i | Dedents lines start i ∧ i < min lines.length (start + 50)} e) ∧
    ((¬ ∃ i, Dedents lines start i ∧ i < min lines.length (start + 50)) →
      e = min lines.length (start + 50)) ∧
    (∀ i first line, start < i → i < e → lines[start]? = some first → lines[i]? = some line →
      trim line ≠ [] → ¬ ("#" : Text) <+: trim line → indentation first < indentation line) ∧
    (∀ line, indentation line = leadingWidth line) ∧
    indentEndWithin? 50 lines start = some (e : Int) ∧
    indentEndWithin? 49 lines start = some (e : Int) := by
  obtain ⟨e, he, hlt, hle, hbefore, hends⟩ := exists_indentEnd? h
  have hwithin := (indentEnd?_eq_within lines start).symm.trans he
  refine ⟨e, he, hlt, ?_, ?_, ?_, indentation_eq_leadingWidth, hwithin,
    (indentEndWithin?_pred lines start).trans hwithin⟩
  · rintro ⟨i, hi, hib⟩
    have hearly := Nat.lt_of_le_of_lt (hbefore i hi) hib
    exact ⟨⟨hends hearly, hearly⟩, fun j hj => hbefore j hj.1⟩
  · intro hnone
    by_contra hne
    have hearly : e < min lines.length (start + 50) := by omega
    exact hnone ⟨e, hends hearly, hearly⟩
  · intro i first line hi hie hf hl hne hmark
    rw [indentation_eq_leadingWidth, indentation_eq_leadingWidth]
    by_contra hnot
    have hd : Dedents lines start i :=
      ⟨hi, first, line, hf, hl, hne, hmark, Nat.le_of_not_lt hnot⟩
    exact absurd (hbefore i hd) (by omega)

/-- A comment at the margin and a tab among the lines of a function. -/
theorem indentEnd?_least_tab :
    let lines : List Text := ["  def f(x):", "# none", "\treturn x", "", "  y = f(1)"]
    0 < lines.length ∧ ∃ e : Nat, indentEnd? lines 0 = some (e : Int) ∧
      IsLeast {i | Dedents lines 0 i ∧ i < min lines.length (0 + 50)} e := by
  intro lines
  have hlines : 0 < lines.length := by decide
  have hdedent : Dedents lines 0 4 :=
    ⟨by decide, "  def f(x):", "  y = f(1)", rfl, rfl, by decide, by decide, by decide⟩
  obtain ⟨e, he, -, hleast, -⟩ := indentEnd?_least hlines
  exact ⟨hlines, e, he, hleast ⟨4, hdedent, by decide⟩⟩

end Block

end CostLens
