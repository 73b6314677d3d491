import CostLens.Analysis.Idiom
import CostLens.Analysis.Loop
import CostLens.Analysis.Structure
import CostLens.Proofs.Text.Test
import Mathlib.Data.Nat.Basic
import Mathlib.Order.MinMax

/-! # Blocks inside blocks

What is found in a block of lines is found in all the lines around it as well. The structures and
idioms are told by tests that go on to hold in a longer text. The depth is kept by a counter that
closing braces take down, but never below zero: lines in front of a block leave it at least as high
as nothing does, and from there on a higher counter stays higher. More kinds of headers have the
same effect.
-/
namespace CostLens

/-! ## Loop nesting -/

namespace Loop

variable {family wider : Family} {line : Text} {block lines : List Text} {d e : Nat × Nat}

/-- A line takes a lower counter no higher than a higher one, even when fewer lines are headers. -/
theorem step_le_step (h : isHeader family line = true → isHeader wider line = true) (hde : d ≤ e) :
    step family d line ≤ step wider e line := by
  obtain ⟨hcurrent, hgreatest⟩ := Prod.le_def.1 hde
  have hheader : (if isHeader family line then d.1 + 1 else d.1) ≤
      if isHeader wider line then e.1 + 1 else e.1 := by
    by_cases hf : isHeader family line = true
    · rw [if_pos hf, if_pos (h hf)]
      omega
    · rw [if_neg hf]
      split <;> omega
  exact Prod.le_def.2 ⟨Nat.sub_le_sub_right hheader _, max_le_max hgreatest hheader⟩

theorem foldl_step_le (h : ∀ line ∈ lines, isHeader family line = true → isHeader wider line = true)
    (hde : d ≤ e) : lines.foldl (step family) d ≤ lines.foldl (step wider) e :=
  List.foldl_rel hde fun line hl _ _ hde => step_le_step (h line hl) hde

theorem le_foldl_step (family : Family) (lines : List Text) (d : Nat × Nat) :
    d.2 ≤ (lines.foldl (step family) d).2 := by
  induction lines generalizing d with
  | nil => exact Nat.le_refl _
  | cons line lines ih => exact (Nat.le_max_left ..).trans (ih (step family d line))

theorem foldl_step_le_of_infix (family : Family) (h : block <:+: lines) :
    (block.foldl (step family) (0, 0)).2 ≤ (lines.foldl (step family) (0, 0)).2 := by
  obtain ⟨before, behind, rfl⟩ := h
  have hstart : ((0, 0) : Nat × Nat) ≤ before.foldl (step family) (0, 0) :=
    Prod.le_def.2 ⟨Nat.zero_le _, Nat.zero_le _⟩
  rw [List.foldl_append, List.foldl_append]
  exact (foldl_step_le (fun _ _ => id) hstart).2.trans (le_foldl_step family behind _)

theorem depth_nil (family : Family) : depth family [] = 0 := by cases family <;> decide

theorem depth_joinLines_le (family : Family) (h : block <:+: lines) :
    depth family (joinLines block) ≤ depth family (joinLines lines) := by
  by_cases hblock : block = []
  · rw [hblock]
    exact (depth_nil family).trans_le (Nat.zero_le _)
  · have hlines : lines ≠ [] := fun hl => hblock (List.infix_nil.1 (hl ▸ h))
    rw [depth, depth, splitLines_joinLines hblock, splitLines_joinLines hlines]
    obtain ⟨before, behind, rfl⟩ := h
    refine foldl_step_le_of_infix family ⟨before.flatMap splitLines, behind.flatMap splitLines, ?_⟩
    rw [List.flatMap_append, List.flatMap_append]

theorem isHeader_of_brace (family : Family) (h : isHeader .brace line = true) :
    isHeader family line = true := by
  have hmore (tests : List Test) : (headers ++ tests).any (· line) = true := by
    rw [List.any_append, Bool.or_eq_true]
    exact .inl h
  cases family with
  | brace => exact h
  | indent => exact hmore _
  | mixed => exact hmore _

theorem depth_brace_le (family : Family) (span : Text) : depth .brace span ≤ depth family span :=
  (foldl_step_le (fun _ _ => isHeader_of_brace family) le_rfl).2

end Loop

/-! ## Structures and idioms -/

open Test

theorem Test.any_joinLines {tests : List Test} (h : ∀ k ∈ tests, Spreads k)
    {block lines : List Text} (hb : block <:+: lines)
    (ha : tests.any (· (joinLines block)) = true) :
    tests.any (· (joinLines lines)) = true := by
  obtain ⟨k, hk, hs⟩ := List.any_eq_true.1 ha
  exact List.any_eq_true.2 ⟨k, hk, h k hk _ _ (standsIn_joinLines hb) hs⟩

namespace Structure

theorem spreads_built {k : Test} (h : Persists k) : Spreads (built k) :=
  (h.gap.lit "new").spreads_somewhere

theorem spreads_between (first last : Text) : Spreads (between first last) :=
  ((persists_done.lit last).onLine.lit first).spreads_somewhere

theorem idioms_spread (kind : Structure) : ∀ k ∈ kind.idioms, Spreads k := by
  have hword (w : Text) : Spreads (built (lit w done)) := spreads_built (persists_done.lit w)
  have harray : Spreads (built (many isWord (lit "Array" done))) :=
    spreads_built ((persists_done.lit _).many isWord)
  cases kind <;>
    simp only [idioms, List.forall_mem_cons, List.not_mem_nil, false_implies, implies_true,
      and_true, hword, harray, spreads_between, spreads_has, spreads_hasWord]

theorem find_subset {block lines : List Text} (h : block <:+: lines) :
    find (joinLines block) ⊆ find (joinLines lines) := by
  intro kind hk
  obtain ⟨hall, hany⟩ := List.mem_filter.1 hk
  exact List.mem_filter.2 ⟨hall, any_joinLines kind.idioms_spread h hany⟩

end Structure

namespace Idioms

/-- Every idiom that the one text shows is shown by the other. -/
structure Within (a b : Idioms) : Prop where
  quadraticSort : a.quadraticSort = true → b.quadraticSort = true
  linearithmicSort : a.linearithmicSort = true → b.linearithmicSort = true
  binarySearch : a.binarySearch = true → b.binarySearch = true

theorem spreads_halving : Spreads halving :=
  ((((persists_done.lit "2").onLine.lit "/").onLine.lit "<").onLine.lit "while").spreads_somewhere

theorem find_within {block lines : List Text} (h : block <:+: lines) :
    (find (joinLines block)).Within (find (joinLines lines)) := by
  have hquadratic : ∀ k ∈ quadraticSorts, Spreads k := by
    simp [quadraticSorts, spreads_has, spreads_hasWord]
  have hlinearithmic : ∀ k ∈ linearithmicSorts, Spreads k := by
    simp [linearithmicSorts, spreads_has]
  have hbinary : ∀ k ∈ binarySearches, Spreads k := by
    simp [binarySearches, spreads_has, spreads_halving]
  exact ⟨any_joinLines hquadratic h, any_joinLines hlinearithmic h, any_joinLines hbinary h⟩

end Idioms

/-- A block of lines never looks more costly than all the lines: it has no greater depth in any
family, and no structure or idiom of its own. Counting the headers of indented languages as well
never makes a text less deep. -/
theorem enclosing_finds_more :
    (∀ block lines : List Text, block <:+: lines →
      (∀ family, Loop.depth family (joinLines block) ≤ Loop.depth family (joinLines lines)) ∧
      Structure.find (joinLines block) ⊆ Structure.find (joinLines lines) ∧
      (Idioms.find (joinLines block)).Within (Idioms.find (joinLines lines))) ∧
    ∀ span, Loop.depth .brace span ≤ Loop.depth .indent span ∧
      Loop.depth .indent span = Loop.depth .mixed span := by
  constructor
  · intro block lines h
    exact ⟨fun family => Loop.depth_joinLines_le family h, Structure.find_subset h,
      Idioms.find_within h⟩
  · intro span
    -- the last two families share their headers
    exact ⟨Loop.depth_brace_le .indent span, rfl⟩

/-- A loop over a list, behind a line that closes more than it opens. -/
theorem enclosing_finds_more_behind_braces :
    let block : List Text := ["for x in xs:", "  list(x)"]
    let lines : List Text := "\x7d\x7d" :: block
    block <:+: lines ∧ Loop.depth .indent (joinLines block) = 1 ∧
      Loop.depth .indent (joinLines block) ≤ Loop.depth .indent (joinLines lines) ∧
      Structure.array ∈ Structure.find (joinLines lines) := by
  intro block lines
  have hblock : block <:+: lines := (List.suffix_cons _ _).isInfix
  obtain ⟨hdepth, hstructures, -⟩ := enclosing_finds_more.1 block lines hblock
  exact ⟨hblock, by decide, hdepth .indent, hstructures (by decide)⟩

end CostLens
