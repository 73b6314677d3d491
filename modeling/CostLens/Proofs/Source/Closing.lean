import CostLens.Proofs.Source.Balance
import CostLens.Proofs.Text.Replace

/-! # The line of the closing brace

Braces match by nesting, character by character, while the end of a block is looked for line by
line: it is the first line at whose end all lines so far are balanced. The two agree when the rest
of the line behind the closing brace is balanced as well. Otherwise the search goes on to a later
line, and meets the closing brace at most where it gives up.
-/
namespace CostLens.Block

/-! ## Nested braces -/

/-- A text in which every brace has its partner. -/
inductive Nested : Text → Prop
  | nil : Nested []
  | plain {c : Char} {t : Text} : c ≠ '\x7b' → c ≠ '\x7d' → Nested t → Nested (c :: t)
  | braces {s t : Text} : Nested s → Nested t → Nested ('\x7b' :: (s ++ '\x7d' :: t))

theorem Nested.count_eq {t : Text} (h : Nested t) : t.count '\x7b' = t.count '\x7d' := by
  induction h with
  | nil => rfl
  | plain ho hc _ ih => simp [ho, hc, ih]
  | braces _ _ ihs iht =>
    simp [ihs, iht]
    omega

/-- Read from the left, no more braces are closed than have been opened. -/
theorem Nested.count_le {t p : Text} (h : Nested t) (hp : p <+: t) :
    p.count '\x7d' ≤ p.count '\x7b' := by
  induction h generalizing p with
  | nil => simp [List.prefix_nil.1 hp]
  | @plain c t ho hc _ ih =>
    cases p with
    | nil => exact Nat.le_refl _
    | cons d p =>
      obtain ⟨rfl, hp'⟩ := List.cons_prefix_cons.1 hp
      simpa [ho, hc] using ih hp'
  | @braces s t hs _ ihs iht =>
    cases p with
    | nil => exact Nat.le_refl _
    | cons d p =>
      obtain ⟨rfl, hp'⟩ := List.cons_prefix_cons.1 hp
      rcases prefix_append_cases hp' with hin | ⟨v, hv, rfl, hv'⟩
      · have hle := ihs hin
        simp
        omega
      · obtain ⟨e, v, rfl⟩ := List.exists_cons_of_ne_nil hv
        obtain ⟨rfl, hin⟩ := List.cons_prefix_cons.1 hv'
        have hle := iht hin
        have heq := hs.count_eq
        simp
        omega

/-! ## The closing brace -/

/-- Some lines whose first brace opens, and the brace that closes it. -/
structure Closing where
  before : List Text
  front : Text
  back : Text
  after : List Text
  outside : Text
  inside : Text
  /-- The opening brace stands between `outside` and `inside`. -/
  text_eq : before.flatten ++ front = outside ++ '\x7b' :: inside
  outside_plain : ∀ c ∈ outside, c ≠ '\x7b' ∧ c ≠ '\x7d'
  inside_nested : Nested inside

namespace Closing

variable (c : Closing)

/-- The lines. The closing brace stands between `front` and `back` on the line behind `before`. -/
def block : List Text := c.before ++ (c.front ++ '\x7d' :: c.back) :: c.after

/-- The line of the closing brace, counted from the first of the lines. -/
def line : Nat := c.before.length

theorem line_lt : c.line < c.block.length := by
  rw [block, List.length_append, List.length_cons, line]
  omega

theorem count_outside : c.outside.count '\x7b' = 0 ∧ c.outside.count '\x7d' = 0 :=
  ⟨List.count_eq_zero.2 fun h => (c.outside_plain _ h).1 rfl,
    List.count_eq_zero.2 fun h => (c.outside_plain _ h).2 rfl⟩

/-- Before the closing brace either none has been opened or more are open than closed. -/
theorem count_ne_of_prefix {p : Text} (hp : p <+: c.before.flatten ++ c.front)
    (hopen : 0 < p.count '\x7b') : p.count '\x7b' ≠ p.count '\x7d' := by
  obtain ⟨ho, hc⟩ := c.count_outside
  rw [c.text_eq] at hp
  rcases prefix_append_cases hp with hout | ⟨v, hv, rfl, hin⟩
  · have hle := hout.sublist.count_le '\x7b'
    omega
  · obtain ⟨d, v, rfl⟩ := List.exists_cons_of_ne_nil hv
    obtain ⟨rfl, hin'⟩ := List.cons_prefix_cons.1 hin
    have hle := c.inside_nested.count_le hin'
    simp [ho, hc]
    omega

theorem not_balanced_before {k : Nat} (hk : k < c.line) : ¬ Balanced (c.block.take (k + 1)) := by
  rw [block, List.take_append_of_le_length hk]
  rintro ⟨hopen, heq⟩
  refine c.count_ne_of_prefix ?_ hopen heq
  have hflat := congrArg List.flatten (List.take_append_drop (k + 1) c.before)
  rw [List.flatten_append] at hflat
  exact ⟨(c.before.drop (k + 1)).flatten ++ c.front, by rw [← List.append_assoc, hflat]⟩

/-- At the end of the line of the closing brace only the braces behind it count. -/
theorem balanced_line : Balanced (c.block.take (c.line + 1)) ↔
    c.back.count '\x7b' = c.back.count '\x7d' := by
  obtain ⟨ho, hc⟩ := c.count_outside
  have heq := c.inside_nested.count_eq
  have htext := congrArg (· ++ '\x7d' :: c.back) c.text_eq
  simp only [List.append_assoc, List.cons_append] at htext
  have hflat : (c.block.take (c.line + 1)).flatten =
      c.outside ++ '\x7b' :: (c.inside ++ '\x7d' :: c.back) := by
    rw [block, line, List.take_length_add_append, List.flatten_append, List.take_succ_cons,
      List.take_zero, List.flatten_singleton, htext]
  rw [Balanced, hflat]
  simp [ho, hc]
  omega

theorem balanceOffset?_eq_line_iff : balanceOffset? false 0 c.block = some c.line ↔
    c.back.count '\x7b' = c.back.count '\x7d' := by
  rw [balanceOffset?_eq_some_iff, c.balanced_line]
  constructor
  · rintro ⟨-, hback, -⟩
    exact hback
  · intro hback
    exact ⟨c.line_lt, hback, fun k hk => c.not_balanced_before hk⟩

theorem balanceOffset?_eq_none_iff : balanceOffset? false 0 c.block = none ↔
    ∀ k, c.line ≤ k → k < c.block.length → ¬ Balanced (c.block.take (k + 1)) := by
  rw [Block.balanceOffset?_eq_none_iff]
  constructor
  · intro h k _ hk
    exact h k hk
  · intro h k hk
    rcases Nat.lt_or_ge k c.line with hlt | hge
    · exact c.not_balanced_before hlt
    · exact h k hge hk

end Closing

/-- The end of a block is the line of the brace that closes its first one exactly when the rest of
that line is balanced, or when no line end from there on balances and the block is cut on that very
line. -/
theorem closing_line_found_iff {lines : List Text} {start : Int} {c : Closing}
    (h : linesFrom? lines start = some c.block) :
    braceEnd? lines start = some (start + c.line) ↔
      c.back.count '\x7b' = c.back.count '\x7d' ∨
      (∀ k, c.line ≤ k → k < c.block.length → ¬ Balanced (c.block.take (k + 1))) ∧
        start + c.line = min (start + maxSpan) (lines.length - 1) := by
  rw [braceEnd?, h, Option.map_some, ← c.balanceOffset?_eq_line_iff, ← c.balanceOffset?_eq_none_iff]
  cases balanceOffset? false 0 c.block with
  | none => simp only [Option.some.injEq, reduceCtorEq, false_or, true_and, eq_comm]
  | some k =>
    simp only [Option.some.injEq, reduceCtorEq, false_and, or_false]
    omega

/-- A line that closes an inner block with the outer one. -/
def twoClosed : Closing where
  before := ["class A \x7b", "f \x7b"]
  front := "\x7d"
  back := []
  after := ["g()"]
  outside := "class A "
  inside := "f \x7b\x7d"
  text_eq := rfl
  outside_plain := by simp
  inside_nested :=
    .plain (by decide) (by decide) (.plain (by decide) (by decide) (.braces .nil .nil))

/-- A line that closes one block and opens the next. -/
def closedAndOpened : Closing where
  before := ["f() \x7b"]
  front := []
  back := " g() \x7b"
  after := ["\x7d"]
  outside := "f() "
  inside := []
  text_eq := rfl
  outside_plain := by simp
  inside_nested := .nil

/-- The first block is found to end on its line, the second one is not. -/
theorem closing_line_found_iff_shared :
    braceEnd? twoClosed.block 0 = some (0 + twoClosed.line) ∧
      braceEnd? closedAndOpened.block 0 ≠ some (0 + closedAndOpened.line) := by
  have hfirst : linesFrom? twoClosed.block 0 = some twoClosed.block := rfl
  have hsecond : linesFrom? closedAndOpened.block 0 = some closedAndOpened.block := rfl
  constructor
  · exact (closing_line_found_iff hfirst).2 (.inl (by decide))
  · intro h
    rcases (closing_line_found_iff hsecond).1 h with hb | ⟨-, hcut⟩
    · exact absurd hb (by decide)
    · exact absurd hcut (by decide)

end CostLens.Block
