import CostLens.Proofs.Source.Balance
import CostLens.Proofs.Source.Entry
import CostLens.Proofs.Text.Phrase
import Mathlib.Order.Bounds.Defs

/-! # Where a block with braces ends

The search adds up braces line by line, with a balance that may fall below zero and come back, and
remembers whether one has been opened. All that matters is the lines read so far as a whole: the
block ends on the first line up to which they open a brace and close as many as they open, at any
distance, and is cut only where there is no such line at all.
-/
namespace CostLens.Block

variable {lines : List Text} {start e : Nat}

/-- The lines from `start` to `e`, both included, open a brace and close as many as they open. -/
structure BalancesAt (lines : List Text) (start e : Nat) : Prop where
  start_le : start ≤ e
  lt_length : e < lines.length
  balanced : Balanced ((lines.drop start).take (e + 1 - start))

theorem balancesAt_add {k : Nat} : BalancesAt lines start (start + k) ↔
    k < (lines.drop start).length ∧ Balanced ((lines.drop start).take (k + 1)) := by
  have hk : start + k + 1 - start = k + 1 := by omega
  rw [List.length_drop]
  constructor
  · rintro ⟨-, hlt, hb⟩
    exact ⟨by omega, hk ▸ hb⟩
  · rintro ⟨hlt, hb⟩
    exact ⟨Nat.le_add_right start k, by omega, hk.symm ▸ hb⟩

theorem isLeast_of_balanceOffset? {k : Nat}
    (h : balanceOffset? false 0 (lines.drop start) = some k) :
    IsLeast {e | BalancesAt lines start e} (start + k) := by
  obtain ⟨hk, hb, hbefore⟩ := balanceOffset?_eq_some_iff.1 h
  refine ⟨balancesAt_add.2 ⟨hk, hb⟩, ?_⟩
  intro e he
  obtain ⟨j, rfl⟩ := Nat.exists_eq_add_of_le he.start_le
  by_contra hlt
  exact hbefore j (by omega) (balancesAt_add.1 he).2

theorem not_balancesAt_of_balanceOffset? (h : balanceOffset? false 0 (lines.drop start) = none) :
    ¬ BalancesAt lines start e := by
  intro he
  obtain ⟨j, rfl⟩ := Nat.exists_eq_add_of_le he.start_le
  obtain ⟨hj, hb⟩ := balancesAt_add.1 he
  exact balanceOffset?_eq_none_iff.1 h j hj hb

/-! ## The text of a block -/

theorem text?_brace (h : start < lines.length) (e : Nat) : text? .brace lines start e =
    some (joinLines ((lines.drop start).take (e + 1 - start))) := by
  have hbrace : Family.brace.ofLine lines[start] ≠ .indent := nofun
  have hlast : min ((e : Int) + 1) lines.length = (min (e + 1) lines.length : Nat) := by omega
  rw [text?_of_line e (List.getElem?_eq_getElem h), if_neg hbrace, span, hlast,
    sliceLines_natCast, ← List.take_eq_take_min, List.drop_take]

theorem balanced_iff_joinLines (block : List Text) : Balanced block ↔
    '\x7b' ∈ joinLines block ∧ (joinLines block).count '\x7b' = (joinLines block).count '\x7d' := by
  rw [Balanced, ← List.count_pos_iff, count_joinLines (by decide), count_joinLines (by decide)]

theorem balancesAt_iff_text? (h : start < lines.length) (he : e < lines.length) {block : Text}
    (ht : text? .brace lines start e = some block) : BalancesAt lines start e ↔
      '\x7b' ∈ block ∧ block.count '\x7b' = block.count '\x7d' := by
  rw [text?_brace h] at ht
  obtain rfl := Option.some.inj ht
  rw [← balanced_iff_joinLines]
  refine ⟨BalancesAt.balanced, fun hb => ⟨?_, he, hb⟩⟩
  -- a block that ends before it begins has no brace
  by_contra hlt
  rw [Nat.sub_eq_zero_of_le (by omega), List.take_zero] at hb
  exact absurd hb (by decide)

/-- A block with braces ends on the first line up to which its braces balance, so that its text is
balanced and no shorter one with a brace in it is. Where no line is like that, the block is cut. -/
theorem braceEnd?_least (h : start < lines.length) : ∃ e : Nat,
    braceEnd? lines start = some (e : Int) ∧ start ≤ e ∧ e ≤ lines.length - 1 ∧
    ((∃ k, BalancesAt lines start k) → IsLeast {k | BalancesAt lines start k} e ∧
      ∃ block, text? .brace lines start e = some block ∧
        block.count '\x7b' = block.count '\x7d' ∧
        ∀ (k : Nat) (shorter : Text), k < e → text? .brace lines start k = some shorter →
          '\x7b' ∈ shorter → shorter.count '\x7b' ≠ shorter.count '\x7d') ∧
    ((¬ ∃ k, BalancesAt lines start k) → e = min (start + 50) (lines.length - 1)) := by
  rw [braceEnd?_natCast]
  cases hk : balanceOffset? false 0 (lines.drop start) with
  | none =>
    have hnot : ¬ ∃ k, BalancesAt lines start k :=
      fun ⟨_, he⟩ => not_balancesAt_of_balanceOffset? hk he
    refine ⟨min (start + 50) (lines.length - 1), ?_, by omega, by omega, fun hex => absurd hex hnot,
      fun _ => rfl⟩
    simp only [Option.map_none, Option.getD_none, Option.some.injEq, maxSpan]
    omega
  | some k =>
    have hleast := isLeast_of_balanceOffset? hk
    have hlt := hleast.1.lt_length
    refine ⟨start + k, by simp, Nat.le_add_right start k, by omega, fun _ => ⟨hleast, ?_⟩,
      fun hnot => absurd ⟨_, hleast.1⟩ hnot⟩
    have htext := text?_brace h (start + k)
    refine ⟨_, htext, ((balancesAt_iff_text? h hlt htext).1 hleast.1).2, ?_⟩
    intro j shorter hj hs hopen hcount
    have hj' := hleast.2 ((balancesAt_iff_text? h (Nat.lt_trans hj hlt) hs).2 ⟨hopen, hcount⟩)
    omega

/-- A first line that closes more than it opens: the brace on the second one evens it out. -/
theorem braceEnd?_least_below_zero :
    let lines : List Text := ["g() \x7d", "function f() \x7b", "\x7d"]
    0 < lines.length ∧ ∃ e : Nat, braceEnd? lines 0 = some (e : Int) ∧
      IsLeast {k | BalancesAt lines 0 k} e := by
  intro lines
  have hlines : 0 < lines.length := by decide
  obtain ⟨e, he, -, -, hleast, -⟩ := braceEnd?_least hlines
  exact ⟨hlines, e, he, (hleast ⟨1, by decide, by decide, by decide⟩).1⟩

end CostLens.Block
