import CostLens.Proofs.Source.Locality
import CostLens.Proofs.Source.Mixed
import CostLens.Proofs.Source.Targets
import Mathlib.Data.List.TakeWhile

/-! # Which declarations are found

A declaration line gives a candidate unless its block ends where it begins. That is decided by two
different ways of looking for the end; what they have in common is stated here for each: the end
that is always there, how far it can lie, and when it lies behind the first line.
-/
namespace CostLens

/-! ## Declared names -/

/-- A run of word characters of a line that no word character stands next to. -/
structure IsWordOf (name line : Text) : Prop where
  ne_nil : name ≠ []
  word : ∀ c ∈ name, isWord c = true
  run : ∃ before after, line = before ++ name ++ after ∧
    (∀ c ∈ before.getLast?, isWord c = false) ∧ ∀ c ∈ after.head?, isWord c = false

namespace DeclarationRule

theorem getLast?_append_blank {s t : Text} (hs : ∀ c ∈ s.getLast?, isBlank c = true)
    (ht : ∀ c ∈ t.getLast?, isBlank c = true) : ∀ c ∈ (s ++ t).getLast?, isBlank c = true := by
  intro c hc
  rw [List.getLast?_append] at hc
  rcases Option.or_eq_some_iff.1 hc with h | ⟨-, h⟩
  · exact ht c h
  · exact hs c h

theorem getLast?_takeWhile_blank (t : Text) :
    ∀ c ∈ (t.takeWhile isBlank).getLast?, isBlank c = true := by
  intro c hc
  exact List.mem_takeWhile_imp (List.mem_of_mem_getLast? hc)

/-- What stands before the text behind the leading words ends with white space. -/
theorem exists_append_of_afterWords? {ws : List Text} {t u : Text}
    (h : afterWords? ws t = some u) :
    ∃ before, t = before ++ u ∧ ∀ c ∈ before.getLast?, isBlank c = true := by
  induction ws generalizing t with
  | nil =>
    obtain rfl := Option.some.inj h
    exact ⟨[], rfl, by simp⟩
  | cons w ws ih =>
    obtain ⟨c, r, rfl, hc, hr⟩ := afterWords?_cons_eq_some.1 h
    obtain ⟨before, hb, hlast⟩ := ih hr
    refine ⟨(w ++ [c]) ++ (r.takeWhile isBlank ++ before), ?_, ?_⟩
    · have hr' : r = r.takeWhile isBlank ++ (before ++ u) := by
        rw [← hb]
        exact List.takeWhile_append_dropWhile.symm
      simpa using hr'
    · apply getLast?_append_blank
      · intro d hd
        rw [List.getLast?_append] at hd
        simp only [List.getLast?_singleton, Option.some_or, Option.mem_some_iff] at hd
        exact hd ▸ hc
      · exact getLast?_append_blank (getLast?_takeWhile_blank r) hlast

theorem isWordOf_of_name? {rule : DeclarationRule} {line name : Text}
    (h : rule.name? line = some name) : IsWordOf name line := by
  obtain ⟨t, ht, hname, hne, -, -⟩ := name?_eq_some.1 h
  obtain ⟨before, hb, hlast⟩ := exists_append_of_afterWords? ht
  have hline : line = line.takeWhile isBlank ++ (before ++ t) := by
    rw [← hb]
    exact List.takeWhile_append_dropWhile.symm
  have ht' : t = name ++ t.dropWhile isWord := by
    rw [hname]
    exact List.takeWhile_append_dropWhile.symm
  refine ⟨hne, ?_, line.takeWhile isBlank ++ before, t.dropWhile isWord, ?_, ?_, ?_⟩
  · intro c hc
    rw [hname] at hc
    exact List.mem_takeWhile_imp hc
  · rw [List.append_assoc, ← ht', List.append_assoc]
    exact hline
  · intro c hc
    exact isWord_of_isBlank (getLast?_append_blank (getLast?_takeWhile_blank line) hlast c hc)
  · intro c hc
    have hd := List.head?_dropWhile_not isWord t
    rw [Option.mem_def.1 hc] at hd
    simpa using hd

end DeclarationRule

theorem Declaration.isWordOf_of_name? {family : Family} {line name : Text}
    (h : name? family line = some name) : IsWordOf name line := by
  obtain ⟨rule, -, hn⟩ := List.exists_of_findSome?_eq_some h
  exact rule.isWordOf_of_name? hn

/-! ## Ends of blocks -/

namespace Block

variable {lines : List Text} {line : Text} {i : Nat}

/-- A line that opens a brace and closes as many as it opens. -/
def ClosesItself (line : Text) : Prop :=
  0 < line.count '\x7b' ∧ line.count '\x7b' = line.count '\x7d'

theorem balanceOffset?_eq_zero_iff (line : Text) (block : List Text) :
    balanceOffset? false 0 (line :: block) = some 0 ↔ ClosesItself line := by
  have hline : ((line :: block).take 1).flatten = line := by simp
  rw [balanceOffset?_eq_some_iff, Balanced, hline, ClosesItself]
  constructor
  · rintro ⟨-, hb, -⟩
    exact hb
  · intro hb
    exact ⟨Nat.succ_pos _, hb, fun j hj => absurd hj (Nat.not_lt_zero j)⟩

/-- The end of a block with braces lies in the document, and behind the first line unless that one
closes itself or is the last. -/
theorem exists_braceEnd? (h : lines[i]? = some line) :
    ∃ last : Int, braceEnd? lines i = some last ∧ last ≤ lines.length - 1 ∧
      ((i : Int) < last ↔ ¬ (ClosesItself line ∨ i + 1 = lines.length)) := by
  obtain ⟨block, hb, hlen⟩ := exists_lines_behind h
  have hzero := balanceOffset?_eq_zero_iff line block
  rw [braceEnd?_natCast, hb]
  cases hk : balanceOffset? false 0 (line :: block) with
  | none =>
    have hopen : ¬ ClosesItself line := by
      intro hc
      rw [hzero.2 hc] at hk
      cases hk
    refine ⟨_, rfl, ?_, ?_⟩
    · simp only [Option.map_none, Option.getD_none]
      omega
    · simp only [Option.map_none, Option.getD_none, maxSpan, hopen, false_or]
      omega
  | some k =>
    have hlt := (balanceOffset?_eq_some_iff.1 hk).1
    rw [List.length_cons] at hlt
    have hiff : k = 0 ↔ ClosesItself line := by
      rw [← hzero, hk]
      simp
    refine ⟨_, rfl, ?_, ?_⟩
    · simp only [Option.map_some, Option.getD_some]
      omega
    · simp only [Option.map_some, Option.getD_some, ← hiff]
      omega

theorem indentEnd?_le {last : Int} (h : lines[i]? = some line)
    (he : indentEnd? lines i = some last) : last ≤ min (lines.length : Int) (i + 50) := by
  obtain ⟨block, hb, hlen⟩ := exists_lines_behind h
  rw [indentEnd?_natCast hb] at he
  cases hk : (block.take maxSpan).findIdx? (isDedent (indentation line)) with
  | none =>
    rw [hk] at he
    simp only [Option.map_none, Option.getD_none, Option.some.injEq, maxSpan] at he
    omega
  | some k =>
    have hlt : k < (block.take maxSpan).length := (List.findIdx?_eq_some_iff_findIdx_eq.1 hk).1
    rw [List.length_take, maxSpan] at hlt
    rw [hk] at he
    simp only [Option.map_some, Option.getD_some, Option.some.injEq] at he
    omega

end Block

/-! ## Candidates -/

namespace Candidate

variable {family : Family} {lines : List Text} {line name : Text} {i : Nat} {c : Candidate}

theorem atLine?_eq_some_iff : atLine? family lines i = some c ↔ ∃ line name last,
    lines[i]? = some line ∧ Declaration.name? family line = some name ∧
    Block.end? family lines i = some last ∧ (i : Int) < last ∧ c = ⟨name, i, last⟩ := by
  unfold atLine?
  constructor
  · intro h
    obtain ⟨line, hl, h⟩ := Option.bind_eq_some_iff.1 h
    obtain ⟨name, hn, h⟩ := Option.bind_eq_some_iff.1 h
    obtain ⟨last, he, h⟩ := Option.bind_eq_some_iff.1 h
    split at h
    · next hlt =>
      cases h
      exact ⟨line, name, last, hl, hn, he, hlt, rfl⟩
    · cases h
  · rintro ⟨line, name, last, hl, hn, he, hlt, rfl⟩
    simp [hl, hn, he, hlt]

theorem mem_scan_iff : c ∈ scan family lines ↔ ∃ i, atLine? family lines i = some c := by
  unfold scan
  rw [List.mem_filterMap]
  constructor
  · rintro ⟨i, -, h⟩
    exact ⟨i, h⟩
  · rintro ⟨i, h⟩
    obtain ⟨line, _, _, hl, _⟩ := atLine?_eq_some_iff.1 h
    obtain ⟨hi, -⟩ := List.getElem?_eq_some_iff.1 hl
    exact ⟨i, List.mem_range.2 hi, h⟩

/-- How far the end of a block may lie from the line it begins on. -/
theorem endLine_le (h : atLine? family lines i = some c) (hl : lines[i]? = some line) :
    (family.ofLine line = .brace → c.endLine ≤ lines.length - 1) ∧
      (family.ofLine line = .indent → c.endLine ≤ min (lines.length : Int) (i + 50)) := by
  obtain ⟨line', name, last, hl', -, he, -, rfl⟩ := atLine?_eq_some_iff.1 h
  obtain rfl : line = line' := Option.some.inj (hl.symm.trans hl')
  rw [Block.end?_of_line hl] at he
  constructor
  · intro hf
    obtain ⟨e, hb, hle, -⟩ := Block.exists_braceEnd? hl
    rw [if_neg (by rw [hf]; decide), hb] at he
    exact Option.some.inj he ▸ hle
  · intro hf
    rw [if_pos hf] at he
    exact Block.indentEnd?_le hl he

theorem atLine?_eq_none_iff (hl : lines[i]? = some line)
    (hn : Declaration.name? family line = some name) : atLine? family lines i = none ↔
      family.ofLine line = .brace ∧ (Block.ClosesItself line ∨ i + 1 = lines.length) := by
  have hend : Block.end? family lines i =
      if family.ofLine line = .indent then Block.indentEnd? lines i
      else Block.braceEnd? lines i := Block.end?_of_line hl
  have hmake : ∀ last, Block.end? family lines i = some last →
      atLine? family lines i = if (i : Int) < last then some ⟨name, i, last⟩ else none := by
    intro last he
    unfold atLine?
    simp [hl, hn, he]
  cases hf : family.ofLine line with
  | mixed => exact absurd hf (family.ofLine_ne_mixed line)
  | brace =>
    obtain ⟨last, hb, -, hlt⟩ := Block.exists_braceEnd? hl
    rw [hf, if_neg (by decide), hb] at hend
    rw [hmake last hend]
    simp only [ite_eq_right_iff, reduceCtorEq, imp_false, hlt, not_not, true_and]
  | indent =>
    obtain ⟨last, hb, hlt⟩ := Block.lt_indentEnd? hl
    rw [hf, if_pos rfl, hb] at hend
    rw [hmake last hend]
    simp [hlt]

theorem forall_startLine_ne_iff :
    (∀ c ∈ scan family lines, c.startLine ≠ i) ↔ atLine? family lines i = none := by
  constructor
  · intro h
    cases ha : atLine? family lines i with
    | none => rfl
    | some c => exact absurd (startLine_of_atLine? ha) (h c (mem_scan_iff.2 ⟨i, ha⟩))
  · intro h c hc hs
    obtain ⟨j, hj⟩ := mem_scan_iff.1 hc
    have hij : (j : Int) = i := (startLine_of_atLine? hj).symm.trans hs
    rw [Int.ofNat_inj.1 hij, h] at hj
    cases hj

/-- The candidates of a document are in order and within its bounds, each bears the name that its
line declares, and a declaration is left out exactly when its block has braces and ends on its own
line, or has no line behind it. -/
theorem scan_sound_complete (family : Family) (lines : List Text) :
    (scan family lines).Pairwise (fun a b => a.startLine < b.startLine) ∧
    (∀ c ∈ scan family lines, ∃ (i : Nat) (line : Text), c.startLine = i ∧
      lines[i]? = some line ∧ Declaration.name? family line = some c.name ∧
      IsWordOf c.name line ∧ c.startLine < c.endLine ∧
      (family.ofLine line = .brace → c.endLine ≤ lines.length - 1) ∧
      (family.ofLine line = .indent → c.endLine ≤ min (lines.length : Int) (c.startLine + 50))) ∧
    ∀ (i : Nat) (line name : Text), lines[i]? = some line →
      Declaration.name? family line = some name →
      ((∀ c ∈ scan family lines, c.startLine ≠ i) ↔ family.ofLine line = .brace ∧
        ((0 < line.count '\x7b' ∧ line.count '\x7b' = line.count '\x7d') ∨
          i + 1 = lines.length)) := by
  refine ⟨scan_sorted family lines, ?_, ?_⟩
  · intro c hc
    obtain ⟨i, hi⟩ := mem_scan_iff.1 hc
    obtain ⟨line, name, last, hl, hn, -, hlt, rfl⟩ := atLine?_eq_some_iff.1 hi
    exact ⟨i, line, rfl, hl, hn, Declaration.isWordOf_of_name? hn, hlt, endLine_le hi hl⟩
  · intro i line name hl hn
    rw [forall_startLine_ne_iff]
    exact atLine?_eq_none_iff hl hn

/-- Of three declarations the one that closes itself and the one on the last line are left out. -/
theorem scan_sound_complete_three :
    let lines : List Text := ["function f() \x7b \x7d", "def g(x):", "class A"]
    (∃ c ∈ scan .mixed lines, c = ⟨"g", 1, 2⟩ ∧ IsWordOf c.name "def g(x):") ∧
      (∀ c ∈ scan .mixed lines, c.startLine ≠ 0) ∧ ∀ c ∈ scan .mixed lines, c.startLine ≠ 2 := by
  intro lines
  obtain ⟨-, hsound, hcomplete⟩ := scan_sound_complete .mixed lines
  have hg : (⟨"g", 1, 2⟩ : Candidate) ∈ scan .mixed lines := by decide +kernel
  refine ⟨⟨_, hg, rfl, ?_⟩, ?_, ?_⟩
  · obtain ⟨i, line, hi, hl, -, hw, -⟩ := hsound _ hg
    obtain rfl : i = 1 := Int.ofNat_inj.1 hi.symm
    exact (Option.some.inj hl).symm ▸ hw
  · exact (hcomplete 0 _ "f" rfl (by decide +kernel)).2 (by decide +kernel)
  · exact (hcomplete 2 _ "A" rfl (by decide +kernel)).2 (by decide +kernel)

end Candidate

end CostLens
