import CostLens.Proofs.Source.Scan

/-! # Indented blocks nest

The end of an indented block is looked for from each declaration on its own, up to a greatest
length. All the same the blocks form a tree: a declaration inside a block is indented deeper than
that block, so the line that ends the outer block ends the inner one as well, if nothing did before.
-/
namespace CostLens

/-! ## Declaration lines end blocks -/

namespace Declaration

open DeclarationRule

theorem leading_isPlain {family : Family} : ∀ rule ∈ rules family, ∀ w ∈ rule.leading,
    IsPlain w := by
  cases family <;> decide

/-- White space aside, a declaration line begins with a word. -/
theorem exists_word_of_name? {family : Family} {line name : Text}
    (h : name? family line = some name) :
    ∃ c rest, trimStart line = c :: rest ∧ isWord c = true := by
  obtain ⟨rule, hr, hn⟩ := List.exists_of_findSome?_eq_some h
  obtain ⟨t, ht, hname, hne, -, -⟩ := name?_eq_some.1 hn
  apply exists_cons_of_takeWhile
  cases hl : rule.leading with
  | nil =>
    rw [hl] at ht
    obtain rfl := Option.some.inj ht
    exact hname ▸ hne
  | cons w ws =>
    rw [hl] at ht
    have hw : IsPlain w := leading_isPlain rule hr w (hl ▸ List.mem_cons_self)
    rw [takeWhile_of_afterWords? hw.2 ht]
    exact hw.1

end Declaration

theorem trimEnd_cons {c : Char} (hc : isBlank c = false) (t : Text) :
    trimEnd (c :: t) = c :: trimEnd t := by
  unfold trimEnd
  rw [List.reverse_cons, List.dropWhile_append]
  split
  · next he =>
    rw [List.isEmpty_iff] at he
    simp [he, hc]
  · simp

namespace Block

/-- A line that ends a block ends every block that is indented deeper. -/
theorem isDedent_mono {base deeper : Nat} {line : Text} (hb : base ≤ deeper)
    (h : isDedent base line = true) : isDedent deeper line = true := by
  simp only [isDedent, Bool.and_eq_true, decide_eq_true_eq] at h ⊢
  exact ⟨h.1, h.2.trans hb⟩

/-- A declaration line is neither blank nor a comment, so its indentation alone decides which
blocks it ends. -/
theorem isDedent_of_name? {family : Family} {line name : Text} (base : Nat)
    (h : Declaration.name? family line = some name) :
    isDedent base line = decide (indentation line ≤ base) := by
  obtain ⟨c, rest, ht, hc⟩ := Declaration.exists_word_of_name? h
  have hblank : isBlank c = false := isBlank_of_isWord hc
  have hmark : c ≠ '#' := by
    rintro rfl
    exact absurd hc (by decide)
  have htrim : trim line = c :: trimEnd rest := by rw [trim, ht, trimEnd_cons hblank]
  simp [isDedent, htrim, startsWith, List.isPrefixOf, Ne.symm hmark]

/-! ## Where an indented block ends -/

section IndentEnd
variable {lines : List Text} {line : Text} {i : Nat}

/-- No line of an indented block ends it, and it ends at a line that does, or where the document or
the greatest length does. -/
theorem indentEnd?_eq (h : lines[i]? = some line) : ∃ e : Nat, indentEnd? lines i = some (e : Int) ∧
    (∀ k other, i < k → k < e → lines[k]? = some other →
      isDedent (indentation line) other = false) ∧
    ((∃ other, lines[e]? = some other ∧ isDedent (indentation line) other = true) ∨
      e = min lines.length (i + maxSpan)) := by
  obtain ⟨block, hb, hlen⟩ := exists_lines_behind h
  have hblock : ∀ k, lines[i + 1 + k]? = block[k]? := by
    intro k
    rw [show i + 1 + k = i + (k + 1) by omega, ← List.getElem?_drop, hb, List.getElem?_cons_succ]
  rw [indentEnd?_natCast hb]
  cases hk : (block.take maxSpan).findIdx? (isDedent (indentation line)) with
  | none =>
    refine ⟨min lines.length (i + maxSpan), ?_, ?_, .inr rfl⟩
    · simp only [Option.map_none, Option.getD_none, Option.some.injEq]
      omega
    · intro k other hik hke ho
      obtain ⟨n, rfl⟩ : ∃ n, k = i + 1 + n := ⟨k - (i + 1), by omega⟩
      rw [hblock] at ho
      have hmem : other ∈ block.take maxSpan := by
        refine List.mem_of_getElem? (i := n) ?_
        rw [List.getElem?_take_of_lt (by omega), ho]
      exact List.findIdx?_eq_none_iff.1 hk other hmem
  | some n =>
    obtain ⟨hn, htrue, hbefore⟩ := List.findIdx?_eq_some_iff_getElem.1 hk
    have hn' : n < block.length := Nat.lt_of_lt_of_le hn (List.length_take_le' ..)
    rw [List.getElem_take] at htrue
    refine ⟨i + 1 + n, by simp, ?_, .inl ⟨_, ?_, htrue⟩⟩
    · intro k other hik hke ho
      obtain ⟨j, rfl⟩ : ∃ j, k = i + 1 + j := ⟨k - (i + 1), by omega⟩
      rw [hblock] at ho
      obtain ⟨hj, rfl⟩ := List.getElem?_eq_some_iff.1 ho
      have hfalse := hbefore j (by omega)
      rw [List.getElem_take] at hfalse
      simpa using hfalse
    · rw [hblock, List.getElem?_eq_getElem hn']

/-- The ends of two indented blocks, of which the second begins inside the first and deeper. -/
theorem indentEnd?_nested {j : Nat} {inner : Text} {e e' : Int} (hi : lines[i]? = some line)
    (hj : lines[j]? = some inner) (he : indentEnd? lines i = some e)
    (he' : indentEnd? lines j = some e') (hje : (j : Int) < e)
    (hdeep : indentation line ≤ indentation inner) : e' ≤ e ∨ e = i + maxSpan := by
  obtain ⟨n, hn, -, hend⟩ := indentEnd?_eq hi
  obtain ⟨n', hn', hinside, -⟩ := indentEnd?_eq hj
  have hle : e' ≤ min (lines.length : Int) (j + 50) := indentEnd?_le hj he'
  obtain rfl : (n : Int) = e := Option.some.inj (hn.symm.trans he)
  obtain rfl : (n' : Int) = e' := Option.some.inj (hn'.symm.trans he')
  rcases hend with ⟨other, ho, hd⟩ | hcut
  · left
    by_contra hlt
    have hnot := hinside n other (by omega) (by omega) ho
    rw [isDedent_mono hdeep hd] at hnot
    cases hnot
  · -- the document ends both blocks, unless the outer one was cut
    by_cases hmax : i + maxSpan ≤ lines.length
    · right
      omega
    · left
      omega

end IndentEnd

end Block

namespace Candidate

/-- The block of a candidate is delimited by indentation. -/
def IsIndented (family : Family) (lines : List Text) (c : Candidate) : Prop :=
  ∃ line, lineAt? lines c.startLine = some line ∧ family.ofLine line = .indent

theorem exists_of_isIndented {family : Family} {lines : List Text} {c : Candidate}
    (hc : c ∈ scan family lines) (hi : c.IsIndented family lines) : ∃ (i : Nat) (line : Text),
      c.startLine = i ∧ lines[i]? = some line ∧ Declaration.name? family line = some c.name ∧
      Block.indentEnd? lines i = some c.endLine := by
  obtain ⟨i, ha⟩ := mem_scan_iff.1 hc
  obtain ⟨line, name, last, hl, hn, he, -, rfl⟩ := atLine?_eq_some_iff.1 ha
  obtain ⟨line', hl', hf⟩ := hi
  rw [lineAt?_natCast] at hl'
  obtain rfl : line = line' := Option.some.inj (hl.symm.trans hl')
  rw [Block.end?_of_line hl, if_pos hf] at he
  exact ⟨i, line, rfl, hl, hn, he⟩

/-- Of two candidates with indented blocks, the second begins behind the block of the first or ends
with it at the latest, unless the first was cut at the greatest length. -/
theorem indented_blocks_nest {family : Family} {lines : List Text} {a b : Candidate}
    (ha : a ∈ scan family lines) (hb : b ∈ scan family lines)
    (hia : a.IsIndented family lines) (hib : b.IsIndented family lines)
    (hlt : a.startLine < b.startLine) :
    a.endLine ≤ b.startLine ∨ b.endLine ≤ a.endLine ∨ a.endLine = a.startLine + 50 := by
  obtain ⟨i, line, hi, hl, -, he⟩ := exists_of_isIndented ha hia
  obtain ⟨j, inner, hj, hl', hn', he'⟩ := exists_of_isIndented hb hib
  obtain ⟨e, hend, hinside, -⟩ := Block.indentEnd?_eq hl
  obtain hae : (e : Int) = a.endLine := Option.some.inj (hend.symm.trans he)
  by_cases hje : (j : Int) < a.endLine
  · right
    -- the inner declaration does not end the outer block, so it is indented deeper
    have hnot := hinside j inner (by omega) (by omega) hl'
    rw [Block.isDedent_of_name? _ hn'] at hnot
    have hdeep : ¬ indentation inner ≤ indentation line := of_decide_eq_false hnot
    rw [hi]
    exact Block.indentEnd?_nested hl hl' he he' hje (by omega)
  · left
    omega

/-- A method in a class, with a comment at the margin between them, in a document of any kind. -/
theorem indented_blocks_nest_method :
    let lines : List Text := ["class A:", "# none", "\tdef f(self):", "        pass", "x = 1"]
    let a : Candidate := ⟨"A", 0, 4⟩
    let f : Candidate := ⟨"f", 2, 4⟩
    a.IsIndented .mixed lines ∧ f.IsIndented .mixed lines ∧
      (a.endLine ≤ f.startLine ∨ f.endLine ≤ a.endLine ∨ a.endLine = a.startLine + 50) := by
  intro lines a f
  have ha : a ∈ scan .mixed lines := by decide +kernel
  have hf : f ∈ scan .mixed lines := by decide +kernel
  have hia : a.IsIndented .mixed lines := ⟨"class A:", by decide +kernel, by decide +kernel⟩
  have hif : f.IsIndented .mixed lines := ⟨"\tdef f(self):", by decide +kernel, by decide +kernel⟩
  exact ⟨hia, hif, indented_blocks_nest ha hf hia hif (by decide)⟩

end Candidate

end CostLens
