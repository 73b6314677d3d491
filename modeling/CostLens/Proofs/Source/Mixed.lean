import CostLens.Proofs.Source.Declaration
import CostLens.Proofs.Source.Entry

/-! # Mixed documents

In a document of the mixed family each declaration line is analysed as in the family it belongs to:
a line that a rule for braces fits and that does not end with a colon as with braces, and a line
that a rule for indented blocks fits and that ends with a colon as with indentation. For the second
it matters that no rule for braces, all of which come first, finds another name.
-/
namespace CostLens

namespace Declaration

open DeclarationRule Test

/-- A rule asks for a sign behind the name. -/
def AsksSign (rule : DeclarationRule) : Prop :=
  ∃ x w k, isWord x = false ∧ rule.follows = blanks (lit (x :: w) k)

/-- What the rules for braces ask of a line: a sign right behind the first word, one of some first
words, `async` and a sign or another word, or what the rule for classes asks. -/
theorem braceRules_cases {rule : DeclarationRule} (h : rule ∈ braceRules) :
    rule.leading = [] ∧ AsksSign rule ∨
    (∃ w ∈ (["function", "const", "let", "var", "export"] : List Text), ∃ ws,
      rule.leading = w :: ws) ∨
    rule.leading = ["async"] ∧ AsksSign rule ∨
    rule.leading = ["async", "function"] ∨ rule = ⟨["class"], [], done⟩ := by
  have hcolon : isWord ':' = false := by decide +kernel
  have hparen : isWord '(' = false := by decide +kernel
  rcases braceRules_shape h with ⟨k, rfl⟩ | rfl | hword | rfl | rfl | rfl
  · exact .inl ⟨rfl, ':', [], blanks k, hcolon, rfl⟩
  · exact .inl ⟨rfl, '(', [], _, hparen, rfl⟩
  · exact .inr (.inl hword)
  · exact .inr (.inr (.inl ⟨rfl, '(', [], _, hparen, rfl⟩))
  · exact .inr (.inr (.inr (.inl rfl)))
  · exact .inr (.inr (.inr (.inr rfl)))

/-- The first word of a line that a rule fits, with what follows it. -/
theorem firstWord_of_name? {rule : DeclarationRule} {line name w : Text} {ws : List Text}
    (hl : rule.leading = w :: ws) (hw : ∀ w' ∈ w :: ws, IsPlain w')
    (h : rule.name? line = some name) :
    (trimStart line).takeWhile isWord = w ∧ GoesOn (trimStart line) := by
  obtain ⟨t, ht, hn, hne, -, -⟩ := name?_eq_some.1 h
  rw [hl] at ht
  exact ⟨takeWhile_of_afterWords? (hw w List.mem_cons_self).2 ht,
    goesOn_of_afterWords? hw (hn ▸ hne) ht⟩

theorem not_asksSign {rule : DeclarationRule} {t : Text} (h : AsksSign rule) (hg : GoesOn t) :
    rule.follows (t.dropWhile isWord) = false := by
  obtain ⟨x, w, k, hx, hf⟩ := h
  rw [hf]
  exact hg.not_sign hx w k

theorem afterWords?_tail {w t u u' : Text} {ws ws' : List Text}
    (h : afterWords? (w :: ws) t = some u) (h' : afterWords? (w :: ws') t = some u') :
    ∃ r, afterWords? ws r = some u ∧ afterWords? ws' r = some u' := by
  obtain ⟨c, r, rfl, -, hr⟩ := afterWords?_cons_eq_some.1 h
  obtain ⟨c', r', he, -, hr'⟩ := afterWords?_cons_eq_some.1 h'
  obtain ⟨rfl, rfl⟩ := List.cons.inj (List.append_cancel_left he)
  exact ⟨_, hr, hr'⟩

theorem indentRules_cases {rule : DeclarationRule} (h : rule ∈ indentRules) :
    rule.leading = ["def"] ∨ rule.leading = ["async", "def"] ∨ rule = ⟨["class"], [], done⟩ := by
  simp only [indentRules, List.mem_cons, List.not_mem_nil, or_false] at h
  rcases h with rfl | rfl | rfl
  · exact .inl rfl
  · exact .inr (.inl rfl)
  · exact .inr (.inr rfl)

/-- A rule for braces that fits a line with a rule for indented blocks begins with the same word as
that rule. -/
theorem leading_of_indent {rule other : DeclarationRule} {line n name w : Text} {ws : List Text}
    (hr : rule ∈ braceRules) (hn : rule.name? line = some n) (hl : other.leading = w :: ws)
    (hw : ∀ w' ∈ w :: ws, IsPlain w') (hmem : w ∈ (["def", "async", "class"] : List Text))
    (h : other.name? line = some name) :
    w = "async" ∧ (rule.leading = ["async"] ∧ AsksSign rule ∨ rule.leading = ["async", "function"]) ∨
    w = "class" ∧ rule = ⟨["class"], [], done⟩ := by
  obtain ⟨hword, hgoes⟩ := firstWord_of_name? hl hw h
  obtain ⟨u, hu, -, -, -, hfollows⟩ := name?_eq_some.1 hn
  have hfirst : ∀ {v vs}, rule.leading = v :: vs → IsPlain v → w = v := fun hlead hv =>
    hword.symm.trans (takeWhile_of_afterWords? hv.2 (hlead ▸ hu))
  rcases braceRules_cases hr with ⟨hlead, hsign⟩ | ⟨v, hv, vs, hlead⟩ | ⟨hlead, hsign⟩ | hlead | rfl
  · -- the sign would have to stand where the next word does
    rw [hlead] at hu
    obtain rfl := Option.some.inj hu
    rw [not_asksSign hsign hgoes] at hfollows
    cases hfollows
  · have hp : ∀ v ∈ (["function", "const", "let", "var", "export"] : List Text),
        IsPlain v ∧ v ∉ (["def", "async", "class"] : List Text) := by decide
    exact absurd (hfirst hlead (hp v hv).1 ▸ hmem) (hp v hv).2
  · exact .inl ⟨hfirst hlead (by decide), .inl ⟨hlead, hsign⟩⟩
  · exact .inl ⟨hfirst hlead (by decide), .inr hlead⟩
  · exact .inr ⟨hfirst rfl (by decide), rfl⟩

/-- No rule for braces finds another name than a rule for indented blocks that fits the line. -/
theorem name_eq_of_indent {rule other : DeclarationRule} {line n name : Text}
    (hr : rule ∈ braceRules) (hn : rule.name? line = some n)
    (ho : other ∈ indentRules) (h : other.name? line = some name) : n = name := by
  have hdef : ("def" : Text) ≠ "async" ∧ ("def" : Text) ≠ "class" := by decide
  have hasync : ("async" : Text) ≠ "class" := by decide
  rcases indentRules_cases ho with hl | hl | rfl
  · rcases leading_of_indent hr hn hl (by decide) (by decide) h with ⟨he, -⟩ | ⟨he, -⟩
    · exact absurd he hdef.1
    · exact absurd he hdef.2
  · obtain ⟨u, hu, hname, hne, -, -⟩ := name?_eq_some.1 h
    obtain ⟨u', hu', -, -, -, hfollows⟩ := name?_eq_some.1 hn
    rw [hl] at hu
    rcases leading_of_indent hr hn hl (by decide) (by decide) h with
      ⟨-, ⟨hlead, hsign⟩ | hlead⟩ | ⟨he, -⟩
    · -- behind `async` stands `def`, and behind that a word and no sign
      rw [hlead] at hu'
      obtain ⟨r, hr₁, hr₂⟩ := afterWords?_tail hu hu'
      obtain rfl := Option.some.inj hr₂
      have hg := goesOn_of_afterWords? (by decide) (hname ▸ hne) hr₁
      rw [not_asksSign hsign hg] at hfollows
      cases hfollows
    · rw [hlead] at hu'
      obtain ⟨r, hr₁, hr₂⟩ := afterWords?_tail hu hu'
      have hplain : IsPlain "def" ∧ IsPlain "function" := by decide
      have h₁ := takeWhile_of_afterWords? hplain.1.2 hr₁
      have h₂ := takeWhile_of_afterWords? hplain.2.2 hr₂
      exact absurd (h₁.symm.trans h₂) (by decide)
    · exact absurd he hasync
  · rcases leading_of_indent hr hn rfl (by decide) (by decide) h with ⟨he, -⟩ | ⟨-, rfl⟩
    · exact absurd he hasync.symm
    · exact Option.some.inj (hn.symm.trans h)

theorem name?_mixed_of_indent {line name : Text} (h : name? .indent line = some name) :
    name? .mixed line = some name := by
  obtain ⟨other, ho, hname⟩ := List.exists_of_findSome?_eq_some h
  change (braceRules ++ indentRules).findSome? (·.name? line) = some name
  rw [List.findSome?_append]
  cases hb : braceRules.findSome? (·.name? line) with
  | none => exact h
  | some n =>
    obtain ⟨rule, hr, hn⟩ := List.exists_of_findSome?_eq_some hb
    rw [name_eq_of_indent hr hn ho hname]
    rfl

theorem name?_mixed_of_brace {line : Text} {rule : DeclarationRule} (hr : rule ∈ braceRules)
    (h : (rule.name? line).isSome) : name? .mixed line = name? .brace line := by
  have hs : (braceRules.findSome? (·.name? line)).isSome := List.findSome?_isSome_iff.2 ⟨rule, hr, h⟩
  obtain ⟨n, hn⟩ := Option.isSome_iff_exists.1 hs
  change (braceRules ++ indentRules).findSome? (·.name? line) =
    braceRules.findSome? (·.name? line)
  rw [List.findSome?_append, hn]
  rfl

end Declaration

theorem Block.lt_indentEnd? {lines : List Text} {line : Text} {i : Nat}
    (h : lines[i]? = some line) : ∃ last, indentEnd? lines i = some last ∧ (i : Int) < last := by
  obtain ⟨hi, rfl⟩ := List.getElem?_eq_some_iff.1 h
  refine ⟨_, indentEnd?_natCast (List.drop_eq_getElem_cons hi), ?_⟩
  generalize ((lines.drop (i + 1)).take maxSpan).findIdx? _ = found
  cases found with
  | none =>
    simp only [Option.map_none, Option.getD_none, maxSpan]
    omega
  | some k =>
    simp only [Option.map_some, Option.getD_some]
    omega

namespace Analysis

/-- An entry depends on a family by the name that its line declares and the way its block is
delimited. -/
theorem atLine?_congr {f g : Family} {lines : List Text} {line : Text} {i : Nat}
    (hl : lines[i]? = some line) (hn : Declaration.name? f line = Declaration.name? g line)
    (ho : f.ofLine line = g.ofLine line) : atLine? f lines i = atLine? g lines i := by
  have hend : Block.end? f lines i = Block.end? g lines i := by
    rw [Block.end?_of_line hl, Block.end?_of_line hl, ho]
  have htext : ∀ last, Block.text? f lines i last = Block.text? g lines i last := by
    intro last
    rw [Block.text?_of_line last hl, Block.text?_of_line last hl, ho]
  refine Option.ext fun a => ?_
  rw [atLine?_eq_some_iff, atLine?_eq_some_iff]
  constructor
  · rintro ⟨line', name, last, text, hl', hn', he, hlt, ht, rfl⟩
    obtain rfl : line = line' := Option.some.inj (hl.symm.trans hl')
    exact ⟨line, name, last, text, hl, hn ▸ hn', hend ▸ he, hlt, htext last ▸ ht,
      by rw [make, make, ho]⟩
  · rintro ⟨line', name, last, text, hl', hn', he, hlt, ht, rfl⟩
    obtain rfl : line = line' := Option.some.inj (hl.symm.trans hl')
    exact ⟨line, name, last, text, hl, hn ▸ hn', hend ▸ he, hlt, htext last ▸ ht,
      by rw [make, make, ho]⟩

theorem exists_atLine?_indent {lines : List Text} {line name : Text} {i : Nat}
    (hl : lines[i]? = some line) (hn : Declaration.name? .indent line = some name) :
    ∃ a, atLine? .indent lines i = some a := by
  obtain ⟨last, he, hlt⟩ := Block.lt_indentEnd? hl
  have hend : Block.end? .indent lines i = some last := by
    rw [Block.end?_of_line hl]
    exact he
  exact ⟨_, atLine?_eq_some_iff.2
    ⟨line, name, last, _, hl, hn, hend, hlt, Block.text?_of_line last hl, rfl⟩⟩

/-- The mixed family agrees with the family that a declaration line belongs to. -/
theorem mixed_agrees {lines : List Text} {line : Text} {i : Nat} (hl : lines[i]? = some line) :
    ((∃ rule ∈ Declaration.braceRules, (rule.name? line).isSome) →
      endsWith (trimEnd line) ":" = false →
      startingAt .mixed lines i = startingAt .brace lines i ∧
        (startingAt .mixed lines i).length ≤ 1) ∧
    ((∃ rule ∈ Declaration.indentRules, (rule.name? line).isSome) →
      endsWith (trimEnd line) ":" = true →
      ∃ a, startingAt .mixed lines i = [a] ∧ startingAt .indent lines i = [a]) := by
  simp only [startingAt_eq]
  constructor
  · rintro ⟨rule, hr, hs⟩ hc
    have ho : Family.mixed.ofLine line = Family.brace.ofLine line := by
      simp only [Family.ofLine, hc, Bool.false_eq_true, ↓reduceIte]
    rw [atLine?_congr hl (Declaration.name?_mixed_of_brace hr hs) ho]
    exact ⟨rfl, Option.length_toList_le⟩
  · rintro ⟨rule, hr, hs⟩ hc
    have hsome : (Declaration.name? .indent line).isSome :=
      List.findSome?_isSome_iff.2 ⟨rule, hr, hs⟩
    obtain ⟨name, hn⟩ := Option.isSome_iff_exists.1 hsome
    have ho : Family.mixed.ofLine line = Family.indent.ofLine line := by
      simp only [Family.ofLine, hc, ↓reduceIte]
    obtain ⟨a, ha⟩ := exists_atLine?_indent hl hn
    rw [atLine?_congr hl ((Declaration.name?_mixed_of_indent hn).trans hn.symm) ho, ha]
    exact ⟨a, rfl, rfl⟩

/-- A class in a document that has a function with braces in front of it. -/
theorem mixed_agrees_class :
    let lines : List Text := ["function f() \x7b", "\x7d", "class A:", "  x"]
    startingAt .mixed lines 0 = startingAt .brace lines 0 ∧
      ∃ a, startingAt .mixed lines 2 = [a] ∧ startingAt .indent lines 2 = [a] := by
  intro lines
  have hf : lines[0]? = some "function f() \x7b".toList := rfl
  have ha : lines[2]? = some "class A:".toList := rfl
  have hbrace : ∃ rule ∈ Declaration.braceRules, (rule.name? "function f() \x7b").isSome :=
    ⟨⟨["function"], [], Declaration.parenthesis⟩, List.mem_append_left _ (by simp), by decide +kernel⟩
  have hindent : ∃ rule ∈ Declaration.indentRules, (rule.name? "class A:").isSome :=
    ⟨⟨["class"], [], Test.done⟩, by simp [Declaration.indentRules], by decide +kernel⟩
  exact ⟨((mixed_agrees hf).1 hbrace (by decide +kernel)).1,
    (mixed_agrees ha).2 hindent (by decide +kernel)⟩

end Analysis

end CostLens
