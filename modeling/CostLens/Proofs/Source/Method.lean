import CostLens.Proofs.Source.Mixed
import CostLens.Proofs.Text.Test

/-! # Methods

A line with a word, a parameter list and an opening brace declares the word as a method, and so
does the same line with `async` in front: no rule that is tried before finds another name there. The
words that open a control statement are refused. They are compared with the beginning of the name,
so a longer name that begins with one of them is refused as well.
-/
namespace CostLens

theorem trimStart_append {w t : Text} (hw : ∀ c ∈ w, isBlank c = true) :
    trimStart (w ++ t) = trimStart t := List.dropWhile_append_of_pos hw

namespace DeclarationRule

theorem IsPlain.trimStart {n : Text} (hn : IsPlain n) (t : Text) : trimStart (n ++ t) = n ++ t := by
  obtain ⟨c, v, rfl⟩ := List.exists_cons_of_ne_nil hn.1
  have hc : isBlank c = false := isBlank_of_isWord (hn.2 c List.mem_cons_self)
  exact List.dropWhile_cons_of_neg (by simp [hc])

theorem IsPlain.goesOn {w n : Text} {c : Char} (hw : IsPlain w) (hn : IsPlain n)
    (hc : isBlank c = true) (t : Text) : GoesOn (w ++ c :: (n ++ t)) := by
  obtain ⟨d, v, rfl⟩ := List.exists_cons_of_ne_nil hn.1
  exact ⟨c, _, d, v ++ t, (takeWhile_word hw.2 hc).2, hc, hn.trimStart t, hn.2 d List.mem_cons_self⟩

theorem afterWords?_parenthesis {n w r : Text} (hn : IsPlain n) (hw : IsPlain w) (ws : List Text) :
    afterWords? (w :: ws) (n ++ '(' :: r) = none := by
  cases ha : afterWords? (w :: ws) (n ++ '(' :: r) with
  | none => rfl
  | some u =>
    obtain ⟨c, v, ht, hc, -⟩ := afterWords?_cons_eq_some.1 ha
    have hparen := (takeWhile_append_cons (r := r) hn.2 (c := '(') (by decide +kernel)).2
    rw [ht, (takeWhile_word hw.2 hc).2] at hparen
    obtain ⟨rfl, -⟩ := List.cons.inj hparen
    exact absurd hc (by decide)

theorem afterWords?_of_ne {w w' r : Text} {c : Char} (hw : IsPlain w) (hw' : IsPlain w')
    (hc : isBlank c = true) (hne : w ≠ w') (ws : List Text) :
    afterWords? (w' :: ws) (w ++ c :: r) = none := by
  cases ha : afterWords? (w' :: ws) (w ++ c :: r) with
  | none => rfl
  | some u =>
    have hword := takeWhile_of_afterWords? hw'.2 ha
    rw [(takeWhile_word hw.2 hc).1] at hword
    exact absurd hword hne

theorem name?_of_afterWords?_none {rule : DeclarationRule} {line : Text}
    (h : afterWords? rule.leading (trimStart line) = none) : rule.name? line = none := by
  rw [name?, h]

end DeclarationRule

namespace Declaration

open DeclarationRule Test

/-- Where every rule finds nothing or the same, that is found if some rule finds it. -/
theorem findSome?_of_agree {line : Text} {found : Option Text} {rules : List DeclarationRule}
    (hall : ∀ rule ∈ rules, rule.name? line = none ∨ rule.name? line = found)
    (hmem : ∃ rule ∈ rules, rule.name? line = found) : rules.findSome? (·.name? line) = found := by
  cases hf : rules.findSome? (·.name? line) with
  | none =>
    obtain ⟨rule, hr, hn⟩ := hmem
    rw [← hn, List.findSome?_eq_none_iff.1 hf rule hr]
  | some name =>
    obtain ⟨rule, hr, hn⟩ := List.exists_of_findSome?_eq_some hf
    rcases hall rule hr with h | h
    · cases hn.symm.trans h
    · exact hn.symm.trans h

/-- A word, a parameter list and an opening brace. -/
def methodText (n p : Text) : Text := n ++ '(' :: (p ++ ") \x7b")

/-- The name of a method, unless it begins with a control word. -/
def methodName? (n : Text) : Option Text := if ∃ k ∈ controlWords, k <+: n then none else some n

section
variable {n p : Text} (hn : IsPlain n)
include hn

theorem takeWhile_methodText : (methodText n p).takeWhile isWord = n ∧
    (methodText n p).dropWhile isWord = '(' :: (p ++ ") \x7b") :=
  takeWhile_append_cons hn.2 (by decide +kernel)

/-- What the rules for methods find where a method stands behind their leading words. -/
theorem name?_methodBody {leading : List Text} {line : Text} (hp : newline ∉ p)
    (h : afterWords? leading (trimStart line) = some (methodText n p)) :
    DeclarationRule.name? ⟨leading, controlWords, methodBody⟩ line = methodName? n := by
  obtain ⟨htake, hdrop⟩ := takeWhile_methodText (p := p) hn
  have hline : ∀ c ∈ p, (c != newline) = true := by
    intro c hc
    simpa using fun he : c = newline => hp (he ▸ hc)
  have hbody : methodBody ('(' :: (p ++ ") \x7b")) = true :=
    many_iff.2 ⟨p, _, rfl, hline, rfl⟩
  have hrefused : controlWords.any (startsWith n) = true ↔ ∃ k ∈ controlWords, k <+: n := by
    simp only [List.any_eq_true, startsWith_iff]
  rw [DeclarationRule.name?, h]
  simp only [htake, hdrop, hbody, methodName?, ← hrefused, Bool.and_true]
  by_cases hr : controlWords.any (startsWith n) = true
  · simp [hr]
  · simp [hr, hn.1]

theorem name?_colon (k : Test) {line : Text} (h : trimStart line = methodText n p) :
    DeclarationRule.name? ⟨[], [], sign ":" k⟩ line = none := by
  obtain ⟨-, hdrop⟩ := takeWhile_methodText (p := p) hn
  have hsign : sign ":" k ('(' :: (p ++ ") \x7b")) = false := rfl
  rw [DeclarationRule.name?, afterWords?, h]
  simp only [hdrop, hsign, Bool.and_false, Bool.false_eq_true, ↓reduceIte]

end

theorem name?_method {w n p : Text} (hw : ∀ c ∈ w, isBlank c = true) (hn : IsPlain n)
    (hp : newline ∉ p) : name? .brace (w ++ methodText n p) = methodName? n := by
  have htrim : trimStart (w ++ methodText n p) = methodText n p :=
    (trimStart_append hw).trans (hn.trimStart _)
  have hmethod : DeclarationRule.name? ⟨[], controlWords, methodBody⟩ (w ++ methodText n p) =
      methodName? n := name?_methodBody hn hp (congrArg some htrim)
  have hword : ∀ v vs, IsPlain v →
      afterWords? (v :: vs) (trimStart (w ++ methodText n p)) = none := by
    intro v vs hv
    rw [htrim]
    exact afterWords?_parenthesis hn hv vs
  refine findSome?_of_agree ?_ ⟨_, by simp [rules, braceRules], hmethod⟩
  intro rule hr
  rcases braceRules_shape hr with ⟨k, rfl⟩ | rfl | ⟨v, hv, vs, hl⟩ | rfl | rfl | rfl
  · exact .inl (name?_colon hn k htrim)
  · exact .inr hmethod
  · have hplain : ∀ v ∈ (["function", "const", "let", "var", "export"] : List Text), IsPlain v := by
      decide
    exact .inl (name?_of_afterWords?_none (hl ▸ hword v vs (hplain v hv)))
  · exact .inl (name?_of_afterWords?_none (hword _ _ (by decide)))
  · exact .inl (name?_of_afterWords?_none (hword _ _ (by decide)))
  · exact .inl (name?_of_afterWords?_none (hword _ _ (by decide)))

/-- A rule without leading words asks for a sign behind the first word, and finds nothing where
another word follows. -/
theorem name?_of_goesOn {rule : DeclarationRule} {line : Text} (hl : rule.leading = [])
    (hs : AsksSign rule) (hg : GoesOn (trimStart line)) : rule.name? line = none := by
  rw [DeclarationRule.name?, hl, afterWords?]
  simp only [not_asksSign hs hg, Bool.and_false, Bool.false_eq_true, ↓reduceIte]

theorem name?_asyncMethod {w n p : Text} (hw : ∀ c ∈ w, isBlank c = true) (hn : IsPlain n)
    (hp : newline ∉ p) : name? .brace (w ++ ("async" ++ ' ' :: methodText n p)) = methodName? n := by
  have hasync : IsPlain "async" := by decide
  have hspace : isBlank ' ' = true := by decide
  have htrim : trimStart (w ++ ("async" ++ ' ' :: methodText n p)) =
      "async" ++ ' ' :: methodText n p := (trimStart_append hw).trans (hasync.trimStart _)
  have hgoes : GoesOn (trimStart (w ++ ("async" ++ ' ' :: methodText n p))) := by
    rw [htrim]
    exact hasync.goesOn hn hspace _
  have hbehind : ∀ vs, afterWords? ("async" :: vs)
      (trimStart (w ++ ("async" ++ ' ' :: methodText n p))) = afterWords? vs (methodText n p) := by
    intro vs
    rw [htrim, afterWords?_append hspace]
    exact congrArg _ (hn.trimStart _)
  have hword : ∀ v vs, IsPlain v → ("async" : Text) ≠ v → afterWords? (v :: vs)
      (trimStart (w ++ ("async" ++ ' ' :: methodText n p))) = none := by
    intro v vs hv hne
    rw [htrim]
    exact afterWords?_of_ne hasync hv hspace hne vs
  have hmethod : DeclarationRule.name? ⟨["async"], controlWords, methodBody⟩
      (w ++ ("async" ++ ' ' :: methodText n p)) = methodName? n :=
    name?_methodBody hn hp (hbehind [])
  refine findSome?_of_agree ?_ ⟨_, by simp [rules, braceRules], hmethod⟩
  intro rule hr
  rcases braceRules_shape hr with ⟨k, rfl⟩ | rfl | ⟨v, hv, vs, hl⟩ | rfl | rfl | rfl
  · exact .inl (name?_of_goesOn rfl ⟨':', [], _, by decide +kernel, rfl⟩ hgoes)
  · exact .inl (name?_of_goesOn rfl ⟨'(', [], _, by decide +kernel, rfl⟩ hgoes)
  · have hplain : ∀ v ∈ (["function", "const", "let", "var", "export"] : List Text),
        IsPlain v ∧ ("async" : Text) ≠ v := by decide
    obtain ⟨hv, hne⟩ := hplain v hv
    exact .inl (name?_of_afterWords?_none (hl ▸ hword v vs hv hne))
  · exact .inr hmethod
  · -- behind `async` stands the name of the method, and a parenthesis behind that
    refine .inl (name?_of_afterWords?_none ?_)
    rw [hbehind]
    exact afterWords?_parenthesis hn (by decide) _
  · exact .inl (name?_of_afterWords?_none (hword _ _ (by decide) (by decide)))

/-- A method is declared under its name, with `async` before it or without, exactly when the name
begins with no control word. -/
theorem method_declared {w n p : Text} (hw : ∀ c ∈ w, isBlank c = true) (hn : IsPlain n)
    (hp : newline ∉ p) :
    name? .brace (w ++ n ++ "(" ++ p ++ ") \x7b") =
        (if ∃ k ∈ controlWords, k <+: n then none else some n) ∧
      name? .brace (w ++ "async " ++ n ++ "(" ++ p ++ ") \x7b") =
        if ∃ k ∈ controlWords, k <+: n then none else some n := by
  have hplain : w ++ n ++ "(" ++ p ++ ") \x7b" = w ++ methodText n p := by simp [methodText]
  have hasync : w ++ "async " ++ n ++ "(" ++ p ++ ") \x7b" =
      w ++ ("async" ++ ' ' :: methodText n p) := by simp [methodText]
  rw [hplain, hasync]
  exact ⟨name?_method hw hn hp, name?_asyncMethod hw hn hp⟩

/-- A parenthesis in the parameters, and a name that only begins like a control word. -/
theorem method_declared_format :
    name? .brace "  render(x = f(1)) \x7b" = some "render".toList ∧
      name? .brace "  async format(x) \x7b" = none := by
  have hblank : ∀ c ∈ ("  " : Text), isBlank c = true := List.all_eq_true.1 (by decide)
  have hrender := method_declared hblank (n := "render") (p := "x = f(1)") (by decide) (by decide)
  have hformat := method_declared hblank (n := "format") (p := "x") (by decide) (by decide)
  exact ⟨hrender.1.trans (by decide), hformat.2.trans (by decide)⟩

end Declaration

end CostLens
