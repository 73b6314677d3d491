import CostLens.Analysis.Verdict
import CostLens.Proofs.Analysis.Passes
import Mathlib.Data.List.Basic

/-! # What stands in a string literal

Where blocks have braces, comments are removed before literals are emptied. So a literal is emptied
whatever it holds, as long as no comment that begins in it goes on behind it: what is then found in
the text does not depend on the literal. A comment mark in a literal is taken for a comment.
-/
namespace CostLens.Sanitized

/-! ## Comments in a literal -/

theorem mem_of_mem_replaceAll {s : Text} {c : Char} (h : c ∈ replaceAll blockComment s) :
    c ∈ s := by
  rcases mem_replaceFrom h with hm | ⟨u, n, out, hu, hf, hm⟩
  · exact hm
  · obtain ⟨body, k, rfl, -, -, rfl⟩ := blockComment_eq_some.1 hf
    obtain ⟨hcount, rfl⟩ := List.mem_replicate.1 hm
    have hbody : newline ∈ body :=
      List.mem_of_mem_take (List.count_pos_iff.1 (Nat.pos_of_ne_zero hcount))
    exact hu.subset (List.mem_cons_of_mem _ (List.mem_cons_of_mem _ hbody))

/-- Block comments before a quote and behind it are removed apart, unless one that is opened before
the quote is closed behind it. -/
theorem replaceAll_blockComment_append {s q : Text}
    (h : ¬ (("/*" : Text) <:+: replaceAll blockComment s ∧ ("*/" : Text) <:+: q)) :
    replaceAll blockComment (s ++ '"' :: q) =
      replaceAll blockComment s ++ '"' :: replaceAll blockComment q := by
  induction hlen : s.length using Nat.strongRecOn generalizing s with
  | ind n ih =>
  cases s with
  | nil => exact blockComment_opensWith.replaceAll_cons (by decide) q
  | cons c r =>
  cases hf : blockComment (c :: r) with
  | some found =>
    obtain ⟨m, out⟩ := found
    obtain ⟨body, k, hs, hk, rfl, rfl⟩ := blockComment_eq_some.1 hf
    obtain ⟨rfl, rfl⟩ := List.cons.inj hs
    have hle : k + 2 ≤ body.length := lengthBefore?_eq_some_le hk
    have hf' : blockComment ('/' :: ('*' :: body ++ '"' :: q)) =
        some (k + 3 + 1, newlinesOf (body.take k)) := by
      refine blockComment_eq_some.2 ⟨body ++ '"' :: q, k, rfl, lengthBefore?_append hk _, rfl, ?_⟩
      rw [List.take_append_of_le_length (by omega)]
    rw [List.cons_append, replaceAll_of_find hf', replaceAll_of_find (n := k + 3) hf,
      List.drop_append_of_le_length (by rw [List.length_cons]; omega), ih _ ?_ ?_ rfl,
      List.append_assoc]
    · simp at hlen ⊢
      omega
    · rintro ⟨ho, hq⟩
      rw [replaceAll_of_find (n := k + 3) hf] at h
      exact h ⟨ho.trans (List.suffix_append _ _).isInfix, hq⟩
  | none =>
    rw [replaceAll_of_find_none hf] at h ⊢
    have hf' : blockComment (c :: (r ++ '"' :: q)) = none := by
      cases hb : blockComment (c :: (r ++ '"' :: q)) with
      | none => rfl
      | some found =>
        obtain ⟨body, k, hs, hk, -, -⟩ := blockComment_eq_some.1 hb
        obtain ⟨rfl, htail⟩ := List.cons.inj hs
        cases r with
        | nil => exact absurd (List.cons.inj htail).1 (by decide)
        | cons d r =>
        obtain ⟨rfl, rfl⟩ := List.cons.inj htail
        have hinside : ¬ ("*/" : Text) <:+: r := by
          refine lengthBefore?_eq_none_iff.1 ?_
          cases hr : lengthBefore? "*/" r with
          | none => rfl
          | some j =>
            rw [blockComment_eq_some.2 ⟨r, j, rfl, hr, rfl, rfl⟩] at hf
            cases hf
        have hwhole : ("*/" : Text) <:+: r ++ '"' :: q := by
          by_contra hn
          cases hk.symm.trans (lengthBefore?_eq_none_iff.2 hn)
        -- the comment is closed behind the quote, and its opening mark stays in the literal
        have hq := (infix_append_cons (by decide) hwhole).resolve_left hinside
        rw [blockComment_opensWith.replaceAll_cons (by decide)] at h
        exact absurd ⟨⟨[], _, rfl⟩, hq⟩ h
    rw [List.cons_append, replaceAll_of_find_none hf', ih _ ?_ ?_ rfl, List.cons_append]
    · simp at hlen ⊢
      omega
    · rintro ⟨ho, hq⟩
      exact h ⟨List.infix_cons_iff.2 (.inr ho), hq⟩

theorem replaceAll_lineComment_append {s : Text} (h : ¬ ("//" : Text) <:+: s) (t : Text) :
    replaceAll (lineComment "//") (s ++ '"' :: t) =
      s ++ '"' :: replaceAll (lineComment "//") t := by
  rw [(lineComment_marked "//").replaceAll_append h (by simp),
    lineComment_opensWith.replaceAll_cons (by decide)]

/-! ## A literal emptied -/

/-- A text without quotes and slashes, a literal out of which no comment leads, and what follows:
the first part stays, the literal is emptied, and what follows is treated by itself. -/
theorem of_literal {p s q : Text} (hp : ∀ c ∈ p, c ≠ '\'' ∧ c ≠ '"' ∧ c ≠ '/')
    (hs : ∀ c ∈ s, c ≠ '\'' ∧ c ≠ '"' ∧ c ≠ newline)
    (hblock : ¬ (("/*" : Text) <:+: replaceAll blockComment s ∧ ("*/" : Text) <:+: q))
    (hline : ¬ ("//" : Text) <:+: replaceAll blockComment s) :
    of .brace (p ++ '"' :: (s ++ '"' :: q)) = p ++ (emptyLiteral ++ of .brace q) := by
  have hinner : ∀ c ∈ replaceAll blockComment s, c ≠ '\'' ∧ c ≠ '"' ∧ c ≠ newline :=
    fun c hc => hs c (mem_of_mem_replaceAll hc)
  have hslash : '/' ∉ p := fun h => (hp _ h).2.2 rfl
  have hsingle : '\'' ∉ p := fun h => (hp _ h).1 rfl
  have hdouble : '"' ∉ p := fun h => (hp _ h).2.1 rfl
  have hsingle' : '\'' ∉ replaceAll blockComment s := fun h => (hinner _ h).1 rfl
  have h₁ : replaceAll blockComment (p ++ '"' :: (s ++ '"' :: q)) =
      p ++ '"' :: (replaceAll blockComment s ++ '"' :: replaceAll blockComment q) := by
    rw [blockComment_opensWith.replaceAll_append hslash,
      blockComment_opensWith.replaceAll_cons (by decide), replaceAll_blockComment_append hblock]
  have h₂ : ∀ t, replaceAll (lineComment "//")
      (p ++ '"' :: (replaceAll blockComment s ++ '"' :: t)) =
        p ++ '"' :: (replaceAll blockComment s ++ '"' :: replaceAll (lineComment "//") t) := by
    intro t
    rw [lineComment_opensWith.replaceAll_append hslash,
      lineComment_opensWith.replaceAll_cons (by decide), replaceAll_lineComment_append hline]
  have h₃ : ∀ t, replaceAll (quoted '\'')
      (p ++ '"' :: (replaceAll blockComment s ++ '"' :: t)) =
        p ++ '"' :: (replaceAll blockComment s ++ '"' :: replaceAll (quoted '\'') t) := by
    intro t
    have ho := quoted_opensWith '\''
    rw [ho.replaceAll_append hsingle, ho.replaceAll_cons (by decide),
      ho.replaceAll_append hsingle', ho.replaceAll_cons (by decide)]
  have h₄ : ∀ t, replaceAll (quoted '"')
      (p ++ '"' :: (replaceAll blockComment s ++ '"' :: t)) =
        p ++ (emptyLiteral ++ replaceAll (quoted '"') t) := by
    intro t
    rw [(quoted_opensWith '"').replaceAll_append hdouble,
      replaceAll_quoted fun c hc => (hinner c hc).2]
  simp only [of, passes, List.foldl_cons, List.foldl_nil, h₁, h₂, h₃, h₄]

end CostLens.Sanitized

namespace CostLens.Features

open Sanitized (blockComment)

/-- What stands in a literal changes neither what is found in a text with braces nor the verdict,
unless a comment that begins in the literal goes on behind it: one up to the end of the line, or one
that is closed further on. -/
theorem literal_content_ignored {p s q : Text} (hp : ∀ c ∈ p, c ≠ '\'' ∧ c ≠ '"' ∧ c ≠ '/')
    (hs : ∀ c ∈ s, c ≠ '\'' ∧ c ≠ '"' ∧ c ≠ newline)
    (hblock : ¬ (("/*" : Text) <:+: replaceAll blockComment s ∧ ("*/" : Text) <:+: q))
    (hline : ¬ ("//" : Text) <:+: replaceAll blockComment s) :
    ofSpan .brace (p ++ "\"" ++ s ++ "\"" ++ q) = ofSpan .brace (p ++ "\"\"" ++ q) ∧
      (ofSpan .brace (p ++ "\"" ++ s ++ "\"" ++ q)).verdict =
        (ofSpan .brace (p ++ "\"\"" ++ q)).verdict := by
  have hsame : ofSpan .brace (p ++ "\"" ++ s ++ "\"" ++ q) =
      ofSpan .brace (p ++ "\"\"" ++ q) := by
    have hfull : p ++ "\"" ++ s ++ "\"" ++ q = p ++ '"' :: (s ++ '"' :: q) := by
      simp only [List.append_assoc]
      rfl
    have hempty : p ++ "\"\"" ++ q = p ++ '"' :: ([] ++ '"' :: q) := List.append_assoc ..
    have hnone : replaceAll blockComment [] = [] := rfl
    rw [ofSpan, ofSpan, hfull, hempty, Sanitized.of_literal hp hs hblock hline,
      Sanitized.of_literal hp (by simp) (by simp [hnone]) (by simp [hnone])]
  exact ⟨hsame, congrArg verdict hsame⟩

/-- A loop header, a block comment and a backslash in a literal, and a loop behind it. -/
theorem literal_content_ignored_loop :
    ofSpan .brace "f(\"for (x) /* // */ \\ [\"); for (;;) g();" =
        ofSpan .brace "f(\"\"); for (;;) g();" ∧
      (ofSpan .brace "f(\"for (x) /* // */ \\ [\"); for (;;) g();").verdict =
        (ofSpan .brace "f(\"\"); for (;;) g();").verdict :=
  literal_content_ignored (p := "f(") (s := "for (x) /* // */ \\ [") (q := "); for (;;) g();")
    (by simp) (by simp [newline]) (by decide +kernel) (by decide +kernel)

-- an address in a literal hides the rest of its line
example : (ofSpan .brace "f(\"http://x\"); for (;;) g();").depth = 0 ∧
    (ofSpan .brace "f(\"\"); for (;;) g();").depth = 1 := by decide +kernel

end CostLens.Features
