import CostLens.Proofs.Analysis.Passes
import CostLens.Proofs.Text.Lines

/-! # Cleaning keeps code on its lines

A pass puts nothing in but double quotes, and takes no line feed out. Both stay true when one pass
works on what another one has left, whatever the fragments look like, so they hold of all passes
together. A text with the line feeds of another one and some of its other signs has the same lines
with some signs missing.
-/
namespace CostLens

/-- The first text is made from the second by taking out signs other than line feeds and putting in
double quotes. -/
structure Pared (t s : Text) : Prop where
  sublist : (t.filter (· != '"')).Sublist s
  newlines : t.count newline = s.count newline

namespace Pared

theorem refl (t : Text) : Pared t t := ⟨List.filter_sublist, rfl⟩

theorem trans {r s t : Text} (h : Pared r s) (h' : Pared s t) : Pared r t := by
  refine ⟨?_, h.newlines.trans h'.newlines⟩
  have hagain : (r.filter (· != '"')).filter (· != '"') = r.filter (· != '"') := by
    rw [List.filter_filter]
    simp only [Bool.and_self]
  rw [← hagain]
  exact (h.sublist.filter _).trans h'.sublist

theorem append {s s' t t' : Text} (h : Pared s t) (h' : Pared s' t') :
    Pared (s ++ s') (t ++ t') := by
  constructor
  · rw [List.filter_append]
    exact h.sublist.append h'.sublist
  · rw [List.count_append, List.count_append, h.newlines, h'.newlines]

theorem forall₂_lines {t s : Text} (h : Pared t s) :
    List.Forall₂ (fun line original => (line.filter (· != '"')).Sublist original) (splitLines t)
      (splitLines s) := by
  have hkeep : (newline != '"') = true := by decide
  have hcount : (t.filter (· != '"')).count newline = s.count newline := by
    rw [List.count_filter (p := (· != '"')) hkeep, h.newlines]
  have hlines := forall₂_splitLines h.sublist hcount
  rw [splitLines_filter (p := (· != '"')) hkeep] at hlines
  exact List.forall₂_map_left_iff.1 hlines

end Pared

/-! ## One pass -/

/-- What a finder puts in the place of a fragment is the fragment pared. -/
def Finder.Pares (find : Finder) : Prop :=
  ∀ t n out, find t = some (n, out) →
    ∃ s r, t = s ++ r ∧ s ≠ [] ∧ s.length = n ∧ Pared out s

theorem Finder.Pares.replaceAll {find : Finder} (h : find.Pares) (t : Text) :
    Pared (replaceAll find t) t := by
  induction hlen : t.length using Nat.strongRecOn generalizing t with
  | ind n ih =>
  cases t with
  | nil => exact .refl []
  | cons c t =>
  subst hlen
  cases hf : find (c :: t) with
  | none =>
    rw [replaceAll_of_find_none hf]
    exact (Pared.refl [c]).append (ih t.length (Nat.lt_succ_self _) t rfl)
  | some found =>
    obtain ⟨s, r, ht, hs, hn, hout⟩ := h (c :: t) found.1 found.2 hf
    have hlt : r.length < (c :: t).length := by
      have hpos := List.length_pos_iff.2 hs
      rw [ht, List.length_append]
      omega
    have hrest := ih r.length hlt r rfl
    rw [ht] at hf ⊢
    have hfound : find (s ++ r) = some (s.length, found.2) := by rw [hf, hn]
    rw [replaceAll_fragment hs hfound]
    exact hout.append hrest

namespace Sanitized

/-- Of a fragment between two marks its line feeds are left, behind quotes or alone. -/
theorem pared_newlinesOf {q a s b : Text} (hq : ∀ c ∈ q, c = '"') (ha : newline ∉ a)
    (hb : newline ∉ b) : Pared (q ++ newlinesOf s) (a ++ (s ++ b)) := by
  have hquotes : q.filter (· != '"') = [] := by
    refine List.filter_eq_nil_iff.2 fun c hc => ?_
    simp [hq c hc]
  have hnone : newline ∉ q := fun h => absurd (hq _ h) (by decide)
  constructor
  · have hlines : (newlinesOf s).Sublist s := List.replicate_sublist_iff.2 (Nat.le_refl _)
    have hinside : s.Sublist (a ++ (s ++ b)) :=
      (List.sublist_append_left s b).trans (List.sublist_append_right a _)
    rw [List.filter_append, hquotes, List.nil_append]
    exact (List.filter_sublist.trans hlines).trans hinside
  · simp [newlinesOf, List.count_eq_zero.2 hnone, List.count_eq_zero.2 ha, List.count_eq_zero.2 hb]

theorem pared_of_line {q s : Text} (hq : ∀ c ∈ q, c = '"') (hs : newline ∉ s) : Pared q s := by
  have h := pared_newlinesOf (s := []) hq hs List.not_mem_nil
  rwa [newlinesOf, List.count_nil, List.replicate_zero, List.append_nil, List.append_nil,
    List.append_nil] at h

theorem blockComment_pares : Finder.Pares blockComment := by
  intro t n out h
  obtain ⟨body, k, rfl, hk, rfl, rfl⟩ := blockComment_eq_some.1 h
  obtain ⟨inside, r, rfl, rfl⟩ := exists_of_lengthBefore? hk
  rw [List.take_left]
  refine ⟨"/*" ++ (inside ++ "*/"), r, by simp, by simp, by simp, ?_⟩
  exact pared_newlinesOf (q := []) (by simp) (by decide) (by decide)

theorem lineComment_pares {mark : Text} (hmark : mark ≠ []) (hn : newline ∉ mark) :
    Finder.Pares (lineComment mark) := by
  intro t n out h
  rw [lineComment] at h
  split at h
  · cases h
  · next body hp =>
    cases h
    have ht := List.append_eq_of_isPrefixOf?_eq_some hp
    refine ⟨mark ++ body.takeWhile (· != newline), body.dropWhile (· != newline), ?_, by simp [hmark],
      by simp, ?_⟩
    · rw [List.append_assoc, List.takeWhile_append_dropWhile, ht]
    · have hline : newline ∉ body.takeWhile (· != newline) := fun hm =>
        absurd (List.mem_takeWhile_imp hm) (by simp)
      exact pared_of_line (by simp) (by simp [hn, hline])

theorem quoted_pares {quote : Char} (hq : quote ≠ newline) : Finder.Pares (quoted quote) := by
  intro t n out h
  obtain ⟨s, r, rfl, hs, rfl, rfl⟩ := exists_of_quoted_eq_some h
  have hline : newline ∉ s := fun hm => (hs _ hm).2 rfl
  refine ⟨quote :: (s ++ [quote]), r, by simp, by simp, by simp, ?_⟩
  exact pared_of_line (by simp [emptyLiteral]) (by simp [hline, hq.symm])

theorem longQuoted_pares {mark : Text} (hmark : mark ≠ []) (hn : newline ∉ mark) :
    Finder.Pares (longQuoted mark) := by
  intro t n out h
  rw [longQuoted] at h
  split at h
  · cases h
  · next body hp =>
    obtain ⟨k, hk, he⟩ := Option.map_eq_some_iff.1 h
    obtain ⟨rfl, rfl⟩ := Prod.mk.inj he
    obtain ⟨inside, r, rfl, rfl⟩ := exists_of_lengthBefore? hk
    have ht := List.append_eq_of_isPrefixOf?_eq_some hp
    rw [List.take_left]
    refine ⟨mark ++ (inside ++ mark), r, ?_, by simp [hmark], ?_, ?_⟩
    · rw [← ht]
      simp
    · simp
      omega
    · exact pared_newlinesOf (by simp [emptyLiteral]) hn hn

theorem tripleQuoted_pares : Finder.Pares tripleQuoted := by
  intro t n out h
  rcases Option.or_eq_some_iff.1 h with h | ⟨-, h⟩
  · exact longQuoted_pares (by decide) (by decide) t n out h
  · exact longQuoted_pares (by decide) (by decide) t n out h

/-! ## All passes -/

theorem passes_pare (family : Family) : ∀ find ∈ passes family, find.Pares := by
  have hbrace : ∀ find ∈ passes .brace, find.Pares := by
    simp only [passes, List.forall_mem_cons]
    exact ⟨blockComment_pares, lineComment_pares (by decide) (by decide), quoted_pares (by decide),
      quoted_pares (by decide), by simp⟩
  cases family with
  | brace => exact hbrace
  | mixed => exact hbrace
  | indent =>
    simp only [passes, List.forall_mem_cons]
    exact ⟨tripleQuoted_pares, quoted_pares (by decide), quoted_pares (by decide),
      lineComment_pares (by decide) (by decide), by simp⟩

theorem foldl_pared {finders : List Finder} (h : ∀ find ∈ finders, find.Pares) (t : Text) :
    Pared (finders.foldl (fun t find => replaceAll find t) t) t := by
  induction finders generalizing t with
  | nil => exact .refl t
  | cons find finders ih =>
    obtain ⟨hfind, hrest⟩ := List.forall_mem_cons.1 h
    exact (ih hrest (replaceAll find t)).trans (hfind.replaceAll t)

/-- A cleaned text has the line feeds of the text it was made from, and on each line only signs of
that line, in their order, and double quotes. -/
theorem lines_aligned (family : Family) (span : Text) :
    (of family span).count newline = span.count newline ∧
      List.Forall₂ (fun clean line => (clean.filter (· != '"')).Sublist line)
        (splitLines (of family span)) (splitLines span) := by
  have h : Pared (of family span) span := foldl_pared (passes_pare family) span
  exact ⟨h.newlines, h.forall₂_lines⟩

-- a comment that takes one quote with it, and leaves the other alone on the next line
example : of .brace "a /* \"b\nc */ d\" e" = "a \n d\" e" := by decide +kernel

end Sanitized

end CostLens
