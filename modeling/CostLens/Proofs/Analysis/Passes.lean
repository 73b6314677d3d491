import CostLens.Analysis.Sanitized
import CostLens.Proofs.Text.Replace
import Mathlib.Data.List.Basic
import Mathlib.Data.List.TakeWhile

/-! # What the passes look for

Each pass over a text replaces fragments of one kind: comments between marks, comments up to the end
of a line, literals between quotes. Here stand the signs that such a fragment begins with, where it
ends, and what is put in its place.
-/
namespace CostLens.Sanitized

/-! ## Comments -/

theorem isPrefixOf?_eq_none {w t : Text} (h : ¬ w <+: t) : w.isPrefixOf? t = none := by
  cases hp : w.isPrefixOf? t with
  | none => rfl
  | some rest => exact absurd ⟨rest, List.append_eq_of_isPrefixOf?_eq_some hp⟩ h

theorem isPrefixOf?_append (w t : Text) : w.isPrefixOf? (w ++ t) = some t :=
  List.isPrefixOf?_eq_some_iff_append_eq.2 rfl

theorem blockComment_marked : Finder.Marked blockComment "/*" := by
  intro t h
  rw [blockComment, isPrefixOf?_eq_none h]

theorem lineComment_marked (mark : Text) : Finder.Marked (lineComment mark) mark := by
  intro t h
  rw [lineComment, isPrefixOf?_eq_none h]

theorem blockComment_opensWith : Finder.OpensWith blockComment '/' := blockComment_marked.opensWith

theorem lineComment_opensWith : Finder.OpensWith (lineComment "//") '/' :=
  (lineComment_marked "//").opensWith

theorem hashComment_opensWith : Finder.OpensWith (lineComment "#") '#' :=
  (lineComment_marked "#").opensWith

theorem blockComment_eq_some {t out : Text} {n : Nat} : blockComment t = some (n, out) ↔
    ∃ body k, t = '/' :: '*' :: body ∧ lengthBefore? "*/" body = some k ∧ n = k + 4 ∧
      out = newlinesOf (body.take k) := by
  unfold blockComment
  constructor
  · intro h
    split at h
    · cases h
    · next body hp =>
      obtain ⟨k, hk, he⟩ := Option.map_eq_some_iff.1 h
      obtain ⟨rfl, rfl⟩ := Prod.mk.inj he
      exact ⟨body, k, (List.append_eq_of_isPrefixOf?_eq_some hp).symm, hk, rfl, rfl⟩
  · rintro ⟨body, k, rfl, hk, rfl, rfl⟩
    have hp : ("/*" : Text).isPrefixOf? ('/' :: '*' :: body) = some body :=
      List.isPrefixOf?_eq_some_iff_append_eq.2 rfl
    simp only [hp, hk, Option.map_some]

theorem mem_newlinesOf {t : Text} {c : Char} (h : c ∈ newlinesOf t) : c = newline :=
  (List.mem_replicate.1 h).2

theorem newlinesOf_ne_quote {t : Text} : ∀ c ∈ newlinesOf t, c ≠ '\'' ∧ c ≠ '"' := by
  intro c hc
  rw [mem_newlinesOf hc]
  decide

theorem replaceAll_blockComment {b : Text} (hb : ¬ ("*/" : Text) <:+: b) (t : Text) :
    replaceAll blockComment ("/*" ++ (b ++ "*/") ++ t) =
      newlinesOf b ++ replaceAll blockComment t := by
  have hfirst : lengthBefore? "*/" (b ++ ("*/" ++ t)) = some b.length := by
    apply lengthBefore?_eq_length
    intro u hu hne hp
    rcases prefix_append_cases hp with hin | ⟨v, hv, hw, hvt⟩
    · exact hb (hin.isInfix.trans hu.isInfix)
    · -- The two signs of the mark differ, so it does not begin in `b` and end behind it.
      obtain ⟨c, u, rfl⟩ := List.exists_cons_of_ne_nil hne
      obtain ⟨d, v, rfl⟩ := List.exists_cons_of_ne_nil hv
      have hsigns : '*' :: '/' :: [] = c :: (u ++ d :: v) := hw
      cases u with
      | nil =>
        have hslash : '/' = d := (List.cons.inj (List.cons.inj hsigns).2).1
        have hstar : d = '*' := (List.cons_prefix_cons.1 hvt).1
        exact absurd (hslash.trans hstar) (by decide)
      | cons e u => simp at hsigns
  refine replaceAll_fragment (by simp) ?_
  refine blockComment_eq_some.2 ⟨b ++ ("*/" ++ t), b.length, ?_, hfirst, ?_, ?_⟩
  · simp
  · simp
  · rw [List.take_left]

/-- A text that is empty or begins with a line feed. -/
def EndsLine (t : Text) : Prop := ∀ c ∈ t.head?, c = newline

instance (t : Text) : Decidable (EndsLine t) := Option.decidableForallMem t.head?

theorem EndsLine.replaceAll {find : Finder} {t : Text} (ht : EndsLine t)
    (h : ∀ r, find (newline :: r) = none) : EndsLine (replaceAll find t) := by
  have hhead : (CostLens.replaceAll find t).head? = t.head? := by
    apply head?_replaceAll
    intro c hc r
    rw [ht c hc, h]
  intro c hc
  exact ht c (hhead ▸ hc)

theorem EndsLine.takeWhile_append {p : Char → Bool} {s t : Text} (ht : EndsLine t)
    (hp : p newline = false) : (s ++ t).takeWhile p = s.takeWhile p := by
  induction s with
  | nil =>
    cases t with
    | nil => rfl
    | cons c t => simp [ht c rfl, hp]
  | cons c s ih => simp only [List.cons_append, List.takeWhile_cons, ih]

theorem replaceAll_lineComment {mark c t : Text} (hmark : mark ≠ []) (hc : newline ∉ c)
    (ht : EndsLine t) :
    replaceAll (lineComment mark) (mark ++ c ++ t) = replaceAll (lineComment mark) t := by
  have hall : ∀ d ∈ c, (d != newline) = true := by
    intro d hd
    simpa using fun h : d = newline => hc (h ▸ hd)
  have hinside : (c ++ t).takeWhile (· != newline) = c := by
    rw [ht.takeWhile_append (by simp), List.takeWhile_eq_self_iff]
    exact hall
  have hfound : lineComment mark (mark ++ c ++ t) = some ((mark ++ c).length, []) := by
    rw [lineComment, List.append_assoc, isPrefixOf?_append]
    simp only [hinside, List.length_append]
  have hne : mark ++ c ≠ [] := List.append_ne_nil_of_left_ne_nil hmark c
  rw [replaceAll_fragment hne hfound, List.nil_append]

/-! ## Literals -/

/-- The two signs that a literal may stand between. -/
inductive Quote
  | single
  | double
  deriving DecidableEq

def Quote.sign : Quote → Char
  | single => '\''
  | double => '"'

instance {p : Quote → Prop} [DecidablePred p] : Decidable (∀ q, p q) :=
  decidable_of_iff (p .single ∧ p .double)
    ⟨fun h q => match q with
      | .single => h.1
      | .double => h.2,
    fun h => ⟨h .single, h .double⟩⟩

/-- Three quotes of a kind in a row. -/
def Quote.mark (q : Quote) : Text := [q.sign, q.sign, q.sign]

theorem quoted_opensWith (quote : Char) : Finder.OpensWith (quoted quote) quote :=
  fun _ _ hc => if_neg hc

theorem quoted_eq_some {quote : Char} {s t : Text} (hs : ∀ c ∈ s, c ≠ quote ∧ c ≠ newline) :
    quoted quote (quote :: (s ++ quote :: t)) = some (s.length + 2, emptyLiteral) := by
  have hinside : (s ++ quote :: t).takeWhile (fun d => d != quote && d != newline) = s := by
    rw [List.takeWhile_append_of_pos (by simpa using hs)]
    simp
  rw [quoted, if_pos rfl]
  simp only [hinside, List.drop_left, List.head?_cons, ↓reduceIte]

theorem replaceAll_quoted {quote : Char} {s : Text} (hs : ∀ c ∈ s, c ≠ quote ∧ c ≠ newline)
    (t : Text) : replaceAll (quoted quote) (quote :: (s ++ quote :: t)) =
      emptyLiteral ++ replaceAll (quoted quote) t := by
  rw [replaceAll_of_find (quoted_eq_some hs), ← List.drop_drop, List.drop_left, List.drop_one,
    List.tail_cons]

theorem exists_of_quoted_eq_some {quote : Char} {t out : Text} {n : Nat}
    (h : quoted quote t = some (n, out)) : ∃ s r, t = quote :: (s ++ quote :: r) ∧
      (∀ c ∈ s, c ≠ quote ∧ c ≠ newline) ∧ n = s.length + 2 ∧ out = emptyLiteral := by
  cases t with
  | nil => cases h
  | cons c body =>
    rw [quoted] at h
    dsimp only at h
    split at h
    · next hc =>
      split at h
      · next hclose =>
        cases h
        obtain ⟨r, hr⟩ := List.head?_eq_some_iff.1 hclose
        refine ⟨body.takeWhile fun d => d != quote && d != newline, r, ?_, ?_, rfl, rfl⟩
        · rw [← hr, hc, List.prefix_iff_eq_append.1 (List.takeWhile_prefix _)]
        · intro d hd
          simpa using List.mem_takeWhile_imp hd
      · cases h
    · cases h

theorem eq_of_quoted_eq_some {quote : Char} {t out : Text} {n : Nat}
    (h : quoted quote t = some (n, out)) : n ≤ t.length ∧ out = emptyLiteral := by
  obtain ⟨s, r, rfl, -, rfl, rfl⟩ := exists_of_quoted_eq_some h
  exact ⟨by simp, rfl⟩

/-- No literal leads to the next line. -/
theorem quoted_append {quote : Char} {s t : Text} (hs : s ≠ []) (ht : EndsLine t)
    (hq : newline ≠ quote) : quoted quote (s ++ t) = quoted quote s := by
  obtain ⟨c, body, rfl⟩ := List.exists_cons_of_ne_nil hs
  have hinside : (body ++ t).takeWhile (fun d => d != quote && d != newline) =
      body.takeWhile fun d => d != quote && d != newline := ht.takeWhile_append (by simp)
  have hclose : ∀ k ≤ body.length,
      ((body ++ t).drop k).head? = some quote ↔ (body.drop k).head? = some quote := by
    intro k hk
    rw [List.drop_append_of_le_length hk, List.head?_append]
    cases (body.drop k).head? with
    | some d => simp
    | none =>
      have hnone : t.head? ≠ some quote := fun h => hq (ht quote h).symm
      simpa using hnone
  have hle := (List.takeWhile_prefix (fun d => d != quote && d != newline) (l := body)).length_le
  rw [List.cons_append, quoted, quoted]
  simp only [hinside, hclose _ hle]

/-- What stands on a line is treated by itself. -/
theorem replaceAll_quoted_append {quote : Char} (s : Text) {t : Text} (ht : EndsLine t)
    (hq : newline ≠ quote) : replaceAll (quoted quote) (s ++ t) =
      replaceAll (quoted quote) s ++ replaceAll (quoted quote) t :=
  replaceFrom_append_of_local (fun _ _ _ h => (eq_of_quoted_eq_some h).1)
    (fun _ _ hne => quoted_append hne ht hq) (Nat.zero_le _)

theorem newline_not_mem_replaceAll_quoted {quote : Char} {s : Text} (hs : newline ∉ s) :
    newline ∉ replaceAll (quoted quote) s := by
  intro h
  rcases mem_replaceFrom h with hm | ⟨u, n, out, -, hf, hm⟩
  · exact hs hm
  · rw [(eq_of_quoted_eq_some hf).2] at hm
    exact absurd hm (by decide)

/-! ## Literals between three quotes -/

theorem tripleQuoted_eq_none {t : Text} (h : ∀ q : Quote, ¬ q.mark <+: t) :
    tripleQuoted t = none := by
  have hd : ("\"\"\"" : Text).isPrefixOf? t = none := isPrefixOf?_eq_none (h .double)
  have hs : ("'''" : Text).isPrefixOf? t = none := isPrefixOf?_eq_none (h .single)
  rw [tripleQuoted, longQuoted, longQuoted, hd, hs]
  rfl

theorem tripleQuoted_mark (q : Quote) (t : Text) : tripleQuoted (q.mark ++ t) =
    (lengthBefore? q.mark t).map fun n => (n + 6, emptyLiteral ++ newlinesOf (t.take n)) := by
  cases q with
  | double =>
    have hd : ("\"\"\"" : Text).isPrefixOf? (Quote.double.mark ++ t) = some t :=
      isPrefixOf?_append ..
    have hs : ("'''" : Text).isPrefixOf? (Quote.double.mark ++ t) = none := rfl
    rw [tripleQuoted, longQuoted, longQuoted, hd, hs]
    exact Option.or_none
  | single =>
    have hd : ("\"\"\"" : Text).isPrefixOf? (Quote.single.mark ++ t) = none := rfl
    have hs : ("'''" : Text).isPrefixOf? (Quote.single.mark ++ t) = some t :=
      isPrefixOf?_append ..
    rw [tripleQuoted, longQuoted, longQuoted, hd, hs]
    rfl

theorem replaceAll_tripleQuoted_code {s : Text} (hs : ∀ c ∈ s, c ≠ '\'' ∧ c ≠ '"') (t : Text) :
    replaceAll tripleQuoted (s ++ t) = s ++ replaceAll tripleQuoted t := by
  refine replaceAll_append_of_none fun u hu hne => tripleQuoted_eq_none fun q hp => ?_
  obtain ⟨c, u, rfl⟩ := List.exists_cons_of_ne_nil hne
  have hc := hs c (hu.subset List.mem_cons_self)
  have hq : q.sign = c := (List.cons_prefix_cons.1 hp).1
  cases q with
  | single => exact hc.1 hq.symm
  | double => exact hc.2 hq.symm

/-- A text that does not begin with a quote. -/
def Unquoted (t : Text) : Prop := ∀ c ∈ t.head?, c ≠ '\'' ∧ c ≠ '"'

instance (t : Text) : Decidable (Unquoted t) := Option.decidableForallMem t.head?

theorem EndsLine.unquoted {t : Text} (ht : EndsLine t) : Unquoted t := by
  intro c hc
  rw [ht c hc]
  decide

theorem replaceAll_tripleQuoted_append {s t : Text} (hs : ∀ q : Quote, ¬ q.mark <:+: s)
    (ht : Unquoted t) : replaceAll tripleQuoted (s ++ t) = s ++ replaceAll tripleQuoted t := by
  refine replaceAll_append_of_none fun u hu _ => tripleQuoted_eq_none fun q => ?_
  refine not_prefix_across (hs q) ?_ hu
  intro c hc hm
  have hq : c = q.sign := by simpa [Quote.mark] using hm
  cases q with
  | single => exact (ht c hc).1 hq
  | double => exact (ht c hc).2 hq

theorem replaceAll_tripleQuoted {q : Quote} {s : Text} (hs : ¬ q.mark <:+: s)
    (hlast : ∀ c ∈ s.getLast?, c ≠ q.sign) (t : Text) :
    replaceAll tripleQuoted (q.mark ++ (s ++ q.mark) ++ t) =
      emptyLiteral ++ newlinesOf s ++ replaceAll tripleQuoted t := by
  have hfirst : lengthBefore? q.mark (s ++ (q.mark ++ t)) = some s.length := by
    apply lengthBefore?_eq_length
    intro u hu hne hp
    rcases prefix_append_cases hp with hin | ⟨v, hv, hw, -⟩
    · exact hs (hin.isInfix.trans hu.isInfix)
    · -- Three quotes that begin in `s` and end behind it make it end with a quote.
      have hmem : u.getLast hne ∈ q.mark := hw ▸ List.mem_append_left v (List.getLast_mem hne)
      have hsign : u.getLast hne = q.sign := by simpa [Quote.mark] using hmem
      obtain ⟨before, rfl⟩ := hu
      refine hlast (u.getLast hne) ?_ hsign
      rw [List.getLast?_append_of_ne_nil before hne, List.getLast?_eq_getLast_of_ne_nil hne]
      rfl
  refine replaceAll_fragment (by simp [Quote.mark]) ?_
  rw [List.append_assoc, List.append_assoc, tripleQuoted_mark, hfirst, Option.map_some,
    List.take_left]
  simp [Quote.mark]

/-! ## All short literals -/

/-- A text with all its literals between two quotes emptied. -/
def emptied (t : Text) : Text := replaceAll (quoted '"') (replaceAll (quoted '\'') t)

theorem of_brace (t : Text) :
    of .brace t = emptied (replaceAll (lineComment "//") (replaceAll blockComment t)) := rfl

theorem of_indent (t : Text) :
    of .indent t = replaceAll (lineComment "#") (emptied (replaceAll tripleQuoted t)) := rfl

theorem emptied_append {s : Text} (hs : ∀ c ∈ s, c ≠ '\'' ∧ c ≠ '"') (t : Text) :
    emptied (s ++ t) = s ++ emptied t := by
  have hsingle : '\'' ∉ s := fun h => (hs _ h).1 rfl
  have hdouble : '"' ∉ s := fun h => (hs _ h).2 rfl
  rw [emptied, (quoted_opensWith _).replaceAll_append hsingle,
    (quoted_opensWith _).replaceAll_append hdouble, emptied]

theorem emptied_quoted {q : Quote} {s : Text} (hs : ∀ c ∈ s, c ≠ '\'' ∧ c ≠ newline)
    (hq : q = .double → '"' ∉ s) (t : Text) :
    emptied (q.sign :: (s ++ q.sign :: t)) = emptyLiteral ++ emptied t := by
  cases q with
  | single =>
    -- Double quotes in the literal are gone before they are looked for.
    change replaceAll (quoted '"') (replaceAll (quoted '\'') ('\'' :: (s ++ '\'' :: t))) = _
    rw [replaceAll_quoted hs]
    exact replaceAll_quoted (s := []) (by simp) _
  | double =>
    have ho := quoted_opensWith '\''
    have hsingle : '\'' ∉ s := fun h => (hs _ h).1 rfl
    have hinner : ∀ c ∈ s, c ≠ '"' ∧ c ≠ newline :=
      fun c hc => ⟨fun h => hq rfl (h ▸ hc), (hs c hc).2⟩
    change replaceAll (quoted '"') (replaceAll (quoted '\'') ('"' :: (s ++ '"' :: t))) = _
    rw [ho.replaceAll_cons (by decide), ho.replaceAll_append hsingle, ho.replaceAll_cons (by decide),
      replaceAll_quoted hinner, emptied]

theorem emptied_emptyLiteral (t : Text) : emptied (emptyLiteral ++ t) = emptyLiteral ++ emptied t :=
  emptied_quoted (q := .double) (s := []) (by simp) (by simp) t

theorem EndsLine.emptied {t : Text} (ht : EndsLine t) : EndsLine (emptied t) :=
  (ht.replaceAll fun _ => rfl).replaceAll fun _ => rfl

/-- What stands on a line is treated by itself, and stays on the line. -/
theorem emptied_line (c : Text) {t : Text} (ht : EndsLine t) :
    emptied (c ++ t) = emptied c ++ emptied t := by
  have hs : EndsLine (replaceAll (quoted '\'') t) := ht.replaceAll fun _ => rfl
  rw [emptied, replaceAll_quoted_append c ht (by decide),
    replaceAll_quoted_append _ hs (by decide)]
  rfl

theorem newline_not_mem_emptied {c : Text} (hc : newline ∉ c) : newline ∉ emptied c :=
  newline_not_mem_replaceAll_quoted (newline_not_mem_replaceAll_quoted hc)

end CostLens.Sanitized
