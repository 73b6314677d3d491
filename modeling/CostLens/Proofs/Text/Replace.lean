import CostLens.Text.Replace

/-! # Replacing in parts of a text

Replacing passes over whatever begins no fragment. So a text whose first part has none is treated
as if the second part stood alone.
-/
namespace CostLens

/-! ## Where a word stands first -/

theorem exists_of_lengthBefore? {w t : Text} {n : Nat} (h : lengthBefore? w t = some n) :
    ∃ s r, t = s ++ (w ++ r) ∧ s.length = n := by
  induction t generalizing n with
  | nil =>
    rw [lengthBefore?] at h
    split at h
    · next he =>
      cases h
      exact ⟨[], [], by simp [List.isEmpty_iff.1 he], rfl⟩
    · cases h
  | cons c t ih =>
    rw [lengthBefore?] at h
    split at h
    · next hp =>
      cases h
      obtain ⟨r, hr⟩ := List.isPrefixOf_iff_prefix.1 hp
      exact ⟨[], r, hr.symm, rfl⟩
    · obtain ⟨k, hk, rfl⟩ := Option.map_eq_some_iff.1 h
      obtain ⟨s, r, rfl, rfl⟩ := ih hk
      exact ⟨c :: s, r, rfl, rfl⟩

theorem lengthBefore?_eq_some_le {w t : Text} {n : Nat} (h : lengthBefore? w t = some n) :
    n + w.length ≤ t.length := by
  obtain ⟨s, r, rfl, rfl⟩ := exists_of_lengthBefore? h
  rw [List.length_append, List.length_append]
  omega

theorem lengthBefore?_append {w t : Text} {n : Nat} (h : lengthBefore? w t = some n) (u : Text) :
    lengthBefore? w (t ++ u) = some n := by
  induction t generalizing n with
  | nil =>
    have hle := lengthBefore?_eq_some_le h
    have hw : w = [] := by
      rw [List.length_nil] at hle
      exact List.length_eq_zero_iff.1 (by omega)
    rw [hw, lengthBefore?] at h
    cases h
    cases u <;> simp [hw, lengthBefore?]
  | cons c t ih =>
    rw [lengthBefore?] at h
    rw [List.cons_append, lengthBefore?]
    split at h
    · next hp =>
      have hp' : w.isPrefixOf (c :: (t ++ u)) = true :=
        List.isPrefixOf_iff_prefix.2 ((List.isPrefixOf_iff_prefix.1 hp).trans ⟨u, rfl⟩)
      rw [if_pos hp', h]
    · next hp =>
      obtain ⟨k, hk, rfl⟩ := Option.map_eq_some_iff.1 h
      have hle := lengthBefore?_eq_some_le hk
      -- the word is no longer than the text, so more text does not bring it further to the front
      have hp' : ¬ w.isPrefixOf (c :: (t ++ u)) = true := by
        intro hpre
        refine hp (List.isPrefixOf_iff_prefix.2 ?_)
        exact List.prefix_of_prefix_length_le (List.isPrefixOf_iff_prefix.1 hpre) ⟨u, rfl⟩
          (by rw [List.length_cons]; omega)
      rw [if_neg hp', ih hk, Option.map_some]

theorem lengthBefore?_eq_none_iff {w t : Text} : lengthBefore? w t = none ↔ ¬ w <:+: t := by
  induction t with
  | nil => cases w <;> simp [lengthBefore?]
  | cons c t ih =>
    rw [lengthBefore?, List.infix_cons_iff, ← List.isPrefixOf_iff_prefix]
    split
    · next hp => simp [hp]
    · next hp => simp [hp, ih]

/-- A word without a sign stands before the sign or behind it. -/
theorem infix_append_cons {w s t : Text} {c : Char} (hc : c ∉ w) (h : w <:+: s ++ c :: t) :
    w <:+: s ∨ w <:+: t := by
  obtain ⟨before, behind, h⟩ := h
  rw [List.append_assoc] at h
  rcases List.append_eq_append_iff.1 h with ⟨a, rfl, ha⟩ | ⟨a, rfl, ha⟩
  · -- the word begins at the sign or before it
    rcases List.append_eq_append_iff.1 ha with ⟨b, rfl, -⟩ | ⟨b, rfl, hb⟩
    · exact .inl ⟨before, b, by simp⟩
    · cases b with
      | nil => exact .inl ⟨before, [], by simp⟩
      | cons d b =>
        obtain ⟨rfl, -⟩ := List.cons.inj hb
        exact absurd (by simp) hc
  · cases a with
    | nil =>
      cases w with
      | nil => exact .inr ⟨[], t, rfl⟩
      | cons d w =>
        obtain ⟨rfl, -⟩ := List.cons.inj ha
        exact absurd List.mem_cons_self hc
    | cons d a =>
      obtain ⟨-, rfl⟩ := List.cons.inj ha
      exact .inr ⟨a, behind, by simp⟩

theorem prefix_append_cases {w s t : Text} (h : w <+: s ++ t) :
    w <+: s ∨ ∃ v, v ≠ [] ∧ w = s ++ v ∧ v <+: t := by
  rcases List.prefix_or_prefix_of_prefix h (List.prefix_append s t) with hs | ⟨v, rfl⟩
  · exact .inl hs
  · by_cases hv : v = []
    · rw [hv, List.append_nil]
      exact .inl (List.prefix_refl s)
    · exact .inr ⟨v, hv, rfl, (List.prefix_append_right_inj s).1 h⟩

/-- A word that does not stand in a text does not begin in it either, when what follows begins with
none of its signs. -/
theorem not_prefix_across {w s t : Text} (hs : ¬ w <:+: s) (ht : ∀ c ∈ t.head?, c ∉ w) {u : Text}
    (hu : u <:+ s) : ¬ w <+: u ++ t := by
  intro h
  rcases prefix_append_cases h with hp | ⟨v, hv, rfl, hvt⟩
  · exact hs (hp.isInfix.trans hu.isInfix)
  · obtain ⟨c, v, rfl⟩ := List.exists_cons_of_ne_nil hv
    obtain ⟨rest, rfl⟩ := hvt
    exact ht c rfl (by simp)

theorem lengthBefore?_eq_length {w s t : Text} (h : ∀ u, u <:+ s → u ≠ [] → ¬ w <+: u ++ (w ++ t)) :
    lengthBefore? w (s ++ (w ++ t)) = some s.length := by
  induction s with
  | nil =>
    cases hw : w ++ t with
    | nil => simp [lengthBefore?, (List.append_eq_nil_iff.1 hw).1]
    | cons c r =>
      have hp : w.isPrefixOf (c :: r) = true := List.isPrefixOf_iff_prefix.2 ⟨t, hw⟩
      rw [List.nil_append, lengthBefore?, if_pos hp, List.length_nil]
  | cons c s ih =>
    have hp : ¬ w.isPrefixOf (c :: (s ++ (w ++ t))) = true := fun hp =>
      h (c :: s) (List.suffix_refl _) (List.cons_ne_nil c s) (List.isPrefixOf_iff_prefix.1 hp)
    have hrest := ih fun u hu => h u (hu.trans (List.suffix_cons c s))
    rw [List.cons_append, lengthBefore?, if_neg hp, hrest, Option.map_some, List.length_cons]

/-! ## Fragments -/

/-- Every fragment that a finder finds begins with a sign. -/
def Finder.OpensWith (find : Finder) (sign : Char) : Prop :=
  ∀ c t, c ≠ sign → find (c :: t) = none

/-- Where no fragment begins in the first part, only the second one changes. -/
theorem replaceAll_append_of_none {find : Finder} {s t : Text}
    (h : ∀ u, u <:+ s → u ≠ [] → find (u ++ t) = none) :
    replaceAll find (s ++ t) = s ++ replaceAll find t := by
  induction s with
  | nil => rfl
  | cons c s ih =>
    have hhead : find (c :: (s ++ t)) = none :=
      h (c :: s) (List.suffix_refl _) (List.cons_ne_nil c s)
    rw [List.cons_append, replaceAll_of_find_none hhead,
      ih fun u hu => h u (hu.trans (List.suffix_cons c s)), List.cons_append]

theorem mem_replaceFrom {find : Finder} {skip : Nat} {t : Text} {c : Char}
    (h : c ∈ replaceFrom find skip t) :
    c ∈ t ∨ ∃ u n out, u <:+ t ∧ find u = some (n, out) ∧ c ∈ out := by
  induction t generalizing skip with
  | nil => cases skip <;> cases h
  | cons d t ih =>
    have hrest : ∀ {k}, c ∈ replaceFrom find k t →
        c ∈ d :: t ∨ ∃ u n out, u <:+ d :: t ∧ find u = some (n, out) ∧ c ∈ out := by
      intro k hk
      rcases ih hk with hm | ⟨u, n, out, hu, hf, hm⟩
      · exact .inl (List.mem_cons_of_mem d hm)
      · exact .inr ⟨u, n, out, hu.trans (List.suffix_cons d t), hf, hm⟩
    cases skip with
    | succ skip => exact hrest h
    | zero =>
      rw [replaceFrom] at h
      split at h
      · next n out hf =>
        rcases List.mem_append.1 h with hm | hm
        · exact .inr ⟨d :: t, n, out, List.suffix_refl _, hf, hm⟩
        · exact hrest hm
      · rcases List.mem_cons.1 h with rfl | hm
        · exact .inl List.mem_cons_self
        · exact hrest hm

theorem replaceAll_fragment {find : Finder} {s t out : Text} (hs : s ≠ [])
    (h : find (s ++ t) = some (s.length, out)) :
    replaceAll find (s ++ t) = out ++ replaceAll find t := by
  obtain ⟨c, r, rfl⟩ := List.exists_cons_of_ne_nil hs
  rw [List.cons_append] at h ⊢
  rw [replaceAll_of_find h, List.drop_left]

/-- Where what is found in the first part does not depend on the second one, the two parts are
treated apart. -/
theorem replaceFrom_append_of_local {find : Finder} {s t : Text} {skip : Nat}
    (hlen : ∀ u n out, find u = some (n, out) → n ≤ u.length)
    (h : ∀ u, u <:+ s → u ≠ [] → find (u ++ t) = find u) (hskip : skip ≤ s.length) :
    replaceFrom find skip (s ++ t) = replaceFrom find skip s ++ replaceAll find t := by
  induction s generalizing skip with
  | nil =>
    rw [Nat.le_zero.1 hskip]
    rfl
  | cons c s ih =>
    have hrest : ∀ {k}, k ≤ s.length →
        replaceFrom find k (s ++ t) = replaceFrom find k s ++ replaceAll find t :=
      ih fun u hu => h u (hu.trans (List.suffix_cons c s))
    cases skip with
    | succ skip => exact hrest (Nat.le_of_succ_le_succ hskip)
    | zero =>
      have hhead : find (c :: (s ++ t)) = find (c :: s) :=
        h (c :: s) (List.suffix_refl _) (List.cons_ne_nil c s)
      rw [List.cons_append, replaceFrom, replaceFrom, hhead]
      cases hf : find (c :: s) with
      | none => simp only [hrest (Nat.zero_le _), List.cons_append]
      | some found =>
        have hle := hlen _ _ _ hf
        rw [List.length_cons] at hle
        simp only [hrest (show found.1 - 1 ≤ s.length by omega), List.append_assoc]

theorem head?_replaceAll {find : Finder} {t : Text}
    (h : ∀ c ∈ t.head?, ∀ r, find (c :: r) = none) : (replaceAll find t).head? = t.head? := by
  cases t with
  | nil => rfl
  | cons c r => rw [replaceAll_of_find_none (h c rfl r), List.head?_cons, List.head?_cons]

theorem Finder.OpensWith.replaceAll_append {find : Finder} {sign : Char} (h : find.OpensWith sign)
    {s : Text} (hs : sign ∉ s) (t : Text) :
    replaceAll find (s ++ t) = s ++ replaceAll find t := by
  refine replaceAll_append_of_none fun u hu hne => ?_
  obtain ⟨c, v, rfl⟩ := List.exists_cons_of_ne_nil hne
  refine h c (v ++ t) ?_
  rintro rfl
  exact hs (hu.subset List.mem_cons_self)

theorem Finder.OpensWith.replaceAll_cons {find : Finder} {sign c : Char} (h : find.OpensWith sign)
    (hc : c ≠ sign) (t : Text) : replaceAll find (c :: t) = c :: replaceAll find t :=
  replaceAll_of_find_none (h c t hc)

/-- Every fragment that a finder finds begins with a word. -/
def Finder.Marked (find : Finder) (w : Text) : Prop := ∀ t, ¬ w <+: t → find t = none

theorem Finder.Marked.replaceAll_append {find : Finder} {w s t : Text} (h : find.Marked w)
    (hs : ¬ w <:+: s) (ht : ∀ c ∈ t.head?, c ∉ w) :
    replaceAll find (s ++ t) = s ++ replaceAll find t :=
  replaceAll_append_of_none fun _ hu _ => h _ (not_prefix_across hs ht hu)

theorem Finder.Marked.opensWith {find : Finder} {sign : Char} {w : Text}
    (h : find.Marked (sign :: w)) : find.OpensWith sign := by
  intro c t hc
  apply h
  intro hp
  exact hc (List.cons_prefix_cons.1 hp).1.symm

/-- A text between two signs that the word has not stays when the word does not stand in it. -/
theorem Finder.Marked.replaceAll_enclosed {find : Finder} {w s : Text} {sign : Char}
    (h : find.Marked w) (hw : w ≠ []) (hsign : sign ∉ w) (hs : ¬ w <:+: s) (t : Text) :
    replaceAll find (sign :: (s ++ sign :: t)) = sign :: (s ++ sign :: replaceAll find t) := by
  have hnone : ∀ r, find (sign :: r) = none := by
    intro r
    apply h
    intro hp
    obtain ⟨c, w, rfl⟩ := List.exists_cons_of_ne_nil hw
    exact hsign ((List.cons_prefix_cons.1 hp).1 ▸ List.mem_cons_self)
  have hhead : ∀ c ∈ (sign :: t).head?, c ∉ w := by
    intro c hc
    obtain rfl : sign = c := Option.some.inj hc
    exact hsign
  rw [replaceAll_of_find_none (hnone _), h.replaceAll_append hs hhead,
    replaceAll_of_find_none (hnone t)]

end CostLens
