import CostLens.Proofs.Store.Overriding

/-! # Listings, and records put again

A listing is strictly ordered by document, line and function. So it is determined by what a store
answers, and the order in which the records came does not show. Records that are put once more stay
where they are, and the store does not change.
-/
namespace CostLens

namespace Key

/-- A key comes before another one: by document, then by line, then by function. -/
def Before (a b : Key) : Prop :=
  (textLe a.document b.document = true ∧ a.document ≠ b.document) ∨
    a.document = b.document ∧ (a.line < b.line ∨
      a.line = b.line ∧ textLe a.function b.function = true ∧ a.function ≠ b.function)

theorem le_antisymm {a b : Key} (hab : a.le b = true) (hba : b.le a = true) : a = b := by
  obtain ⟨d, f, l⟩ := a
  obtain ⟨d', f', l'⟩ := b
  unfold le at hab hba
  by_cases hd : d = d'
  · subst hd
    by_cases hl : l = l'
    · subst hl
      simp only [↓reduceIte] at hab hba
      rw [textLe_antisymm hab hba]
    · have h1 : l ≤ l' := by simpa [hl] using hab
      have h2 : l' ≤ l := by simpa [Ne.symm hl] using hba
      exact absurd (Int.le_antisymm h1 h2) hl
  · simp only [hd, Ne.symm hd, ↓reduceIte] at hab hba
    exact absurd (textLe_antisymm hab hba) hd

theorem before_of_le {a b : Key} (h : a.le b = true) (hne : a ≠ b) : a.Before b := by
  obtain ⟨d, f, l⟩ := a
  obtain ⟨d', f', l'⟩ := b
  unfold le at h
  by_cases hd : d = d'
  · subst hd
    refine .inr ⟨rfl, ?_⟩
    by_cases hl : l = l'
    · subst hl
      have hf : f ≠ f' := by
        rintro rfl
        exact hne rfl
      simp only [↓reduceIte] at h
      exact .inr ⟨rfl, h, hf⟩
    · have hle : l ≤ l' := by simpa [hl] using h
      have hlt : l < l' := by omega
      exact .inl hlt
  · simp only [hd, ↓reduceIte] at h
    exact .inl ⟨h, hd⟩

end Key

namespace Store

/-! ## Listings -/

section Listing
variable {s s' : Store}

theorem mem_listed {d : Option Text} {r : Record} :
    r ∈ s.listed d ↔ r ∈ s.records ∧ History.concerns d r = true := by
  rw [(s.listed_perm d).mem_iff, List.mem_filter]

theorem listed_nodup (hn : (s.records.map (·.key)).Nodup) (d : Option Text) :
    ((s.listed d).map (·.key)).Nodup := by
  refine ((s.listed_perm d).map _).nodup_iff.2 ?_
  exact hn.sublist (List.filter_sublist.map _)

theorem listed_before (hn : (s.records.map (·.key)).Nodup) (d : Option Text) :
    (s.listed d).Pairwise fun a b => a.key.Before b.key := by
  have hne : (s.listed d).Pairwise fun a b => a.key ≠ b.key :=
    List.pairwise_map.1 (listed_nodup hn d)
  refine ((s.listed_sorted d).and hne).imp ?_
  rintro a b ⟨hle, hab⟩
  exact Key.before_of_le hle hab

theorem mem_listed_iff_get? (hn : (s.records.map (·.key)).Nodup) (d : Option Text) (r : Record) :
    r ∈ s.listed d ↔ s.get? r.key = some r ∧ History.concerns d r = true := by
  rw [mem_listed, get?_eq_some_iff hn, and_iff_left rfl]

theorem listed_congr (hn : (s.records.map (·.key)).Nodup) (hn' : (s'.records.map (·.key)).Nodup)
    (h : ∀ k, s.get? k = s'.get? k) (d : Option Text) : s.listed d = s'.listed d := by
  have hmem : ∀ r, r ∈ s.listed d ↔ r ∈ s'.listed d := by
    intro r
    rw [mem_listed_iff_get? hn, mem_listed_iff_get? hn', h]
  have hperm : (s.listed d).Perm (s'.listed d) :=
    (List.perm_ext_iff_of_nodup (listed_nodup hn d).of_map (listed_nodup hn' d).of_map).2 hmem
  -- records of one key are the same, so the order decides between any two of them
  refine hperm.eq_of_pairwise ?_ (s.listed_sorted d) (s'.listed_sorted d)
  intro a b ha hb hab hba
  exact List.inj_on_of_nodup_map (listed_nodup hn d) ha ((hmem b).2 hb) (Key.le_antisymm hab hba)

end Listing

/-! ## Putting -/

theorem insert_of_mem {r : Record} {rs : List Record} (hn : (rs.map (·.key)).Nodup)
    (h : r ∈ rs) : insert r rs = rs := by
  induction rs with
  | nil => cases h
  | cons a rs ih =>
    obtain ⟨ha, hrs⟩ := List.nodup_cons.1 hn
    rcases List.mem_cons.1 h with rfl | hr
    · rw [insert, if_pos rfl]
    · have hne : a.key ≠ r.key := fun he => ha (List.mem_map.2 ⟨r, hr, he.symm⟩)
      rw [insert, if_neg hne, ih hrs hr]

theorem putAll_of_mem {s : Store} {rs : List Record} (hn : (s.records.map (·.key)).Nodup)
    (h : ∀ r ∈ rs, r ∈ s.records) : s.putAll rs = s := by
  induction rs with
  | nil => rfl
  | cons r rs ih =>
    obtain ⟨hr, hrs⟩ := List.forall_mem_cons.1 h
    have hput : s.put r = s := by rw [put, insert_of_mem hn hr]
    exact (congrArg (putAll · rs) hput).trans (ih hrs)

theorem putAll_append (s : Store) (rs rs' : List Record) :
    s.putAll (rs ++ rs') = (s.putAll rs).putAll rs' := List.foldl_append

section Again
variable {s : Store} {h : History} {rs rs' : List Record}

theorem mem_putAll (hs : s.records = h.entries) (hn : (rs.map (·.key)).Nodup) {r : Record}
    (hr : r ∈ rs) : r ∈ (s.putAll rs).records := by
  have hget := get?_putAll_of_mem hs hn hr
  exact ((get?_eq_some_iff (putAll_nodup hs) _ _).1 hget).1

theorem get?_putAll_of_nil (hs : s.records = []) (k : Key) :
    (s.putAll rs).get? k = History.latest? rs k := by
  rw [get?_putAll (h := []) hs, get?, hs]
  exact Option.or_none

/-- Records that were put into a store can be put again, and nothing changes. -/
theorem putAll_putAll (hs : s.records = h.entries) (hn : (rs.map (·.key)).Nodup) :
    (s.putAll rs).putAll rs = s.putAll rs :=
  putAll_of_mem (putAll_nodup hs) fun _ hr => mem_putAll hs hn hr

/-- The order in which records with different keys come does not show in a listing. -/
theorem listed_putAll_of_perm (hs : s.records = h.entries) (hn : (rs.map (·.key)).Nodup)
    (hp : rs.Perm rs') (d : Option Text) : (s.putAll rs).listed d = (s.putAll rs').listed d := by
  have hn' : (rs'.map (·.key)).Nodup := (hp.map _).nodup_iff.1 hn
  have hlatest : ∀ k, History.latest? rs k = History.latest? rs' k := by
    intro k
    ext r
    rw [History.latest?_eq_some_iff hn, History.latest?_eq_some_iff hn', hp.mem_iff]
  refine listed_congr (putAll_nodup hs) (putAll_nodup hs) (fun k => ?_) d
  rw [get?_putAll hs, get?_putAll hs, hlatest]

end Again

end Store

end CostLens
