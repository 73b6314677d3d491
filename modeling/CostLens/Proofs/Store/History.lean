import CostLens.Proofs.Store.Order
import CostLens.Store.Basic

/-! # Stores and histories

What a store answers is determined by the records that were ever put into it. A history is the
list of these records, the oldest first: the record for a key is the last one with that key, and
the keys stand in the order in which they were first met. Putting the records of a history into an
empty store one after the other gives exactly that.
-/
namespace CostLens

/-- Records in the order in which they were put into a store. -/
abbrev History := List Record

namespace History

/-- The last record with a key. -/
def latest? (h : History) (k : Key) : Option Record := h.reverse.find? fun r => r.key == k

/-- The keys in the order in which they were first met. -/
def keys (h : History) : List Key := (h.map (·.key)).eraseDups

/-- The last record of each key, in the order in which the keys were first met. -/
def entries (h : History) : List Record := h.keys.filterMap h.latest?

/-- Whether a record is about a document; every record is about the documents as a whole. -/
def concerns (document : Option Text) (r : Record) : Bool :=
  match document with
  | some d => r.key.document == d
  | none => true

theorem latest?_append (h : History) (r : Record) (k : Key) :
    latest? (h ++ [r]) k = if r.key = k then some r else h.latest? k := by
  unfold latest?
  by_cases hk : r.key = k <;> simp [hk]

theorem keys_append (h : History) (r : Record) :
    keys (h ++ [r]) = if r.key ∈ h.keys then h.keys else h.keys ++ [r.key] := by
  have hm : r.key ∈ h.keys ↔ r.key ∈ h.map (·.key) := List.mem_eraseDups
  have ha : keys (h ++ [r]) = h.keys ++ ([r.key].removeAll (h.map (·.key))).eraseDups := by
    rw [keys, List.map_append, List.eraseDups_append]
    rfl
  rw [ha]
  generalize h.map (·.key) = ks at hm
  by_cases hk : r.key ∈ ks
  · simp [hm.2 hk, hk, List.removeAll]
  · simp [mt hm.1 hk, hk, List.removeAll, List.eraseDups_cons]

theorem keys_nodup (h : History) : h.keys.Nodup := nodup_eraseDups _

theorem mem_keys_iff (h : History) (k : Key) : k ∈ h.keys ↔ ∃ r ∈ h, r.key = k := by
  simp [keys, List.mem_eraseDups]

theorem key_of_latest? {h : History} {k : Key} {r : Record} (hr : h.latest? k = some r) :
    r.key = k := by
  simpa using List.find?_some hr

theorem isSome_latest?_iff (h : History) (k : Key) : (h.latest? k).isSome ↔ k ∈ h.keys := by
  simp [latest?, mem_keys_iff]

theorem exists_latest? {h : History} {k : Key} (hk : k ∈ h.keys) :
    ∃ r, h.latest? k = some r ∧ r.key = k := by
  obtain ⟨r, hr⟩ := Option.isSome_iff_exists.1 ((isSome_latest?_iff h k).2 hk)
  exact ⟨r, hr, key_of_latest? hr⟩

theorem mem_of_latest? {h : History} {k : Key} {r : Record} (hr : h.latest? k = some r) :
    r ∈ h := by
  simpa using List.mem_of_find?_eq_some hr

theorem mem_of_mem_entries {h : History} {r : Record} (hr : r ∈ h.entries) : r ∈ h := by
  obtain ⟨k, _, hl⟩ := List.mem_filterMap.1 hr
  exact mem_of_latest? hl

theorem map_key_entries (h : History) : h.entries.map (·.key) = h.keys := by
  have hall : ∀ ks : List Key, (∀ k ∈ ks, k ∈ h.keys) →
      (ks.filterMap h.latest?).map (·.key) = ks := by
    intro ks hks
    induction ks with
    | nil => rfl
    | cons k ks ih =>
      obtain ⟨r, hr, hk⟩ := exists_latest? (hks k (by simp))
      rw [List.filterMap_cons_some hr, List.map_cons, hk, ih fun k' hk' => hks k' (by simp [hk'])]
  exact hall h.keys fun _ hk => hk

end History

namespace Store

theorem filterMap_of_not_mem (r : Record) (f : Key → Option Record) {ks : List Key}
    (h : r.key ∉ ks) :
    ks.filterMap (fun k => if r.key = k then some r else f k) = ks.filterMap f := by
  induction ks with
  | nil => rfl
  | cons k ks ih =>
    obtain ⟨hk, hks⟩ := not_or.1 (mt List.mem_cons.2 h)
    simp only [List.filterMap_cons, if_neg hk, ih hks]

/-- Putting a record into the records that a function gives for some keys changes that function at
one key, which goes to the end if it is new. -/
theorem insert_filterMap (r : Record) (f : Key → Option Record) (ks : List Key) (hn : ks.Nodup)
    (hf : ∀ k ∈ ks, ∃ x, f k = some x ∧ x.key = k) :
    insert r (ks.filterMap f) =
      (if r.key ∈ ks then ks else ks ++ [r.key]).filterMap
        fun k => if r.key = k then some r else f k := by
  induction ks with
  | nil => simp [insert]
  | cons k ks ih =>
    obtain ⟨x, hx, hk⟩ := hf k (by simp)
    obtain ⟨hnk, hns⟩ := List.nodup_cons.1 hn
    have hi := ih hns fun k' hk' => hf k' (by simp [hk'])
    by_cases he : r.key = k
    · have hsame := filterMap_of_not_mem r f (he ▸ hnk)
      simp only [List.filterMap_cons_some hx, insert, hk, he, ↓reduceIte, List.mem_cons, true_or,
        List.filterMap_cons, ← hsame]
    · have hxr : x.key ≠ r.key := hk ▸ Ne.symm he
      rw [List.filterMap_cons_some hx, insert, if_neg hxr, hi]
      by_cases hm : r.key ∈ ks
      · simp [he, hm, hx]
      · simp [he, hm, hx]

theorem insert_entries (h : History) (r : Record) :
    insert r h.entries = History.entries (h ++ [r]) := by
  have hl : History.latest? (h ++ [r]) = fun k => if r.key = k then some r else h.latest? k :=
    funext fun k => History.latest?_append h r k
  rw [History.entries, History.entries,
    insert_filterMap r _ _ h.keys_nodup fun _ => History.exists_latest?, History.keys_append, hl]

/-- The records of a history put one after the other into a store that has seen another one. -/
theorem foldl_insert (h more : History) :
    more.foldl (fun rs r => insert r rs) h.entries = History.entries (h ++ more) := by
  induction more generalizing h with
  | nil => simp
  | cons r more ih =>
    rw [List.foldl_cons, insert_entries, ih, List.append_assoc, List.singleton_append]

theorem find?_filterMap (f : Key → Option Record) (k : Key) (ks : List Key)
    (hf : ∀ k ∈ ks, ∃ x, f k = some x ∧ x.key = k) :
    (ks.filterMap f).find? (fun r => r.key == k) = if k ∈ ks then f k else none := by
  induction ks with
  | nil => rfl
  | cons k' ks ih =>
    obtain ⟨x, hx, hk⟩ := hf k' (by simp)
    have hi := ih fun k' hk' => hf k' (by simp [hk'])
    by_cases he : k' = k
    · subst he
      simp [hx, hk]
    · have hxk : (x.key == k) = false := beq_false_of_ne (hk ▸ he)
      rw [List.filterMap_cons_some hx, List.find?_cons, hxk, hi]
      simp [Ne.symm he]

theorem find?_entries (h : History) (k : Key) :
    h.entries.find? (fun r => r.key == k) = h.latest? k := by
  rw [History.entries, find?_filterMap _ _ _ fun k' => History.exists_latest?]
  split
  · rfl
  · next hk =>
    have hnone : ¬ (h.latest? k).isSome := mt (History.isSome_latest?_iff h k).1 hk
    exact (Option.not_isSome_iff_eq_none.1 hnone).symm

/-- A store answers as a history demands: the last record of a key is found, a key is there once
it was met, and the records of a document are listed in the order of their keys, each once. -/
structure Answers (s : Store) (h : History) : Prop where
  get : ∀ k, s.get? k = h.latest? k
  has : ∀ k, (s.get? k).isSome ↔ ∃ r ∈ h, r.key = k
  size : s.size = h.keys.length
  listed : ∀ d, (s.listed d).Perm (h.entries.filter (History.concerns d))
  sorted : ∀ d, (s.listed d).Pairwise fun a b => a.key.le b.key = true

theorem listed_perm (s : Store) (d : Option Text) :
    (s.listed d).Perm (s.records.filter (History.concerns d)) := List.mergeSort_perm ..

theorem listed_sorted (s : Store) (d : Option Text) :
    (s.listed d).Pairwise fun a b => a.key.le b.key = true := by
  unfold listed
  refine List.pairwise_mergeSort ?_ ?_ _
  · exact fun a b c hab hbc => Key.le_trans hab hbc
  · exact fun a b => Key.le_total a.key b.key

/-- A store that holds the entries of a history answers as the history demands. -/
theorem answers_of_records {s : Store} {h : History} (hr : s.records = h.entries) :
    s.Answers h := by
  have hg : ∀ k, s.get? k = h.latest? k := by
    intro k
    rw [get?, hr, find?_entries]
  refine ⟨hg, fun k => ?_, ?_, fun d => hr ▸ s.listed_perm d, s.listed_sorted⟩
  · rw [hg, History.isSome_latest?_iff, History.mem_keys_iff]
  · rw [size, hr, ← History.map_key_entries, List.length_map]

end Store

end CostLens
