import Mathlib.Data.List.Nodup
import CostLens.Proofs.Store.Saving

/-! # Overriding stored results

Records with different keys put into a store override it at their keys and nowhere else. When a
file holds the store after that, reading the file gives the overridden store.
-/
namespace CostLens

open FileSystem (Places Keeps)

/-- The labels of a record are texts. -/
def Record.HasTextLabels (r : Record) : Prop := (∃ t, r.time = .str t) ∧ ∃ t, r.space = .str t

theorem Record.HasTextLabels.lasts {r : Record} (h : r.HasTextLabels)
    (hl : Json.IsShort r.key.line) : r.Lasts := ⟨h.1, h.2, hl⟩

theorem History.latest?_append_all (h more : History) (k : Key) :
    History.latest? (h ++ more) k = (more.latest? k).or (h.latest? k) := by
  unfold History.latest?
  rw [List.reverse_append, List.find?_append]

namespace Store

/-- Among records with different keys, a test for a key finds the record with that key. -/
theorem find?_eq_some_iff {rs : List Record} {k : Key} {p : Record → Bool}
    (hn : (rs.map (·.key)).Nodup) (hp : ∀ r ∈ rs, p r = true ↔ r.key = k) (r : Record) :
    rs.find? p = some r ↔ r ∈ rs ∧ r.key = k := by
  constructor
  · intro h
    have hr := List.mem_of_find?_eq_some h
    exact ⟨hr, (hp r hr).1 (List.find?_some h)⟩
  · rintro ⟨hr, hk⟩
    have hsome : (rs.find? p).isSome = true := List.find?_isSome.2 ⟨r, hr, (hp r hr).2 hk⟩
    obtain ⟨r', hf⟩ := Option.isSome_iff_exists.1 hsome
    have hr' := List.mem_of_find?_eq_some hf
    have hk' : r'.key = k := (hp r' hr').1 (List.find?_some hf)
    rw [hf, List.inj_on_of_nodup_map hn hr' hr (hk'.trans hk.symm)]

end Store

theorem History.latest?_eq_some_iff {h : History} (hn : (h.map (·.key)).Nodup) (k : Key)
    (r : Record) : h.latest? k = some r ↔ r ∈ h ∧ r.key = k := by
  have hn' : (h.reverse.map (·.key)).Nodup := by
    rw [List.map_reverse]
    exact List.nodup_reverse.2 hn
  rw [latest?, Store.find?_eq_some_iff hn' (fun _ _ => beq_iff_eq), List.mem_reverse]

namespace Store

theorem get?_eq_some_iff {s : Store} (hn : (s.records.map (·.key)).Nodup) (k : Key)
    (r : Record) : s.get? k = some r ↔ r ∈ s.records ∧ r.key = k :=
  find?_eq_some_iff hn (fun _ _ => beq_iff_eq) r

/-- Records put into a store one after the other. -/
def putAll (s : Store) (rs : List Record) : Store := rs.foldl put s

theorem putAll_eq (s : Store) (rs : List Record) :
    s.putAll rs = { s with records := rs.foldl (fun acc r => insert r acc) s.records } := by
  induction rs generalizing s with
  | nil => rfl
  | cons r rs ih => exact ih (s.put r)

theorem mem_of_mem_insert {r s : Record} {rs : List Record} (h : s ∈ insert r rs) :
    s = r ∨ s ∈ rs := by
  induction rs with
  | nil => exact .inl (List.mem_singleton.1 h)
  | cons a rs ih =>
    rw [insert] at h
    split at h
    · rcases List.mem_cons.1 h with hs | hs
      · exact .inl hs
      · exact .inr (List.mem_cons_of_mem a hs)
    · rcases List.mem_cons.1 h with hs | hs
      · exact .inr (hs ▸ List.mem_cons_self)
      · exact (ih hs).imp_right (List.mem_cons_of_mem a)

theorem mem_of_mem_putAll {s : Store} {rs : List Record} {r : Record}
    (h : r ∈ (s.putAll rs).records) : r ∈ rs ∨ r ∈ s.records := by
  induction rs generalizing s with
  | nil => exact .inr h
  | cons a rs ih =>
    rcases ih (s := s.put a) h with hr | hr
    · exact .inl (List.mem_cons_of_mem a hr)
    · rcases mem_of_mem_insert hr with he | hm
      · exact .inl (he ▸ List.mem_cons_self)
      · exact .inr hm

section Override
variable {s : Store} {h : History} {rs : List Record}

theorem putAll_records (hs : s.records = h.entries) :
    (s.putAll rs).records = History.entries (h ++ rs) := by
  rw [putAll_eq, hs, ← foldl_insert]

theorem putAll_nodup (hs : s.records = h.entries) :
    ((s.putAll rs).records.map (·.key)).Nodup := by
  rw [putAll_records hs, History.map_key_entries]
  exact History.keys_nodup _

theorem get?_putAll (hs : s.records = h.entries) (k : Key) :
    (s.putAll rs).get? k = (History.latest? rs k).or (s.get? k) := by
  rw [get?, putAll_records hs, find?_entries, History.latest?_append_all, get?, hs, find?_entries]

theorem get?_putAll_of_mem (hs : s.records = h.entries) (hn : (rs.map (·.key)).Nodup)
    {r : Record} (hr : r ∈ rs) : (s.putAll rs).get? r.key = some r := by
  have hl : History.latest? rs r.key = some r := (History.latest?_eq_some_iff hn _ _).2 ⟨hr, rfl⟩
  rw [get?_putAll hs, hl, Option.some_or]

end Override

/-! ## In a file -/

/-- The file at a path holds a store as it was saved at a moment. -/
def HeldIn (s : Store) (path : Path) (now : Moment) (fs : FileSystem) : Prop :=
  fs.read path.text = .ok (Utf8.encode (s.snapshot now.text).write)

theorem HeldIn.keeps {s : Store} {path : Path} {now : Moment} {L D : Places}
    {fs fs' : FileSystem} (h : s.HeldIn path now fs) (hk : Keeps L D fs fs')
    (hl : ¬ L (fs.place path.text)) : s.HeldIn path now fs' := hk.read hl h

theorem store_of_heldIn {rs : List Record} {path : Path} {now : Moment} {fs fs' : FileSystem}
    (hl : ∀ r ∈ (fs.stored path).records, r.HasTextLabels) (hrs : ∀ r ∈ rs, r.Lasts)
    (h : ((fs.stored path).putAll rs).HeldIn path now fs') :
    fs'.store path = .ok ((fs.stored path).putAll rs) := by
  have hlast : ∀ r ∈ ((fs.stored path).putAll rs).records, r.Lasts := by
    intro r hr
    rcases mem_of_mem_putAll hr with hm | hm
    · exact hrs r hm
    · exact (hl r hm).lasts (fs.recorded_short path r (History.mem_of_mem_entries hm))
  rw [store_of_read (putAll_nodup rfl) hlast h, putAll_eq]
  rfl

end Store

end CostLens
