import CostLens.Proofs.Json.Saving
import CostLens.Proofs.Store.Snapshot

/-! # Saving a store

A store that was saved changes one file, makes directories on the way to it, and leaves there what
is read back as the same store.
-/
namespace CostLens

open FileSystem (Keeps)

theorem Run.tryCatch_fail_eq_ok {α : Type} {x : Run α} {g : Failure → Failure} {w w' : World}
    {a : α} (h : (tryCatch x fun f => Run.fail (g f)) w = (.ok a, w')) : x w = (.ok a, w') := by
  rw [Run.tryCatch_apply] at h
  split at h
  · next hx => exact hx.trans h
  · cases h

namespace Store

/-- What saving a store did: directories were made, the file was written and a message left. -/
theorem save_eq_ok {s : Store} {path : Path} {w w' : World} (hp : s.path = some path)
    (h : s.save w = (.ok (), w')) :
    ∃ fs, Keeps (· = w.files.place path.text) (fun _ => True) w.files fs ∧
      fs.read path.text = .ok (Utf8.encode (s.snapshot w.now.text).write) ∧
      w' = Run.logged { w with files := fs } .debug
        ("File write: " ++ (Path.ofText path.text).text) := by
  unfold save at h
  simp only [hp] at h
  replace h := Run.requirePath_bind_eq_ok h
  rw [Run.bind_of_ok (Run.get_apply w), Run.bind_of_ok (Run.files_apply w)] at h
  split at h
  · rw [Run.bind_of_error (Run.fail_apply ..)] at h
    cases h
  rw [Run.bind_of_ok (Run.files_apply w), Run.bind_of_ok (Run.setFiles_apply ..)] at h
  cases hd : (w.files.makeDirectories path.parent).2 with
  | error e =>
    rw [hd] at h
    cases h
  | ok names =>
  rw [hd] at h
  obtain ⟨fs, hw, rfl⟩ := Json.save_eq_ok (Run.tryCatch_fail_eq_ok h)
  have hm : Keeps (· = w.files.place path.text) (fun _ => True) w.files
      (w.files.makeDirectories path.parent).1 := FileSystem.makeDirectories_keeps path.parent
  exact ⟨fs, hm.trans (FileSystem.modify_keeps hw (hm.place _)), FileSystem.read_of_write hw, rfl⟩

theorem store_of_read {s : Store} {path : Path} {fs : FileSystem} {now : Text}
    (hn : (s.records.map (·.key)).Nodup) (hl : ∀ r ∈ s.records, r.Lasts)
    (h : fs.read path.text = .ok (Utf8.encode (s.snapshot now).write)) :
    fs.store path = .ok { path := some path, records := s.records } := by
  have hv : fs.value path.text = .ok (s.snapshot now) :=
    FileSystem.value_of_read (snapshot_storable now hl) (snapshot_depth now hl) h
  rw [FileSystem.store, FileSystem.valueOr, hv]
  exact ofSnapshot_snapshot path now hn

/-- What recording does: the record is put into the store and the store saved. The store has the
record also when saving failed. -/
theorem record_apply (s : Store) (key : Key) (time space : Json) (captured : Option Moment)
    (w : World) :
    s.record key time space captured w =
      let r : Record := ⟨key, time, space, (captured.getD w.now).text⟩
      match (s.put r).save w with
      | (.ok _, w₁) => (.ok (.ok r, s.put r), Run.logged w₁ .debug
          ("Recorded " ++ time.plain ++ "/" ++ space.plain ++ " for " ++ key.text))
      | (.error f, w₁) => (.ok (.error f, s.put r), w₁) := by
  unfold record
  simp only [Run.bind_of_ok (Run.get_apply w), Run.tryCatch_apply]
  rcases hs : (s.put ⟨key, time, space, (captured.getD w.now).text⟩).save w with ⟨result, w₁⟩
  cases result with
  | error f =>
    rw [Run.bind_of_error hs]
    rfl
  | ok u =>
    rw [Run.bind_of_ok hs, Run.bind_of_ok (Run.message_apply ..)]
    rfl

/-- What recording did: the record was put into the store, the store saved and a message left. -/
theorem record_eq_ok {s s' : Store} {key : Key} {time space : Json} {captured : Option Moment}
    {r : Record} {w w' : World}
    (h : s.record key time space captured w = (.ok (.ok r, s'), w')) :
    r = ⟨key, time, space, (captured.getD w.now).text⟩ ∧ s' = s.put r ∧
      ∃ w₁ t, s'.save w = (.ok (), w₁) ∧ w' = Run.logged w₁ .debug t := by
  rw [record_apply] at h
  rcases hs : (s.put ⟨key, time, space, (captured.getD w.now).text⟩).save w with ⟨result, w₁⟩
  simp only [hs] at h
  cases result with
  | error f => cases h
  | ok u =>
    cases h
    exact ⟨rfl, rfl, w₁, _, hs, rfl⟩

end Store

end CostLens
