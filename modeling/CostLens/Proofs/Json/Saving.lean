import CostLens.Json.File
import CostLens.Proofs.Json.RoundTrip
import CostLens.Proofs.Run.Reading

/-! # Values saved and loaded

A value that is saved to a path that can be written is loaded from it again, and saving what was
loaded leaves the bytes of the file. Saving leaves a message, so this is said of a log that is not
kept in the very file.
-/
namespace CostLens

open FileSystem (Places Keeps)

namespace FileSystem

/-- A path that leads to a file or to a name that is free in a directory. -/
def Writable (fs : FileSystem) (path : Text) : Prop :=
  ∃ names, fs.locateFile path = .ok names ∧ fs.entry? names ≠ some .directory

section Writable
variable {W : Places} {fs fs' : FileSystem} {path : Text}

theorem Writable.exists_write (h : fs.Writable path) (content : Bytes) :
    ∃ fs', fs.write path content = .ok fs' := by
  obtain ⟨names, hl, hd⟩ := h
  unfold write modify
  simp only [hl]
  cases he : fs.entry? names with
  | none => exact ⟨_, rfl⟩
  | some e =>
    cases e with
    | directory => exact absurd he hd
    | file old => exact ⟨_, rfl⟩

theorem Keeps.locateFile (h : Keeps W (fun _ => False) fs fs') {names : List Text}
    (hl : fs.locateFile path = .ok names) : fs'.locateFile path = .ok names := by
  have hloc := h.locate (locate_of_locateFile hl)
  unfold FileSystem.locateFile at hl ⊢
  split at hl
  · exact hloc
  · next outer _ =>
    cases hp : fs.locatePieces path (outer ++ [[]]) <;> rw [hp] at hl <;> cases hl

/-- Writing files takes no place away: what can be written stays so. -/
theorem Keeps.writable (h : Keeps W (fun _ => False) fs fs') (hw : fs.Writable path) :
    fs'.Writable path := by
  obtain ⟨names, hl, hd⟩ := hw
  refine ⟨names, h.locateFile hl, ?_⟩
  rcases h.entry names with he | ⟨_, _, content, hc⟩ | ⟨hm, _⟩
  · rw [he]
    exact hd
  · rw [hc]
    simp
  · exact hm.elim

end Writable

theorem value_of_read {fs : FileSystem} {path : Text} {v : Json} (hv : v.Storable)
    (hd : v.depth ≤ Json.maxDepth) (h : fs.read path = .ok (Utf8.encode v.write)) :
    fs.value path = .ok v := by
  have hc := not_contains_null_of_read h
  obtain ⟨t, ht, hr⟩ := Json.read_encode_write hv hd
  unfold value
  simp only [hc, h, ht, hr, Bool.false_eq_true, ↓reduceIte]

end FileSystem

namespace Json

theorem save_apply {path : Text} {v : Json} {w : World} {fs : FileSystem}
    (h : w.files.write path (Utf8.encode v.write) = .ok fs) :
    save path v w = (.ok (), Run.logged { w with files := fs } .debug
      ("File write: " ++ (Path.ofText path).text)) := by
  have hc := FileSystem.not_contains_null_of_read (FileSystem.read_of_write h)
  have hpath : Run.requirePath path w = (.ok (), w) := by
    rw [Run.requirePath_apply, hc]
    rfl
  rw [save, Run.bind_of_ok hpath, Run.bind_of_ok (Run.files_apply w), h]
  rfl

theorem save_eq_ok {path : Text} {v : Json} {w w' : World}
    (h : save path v w = (.ok (), w')) :
    ∃ fs, w.files.write path (Utf8.encode v.write) = .ok fs ∧
      w' = Run.logged { w with files := fs } .debug ("File write: " ++ (Path.ofText path).text) := by
  replace h := Run.requirePath_bind_eq_ok h
  rw [Run.bind_of_ok (Run.files_apply w)] at h
  cases hw : w.files.write path (Utf8.encode v.write) with
  | ok fs =>
    refine ⟨fs, rfl, ?_⟩
    simp only [hw, Run.bind_of_ok (Run.setFiles_apply fs w), Run.message_apply] at h
    exact (congrArg Prod.snd h).symm
  | error e =>
    simp only [hw, Run.bind_of_ok (Run.message_apply ..)] at h
    cases h

theorem loadOr_of_value {path : Text} {v : Json} {w : World} (h : w.files.value path = .ok v)
    (default : Json) (strict : Bool) : loadOr path default strict w = (.ok v, w) := by
  rw [loadOr, Run.tryCatch_apply, load_apply, h]

/-- A path that can be written, where the log is not kept. -/
structure Saveable (path : Text) (w : World) : Prop where
  writable : w.files.Writable path
  apart : w.LogsTo (· ≠ w.files.place path)

/-- Saving to such a path succeeds, whatever the value, and so it does afterwards. -/
theorem Saveable.save {path : Text} {w : World} (h : Saveable path w) (v : Json) :
    ∃ w', Json.save path v w = (.ok (), w') ∧ w'.files.read path = .ok (Utf8.encode v.write) ∧
      Saveable path w' := by
  obtain ⟨fs, hw⟩ := h.writable.exists_write (Utf8.encode v.write)
  have hwrite : Keeps (fun _ => True) (fun _ => False) w.files fs :=
    FileSystem.modify_keeps hw trivial
  have hplace := hwrite.place path
  have hapart : World.LogsTo (· ≠ fs.place path) { w with files := fs } := by
    rw [hplace]
    exact h.apart
  have hframed : World.Framed (· ≠ fs.place path) (fun _ => False) { w with files := fs }
    (Run.logged { w with files := fs } .debug ("File write: " ++ (Path.ofText path).text)) :=
      logged_framed hapart ..
  refine ⟨_, save_apply hw, ?_, ?_, ?_⟩
  · exact hframed.files.read (fun hne => hne rfl) (FileSystem.read_of_write hw)
  · exact hframed.files.writable (hwrite.writable h.writable)
  · rw [hframed.files.place]
    exact hframed.logs

/-- A value without doubles is loaded as it was saved, from the same world, so no message is left;
and saving what was loaded leaves the bytes as they are. -/
theorem load_after_save {path : Text} {w : World} (hw : Saveable path w) {v : Json}
    (hv : Storable v) (hd : depth v ≤ maxDepth) :
    ∃ w₁ bytes, save path v w = (.ok (), w₁) ∧ w₁.files.read path = .ok bytes ∧
      ∀ default strict, loadOr path default strict w₁ = (.ok v, w₁) ∧
        ∃ w₂, (loadOr path default strict >>= save path) w₁ = (.ok (), w₂) ∧
          w₂.files.read path = .ok bytes := by
  obtain ⟨w₁, hsave, hread, hagain⟩ := hw.save v
  refine ⟨w₁, _, hsave, hread, ?_⟩
  intro default strict
  have hload := loadOr_of_value (FileSystem.value_of_read hv hd hread) default strict
  obtain ⟨w₂, hsave', hread', -⟩ := hagain.save v
  refine ⟨hload, w₂, ?_, hread'⟩
  rw [Run.bind_of_ok hload]
  exact hsave'

/-- A log file and room for another file. -/
def logWorld : World where
  files := { entries := [(.ofNames ["log.txt"], .file [])], current := [], home := [] }
  now := { date := ⟨2024, 5, 1⟩ }
  log := { channel := .console .warning (some ["log.txt"]) }

/-- Keys and strings with line ends, quotes, controls and an emoji, and empty containers. -/
def oddValue : Json :=
  .obj [("a\r\n\"", .arr [.int (-7), .null, .str "\u2028🔍\x01\\", .obj [], .arr [.bool true]]),
    ("", .int 0)]

theorem load_after_save_odd : Saveable "data.json" logWorld ∧ Storable oddValue ∧
    depth oddValue ≤ maxDepth ∧
    ∃ w₁ bytes, save "data.json" oddValue logWorld = (.ok (), w₁) ∧
      w₁.files.read "data.json" = .ok bytes ∧
      ∀ default strict, loadOr "data.json" default strict w₁ = (.ok oddValue, w₁) ∧
        ∃ w₂, (loadOr "data.json" default strict >>= save "data.json") w₁ = (.ok (), w₂) ∧
          w₂.files.read "data.json" = .ok bytes := by
  have hw : Saveable "data.json" logWorld := by
    constructor
    · exact ⟨["data.json"], rfl, by decide⟩
    · intro level names h
      cases h
      decide
  have hv : Storable oddValue := by
    simp only [oddValue, Storable, StorableMembers, StorableItems]
    decide
  have hd : depth oddValue ≤ maxDepth := by decide
  exact ⟨hw, hv, hd, load_after_save hw hv hd⟩

end Json

end CostLens
