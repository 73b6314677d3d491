import CostLens.Proofs.Store.Overriding

/-! # Sessions with a store

A session opens the store at a path, records verdicts, and opens it again at any point. Whatever
the order of these steps, the store answers as its history demands, and so does the one that is
read from the file: the history is what the file held at first and then what was recorded.
-/
namespace CostLens

open FileSystem (Keeps)

/-- The histories, stores and worlds that a session with the store at a path can reach. The log may
be kept in a file, but not in the file of the store. -/
inductive Session (path : Path) : History → Store → World → Prop
  | opened {w w' : World} {s : Store} (labels : ∀ r ∈ w.files.recorded path, r.HasTextLabels)
      (apart : w.LogsApart path.text) (done : Store.load path w = (.ok s, w')) :
      Session path (w.files.recorded path) s w'
  | recorded {h : History} {w w' : World} {s s' : Store} {key : Key} {time space : Text}
      {captured : Option Moment} {r : Record} (before : Session path h s w)
      (short : Json.IsShort key.line)
      (done : s.record key (.str time) (.str space) captured w = (.ok (.ok r, s'), w')) :
      Session path (h ++ [⟨key, .str time, .str space, (captured.getD w.now).text⟩]) s' w'
  | reopened {h : History} {w w' : World} {s s' : Store} (before : Session path h s w)
      (done : Store.load path w = (.ok s', w')) : Session path h s' w'
  | elsewhere {h : History} {w w' : World} {s : Store} (before : Session path h s w)
      (files : w'.files = w.files) (apart : w'.LogsApart path.text) : Session path h s w'

/-- The file holds the store, and the store the entries of a history whose records last. -/
structure Kept (path : Path) (h : History) (s : Store) (w : World) : Prop where
  file : w.files.store path = .ok s
  records : s.records = h.entries
  lasts : ∀ r ∈ h, r.Lasts
  apart : w.LogsApart path.text

/-- A store at a path that holds the entries of a history whose records last, whatever its file
holds. -/
structure Remembers (path : Path) (h : History) (s : Store) : Prop where
  path_eq : s.path = some path
  records : s.records = h.entries
  lasts : ∀ r ∈ h, r.Lasts

namespace Kept

variable {path : Path} {h : History} {s s' : Store} {w w' : World}

theorem store_eq_of_read {fs fs' : FileSystem} (hr : fs'.read path.text = fs.read path.text) :
    fs'.store path = fs.store path := by
  unfold FileSystem.store FileSystem.valueOr FileSystem.value
  rw [hr]

theorem logged (hk : Kept path h s w) (level : Level) (t : Text) :
    Kept path h s (Run.logged w level t) := by
  obtain ⟨ho, ha⟩ := logged_apart hk.apart level t
  have hr : (Run.logged w level t).files.read path.text = w.files.read path.text :=
    ho.read fun hne => hne rfl
  exact ⟨(store_eq_of_read hr).trans hk.file, hk.records, hk.lasts, ha⟩

theorem path_eq (hk : Kept path h s w) : s.path = some path := by
  rw [(FileSystem.store_eq_ok hk.file).1]

theorem opened (labels : ∀ r ∈ w.files.recorded path, r.HasTextLabels)
    (apart : w.LogsApart path.text) (done : Store.load path w = (.ok s, w')) :
    Kept path (w.files.recorded path) s w' := by
  rw [Store.load_apply] at done
  cases hs : w.files.store path with
  | error f =>
    rw [hs] at done
    cases done
  | ok s₀ =>
    rw [hs] at done
    cases done
    obtain ⟨he, hl⟩ := FileSystem.store_eq_ok hs
    have hk : Kept path (w.files.recorded path) s w :=
      ⟨hs, by rw [he], fun r hr => ⟨(labels r hr).1, (labels r hr).2, hl r hr⟩, apart⟩
    exact hk.logged ..

theorem load (hk : Kept path h s w) :
    ∃ w', Store.load path w = (.ok s, w') ∧ Kept path h s w' := by
  refine ⟨_, ?_, hk.logged .debug ("Loaded " ++ natText s.size ++ " records from " ++ path.text)⟩
  rw [Store.load_apply, hk.file]

theorem apart_of_keeps {fs : FileSystem} (hk : w.LogsApart path.text)
    (hf : Keeps (· = w.files.place path.text) (fun _ => True) w.files fs) :
    World.LogsApart path.text { w with files := fs } := by
  intro level names hc
  obtain ⟨⟨content, he⟩, hne⟩ := hk level names hc
  exact ⟨⟨content, hf.file hne he⟩, (hf.place _).symm ▸ hne⟩

theorem remembers (hk : Kept path h s w) : Remembers path h s :=
  ⟨hk.path_eq, hk.records, hk.lasts⟩

end Kept

namespace Remembers

variable {path : Path} {h : History} {s s' : Store} {w w' : World}

/-- A record that lasts put into the store and saved. What the file held does not matter. -/
theorem saved {r : Record} (hm : Remembers path h s) (apart : w.LogsApart path.text) (hl : r.Lasts)
    (done : (s.put r).save w = (.ok (), w')) : Kept path (h ++ [r]) (s.put r) w' := by
  have hpath : (s.put r).path = some path := hm.path_eq
  have hrec : (s.put r).records = History.entries (h ++ [r]) := by
    rw [Store.put, hm.records, Store.insert_entries]
  have hlast : ∀ r' ∈ h ++ [r], r'.Lasts := by
    intro r' hr'
    rcases List.mem_append.1 hr' with hm' | hm'
    · exact hm.lasts r' hm'
    · exact List.mem_singleton.1 hm' ▸ hl
  have hlasts : ∀ r' ∈ (s.put r).records, r'.Lasts := by
    intro r' hr'
    rw [hrec] at hr'
    exact hlast r' (History.mem_of_mem_entries hr')
  have hn : ((s.put r).records.map (·.key)).Nodup := by
    rw [hrec, History.map_key_entries]
    exact History.keys_nodup _
  obtain ⟨fs, hf, hread, rfl⟩ := Store.save_eq_ok hpath done
  have hfile : fs.store path = .ok (s.put r) := by
    rw [Store.store_of_read hn hlasts hread, ← hpath]
  have hkept : Kept path (h ++ [r]) (s.put r) { w with files := fs } :=
    ⟨hfile, hrec, hlast, Kept.apart_of_keeps apart hf⟩
  exact hkept.logged ..

theorem recorded {key : Key} {time space : Text} {captured : Option Moment} {r : Record}
    (hm : Remembers path h s) (apart : w.LogsApart path.text) (short : Json.IsShort key.line)
    (done : s.record key (.str time) (.str space) captured w = (.ok (.ok r, s'), w')) :
    r = ⟨key, .str time, .str space, (captured.getD w.now).text⟩ ∧ Kept path (h ++ [r]) s' w' := by
  obtain ⟨hr, hs', w₁, t, hs, hw⟩ := Store.record_eq_ok done
  subst hs'
  have hl : r.Lasts := by
    rw [hr]
    exact ⟨⟨time, rfl⟩, ⟨space, rfl⟩, short⟩
  rw [hw]
  exact ⟨hr, (hm.saved apart hl hs).logged ..⟩

end Remembers

theorem Session.kept {path : Path} {h : History} {s : Store} {w : World}
    (hs : Session path h s w) : Kept path h s w := by
  induction hs with
  | opened labels apart done => exact Kept.opened labels apart done
  | recorded _ short done ih =>
    obtain ⟨hr, hk⟩ := ih.remembers.recorded ih.apart short done
    exact hr ▸ hk
  | reopened _ done ih =>
    obtain ⟨w'', hl, hk⟩ := ih.load
    rw [hl] at done
    cases done
    exact hk
  | elsewhere _ files apart ih => exact ⟨files ▸ ih.file, ih.records, ih.lasts, apart⟩

/-- At every point of a session the store answers as its history demands, and opening it again
succeeds and changes no answer. -/
theorem Session.answers_as_history {path : Path} {h : History} {s : Store} {w : World}
    (hs : Session path h s w) :
    s.Answers h ∧ ∃ s' w', Store.load path w = (.ok s', w') ∧ s'.Answers h := by
  have hk := hs.kept
  have ha := Store.answers_of_records hk.records
  obtain ⟨w', hl, hk'⟩ := hk.load
  exact ⟨ha, s, w', hl, ha⟩

namespace Session

/-- A world with a store that was written by hand: a line in quotes, no labels, a number for the
time. -/
def startWorld : World where
  files :=
    { entries := [(.ofNames ["s.json"], .file (Utf8.encode
        ("\x7b\"records\": [\x7b\"document\": \"d\", \"function\": \"f\", \"start_line\": \"7\", "
          ++ "\"timestamp\": 1\x7d]\x7d")))]
      current := []
      home := [] }
  now := { date := ⟨2024, 5, 1⟩ }

def startPath : Path := ⟨1, ["s.json"]⟩

def startHistory : History := [⟨⟨"d", "f", 7⟩, .str "O(1)", .str "O(1)", "1"⟩]

/-- A key with quotes, a carriage return, a line separator and an emoji. -/
def oddKey : Key := ⟨"\"d\"\r\u2028", "🔍", -7⟩

def oddRecord : Record := ⟨oddKey, .str "O(n)", .str "O(1)", startWorld.now.text⟩

/-- A verdict recorded in a store from a file, and the store opened again. -/
theorem answers_as_history_reopened : ∃ s w, Session startPath (startHistory ++ [oddRecord]) s w ∧
    s.Answers (startHistory ++ [oddRecord]) := by
  let s₁ : Store := { path := some startPath, records := startHistory }
  let w₁ := (Store.load startPath startWorld).2
  let recording := s₁.record oddKey (.str "O(n)") (.str "O(1)") (some startWorld.now)
  have hfile : startWorld.files.recorded startPath = startHistory := by decide +kernel
  have hlabels : ∀ r ∈ startWorld.files.recorded startPath, r.HasTextLabels := by
    rw [hfile]
    exact List.forall_mem_singleton.2 ⟨⟨_, rfl⟩, _, rfl⟩
  have hopen : (Store.load startPath startWorld).1.toOption = some s₁ := by decide +kernel
  have hrecord : (recording w₁).1.toOption.map (fun p => (p.1.toOption, p.2)) =
      some (some oddRecord, s₁.put oddRecord) := by decide +kernel
  have h₁ := Session.opened hlabels (fun _ _ h => nomatch h) (Run.eq_ok_of_toOption hopen)
  rw [hfile] at h₁
  obtain ⟨⟨r, s₂⟩, hp, he⟩ := Option.map_eq_some_iff.1 hrecord
  cases r with
  | error f => cases he
  | ok r =>
    have h₂ := Session.recorded h₁ (by decide) (Run.eq_ok_of_toOption hp)
    obtain ⟨s₃, w₃, h₃, _⟩ := h₂.answers_as_history.2
    have h₄ := Session.reopened h₂ h₃
    exact ⟨s₃, w₃, h₄, h₄.answers_as_history.1⟩

end Session

end CostLens
