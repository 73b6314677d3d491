import CostLens.Document
import CostLens.Proofs.Run.Frame
import CostLens.Settings

/-! # What is read depends on the files alone

Each reading step of a run is a function of the files, and what it says about files is said here
of that function: reading the same places gives the same result.
-/
namespace CostLens

open FileSystem (Places Keeps)

namespace FileSystem

/-- A path with the home directory put in. -/
def expanded (fs : FileSystem) (p : Path) : Except Failure Path :=
  if (p.homeOwner?.getD []).contains '\x00' then .error .nullInPath
  else match fs.expandHome? p with
    | some q => .ok q
    | none => .error .noHome

/-- The identifier of the document at a path. -/
def uri (fs : FileSystem) (p : Path) : Except Failure Text :=
  match fs.expanded p with
  | .error f => .error f
  | .ok q =>
    if q.text.contains '\x00' then .error .nullInPath
    else .ok (documentUri (q.absoluteNames fs.current))

/-- The value in a file. -/
def value (fs : FileSystem) (path : Text) : Except Failure Json :=
  if path.contains '\x00' then .error .nullInPath
  else match fs.read path with
    | .error e => .error (.file e)
    | .ok bytes =>
      match Utf8.readText bytes with
      | .error f => .error (.encoding f)
      | .ok t =>
        match Json.read t with
        | .error e => .error (.json e)
        | .ok v => .ok v

/-- The document at a path. -/
def document (fs : FileSystem) (path : Text) : Except Failure Document :=
  match fs.expanded (Path.ofText path) with
  | .error f => .error f
  | .ok source =>
    match fs.leadsTo Entry.isFile source.text with
    | .error e => .error (.file e)
    | .ok false => .error (.document (.notFound source.text))
    | .ok true =>
      match fs.read source.text with
      | .error e => .error (.document (.unreadable source.text e))
      | .ok bytes =>
        match Utf8.readText bytes with
        | .error f => .error (.document (.undecodable source.text f))
        | .ok t =>
          match fs.uri source with
          | .error f => .error f
          | .ok u => .ok ⟨u, splitLines t⟩

theorem document_eq_ok {fs : FileSystem} {path : Text} {d : Document} :
    fs.document path = .ok d ↔ ∃ source bytes t u, fs.expanded (Path.ofText path) = .ok source ∧
      fs.read source.text = .ok bytes ∧ Utf8.readText bytes = .ok t ∧ fs.uri source = .ok u ∧
      d = ⟨u, splitLines t⟩ := by
  unfold document
  constructor
  · intro h
    split at h
    · cases h
    next source hs =>
    split at h
    · cases h
    · cases h
    split at h
    · cases h
    next bytes hb =>
    split at h
    · cases h
    next t ht =>
    split at h
    · cases h
    next u hu => exact ⟨source, bytes, t, u, hs, hb, ht, hu, (Except.ok.inj h).symm⟩
  · rintro ⟨source, bytes, t, u, hs, hb, ht, hu, rfl⟩
    have hl : fs.leadsTo Entry.isFile source.text = .ok true := by
      obtain ⟨q, hq, he⟩ := read_eq_ok.1 hb
      simp [leadsTo, hq, he, Entry.isFile]
    simp only [hs, hl, hb, ht, hu]

theorem expanded_of_none {fs : FileSystem} {p : Path} (h : p.homeOwner? = none) :
    fs.expanded p = .ok p := by
  simp [expanded, expandHome?, h]

theorem expanded_of_expanded {fs : FileSystem} {p q : Path} (h : fs.expanded p = .ok q) :
    fs.expanded q = .ok q := by
  cases hp : p.homeOwner? with
  | none =>
    obtain rfl : p = q := Except.ok.inj ((expanded_of_none hp).symm.trans h)
    exact h
  | some owner =>
    simp only [expanded, expandHome?, hp] at h
    split at h
    · cases h
    split at h
    · next r hr =>
      cases h
      obtain ⟨home, -, rfl⟩ := Option.map_eq_some_iff.1 hr
      exact expanded_of_none rfl
    · cases h

theorem uri_of_document {fs : FileSystem} {path : Text} {d : Document}
    (h : fs.document path = .ok d) : fs.uri (Path.ofText path) = .ok d.uri := by
  obtain ⟨source, bytes, t, u, hs, -, -, hu, rfl⟩ := document_eq_ok.1 h
  have hsame : fs.uri (Path.ofText path) = fs.uri source := by
    unfold uri
    rw [hs, expanded_of_expanded hs]
  exact hsame.trans hu

section Keeps
variable {W D : Places} {fs fs' : FileSystem}

theorem Keeps.expanded (h : Keeps W D fs fs') (p : Path) : fs'.expanded p = fs.expanded p := by
  unfold FileSystem.expanded expandHome? homeOf?
  rw [h.home, h.accounts]

theorem Keeps.uri (h : Keeps W D fs fs') (p : Path) : fs'.uri p = fs.uri p := by
  unfold FileSystem.uri
  rw [h.expanded, h.current]

theorem Keeps.document (h : Keeps W D fs fs') {path : Text} {d : Document}
    (hw : ∀ source, fs.expanded (Path.ofText path) = .ok source → ¬ W (fs.place source.text))
    (hd : fs.document path = .ok d) : fs'.document path = .ok d := by
  obtain ⟨source, bytes, t, u, hs, hb, ht, hu, rfl⟩ := document_eq_ok.1 hd
  exact document_eq_ok.2 ⟨source, bytes, t, u, (h.expanded _).trans hs, h.read (hw source hs) hb,
    ht, (h.uri _).trans hu, rfl⟩

end Keeps

end FileSystem

namespace Run

variable {α : Type}

theorem requirePath_apply (t : Text) (w : World) :
    requirePath t w = (if t.contains '\x00' then .error .nullInPath else .ok (), w) := by
  unfold requirePath
  split <;> rfl

theorem requirePath_bind_eq_ok {t : Text} {f : Unit → Run α} {w w' : World} {a : α}
    (h : (requirePath t >>= f) w = (.ok a, w')) : f () w = (.ok a, w') := by
  rw [bind_apply, requirePath_apply] at h
  cases hc : t.contains '\x00' with
  | true =>
    rw [hc] at h
    cases h
  | false =>
    rw [hc] at h
    exact h

theorem leadsTo_apply (kind : Entry → Bool) (path : Text) (w : World) :
    leadsTo kind path w = ((w.files.leadsTo kind path).mapError .file, w) := by
  rw [leadsTo, bind_of_ok (files_apply w)]
  cases w.files.leadsTo kind path <;> rfl

theorem expandHome_apply (p : Path) (w : World) : expandHome p w = (w.files.expanded p, w) := by
  rw [expandHome, FileSystem.expanded, bind_apply, requirePath_apply]
  cases (p.homeOwner?.getD []).contains '\x00' with
  | true => rfl
  | false =>
    simp only [Bool.false_eq_true, ↓reduceIte, bind_of_ok (files_apply w)]
    cases w.files.expandHome? p <;> rfl

theorem uriOf_apply (p : Path) (w : World) : uriOf p w = (w.files.uri p, w) := by
  rw [uriOf, FileSystem.uri, bind_apply, expandHome_apply]
  cases w.files.expanded p with
  | error f => rfl
  | ok q =>
    simp only [bind_apply, requirePath_apply]
    cases q.text.contains '\x00' <;> rfl

end Run

theorem Json.load_apply (path : Text) (w : World) : Json.load path w = (w.files.value path, w) := by
  rw [Json.load, FileSystem.value, Run.bind_apply, Run.requirePath_apply]
  cases path.contains '\x00' with
  | true => rfl
  | false =>
    simp only [Bool.false_eq_true, ↓reduceIte, Run.bind_of_ok (Run.files_apply w)]
    cases w.files.read path with
    | error e => rfl
    | ok bytes =>
      simp only
      cases Utf8.readText bytes with
      | error f => rfl
      | ok t =>
        simp only
        cases Json.read t <;> rfl

theorem Document.load_apply (path : Text) (w : World) :
    (Document.load path w).1 = w.files.document path ∧
      World.Remarked w (Document.load path w).2 := by
  unfold Document.load FileSystem.document
  simp only [Run.bind_apply, Run.expandHome_apply]
  cases w.files.expanded (Path.ofText path) with
  | error f => exact ⟨rfl, .refl w⟩
  | ok source =>
  simp only [Run.leadsTo_apply]
  cases w.files.leadsTo Entry.isFile source.text with
  | error e => exact ⟨rfl, .refl w⟩
  | ok found =>
  cases found with
  | false => exact ⟨rfl, .refl w⟩
  | true =>
  simp only [mapError_ok, Bool.not_true, Bool.false_eq_true, ↓reduceIte, Run.bind_apply,
    Run.files_apply]
  cases w.files.read source.text with
  | error e => exact ⟨rfl, .refl w⟩
  | ok bytes =>
  simp only
  cases Utf8.readText bytes with
  | error f => exact ⟨rfl, .refl w⟩
  | ok t =>
  simp only [Run.bind_apply, Run.message_apply, Run.uriOf_apply]
  have hkeeps : w.Framed (fun _ => True) (fun _ => False)
      (Run.logged w .debug ("File read: " ++ source.text)) := logged_framed (fun _ _ _ => trivial) ..
  rw [hkeeps.files.uri]
  cases w.files.uri source with
  | error f => exact ⟨rfl, .message _ _ (.refl w)⟩
  | ok u => exact ⟨rfl, .message _ _ (.refl w)⟩

end CostLens
