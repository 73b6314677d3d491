import CostLens.Proofs.Run.Reading

/-! # Which settings are found

The settings come from the first usable file of a short list. A file that is missing, cannot be
opened or holds no JSON contributes nothing, so what is found is decided by what the files of the
list hold. Changing other files and making directories does not change it.
-/
namespace CostLens

open FileSystem (Places Keeps)

namespace FileSystem

/-- The value in the first usable file of a list. -/
def firstUsable (fs : FileSystem) : List Text → Except Failure Json
  | [] => .ok (.obj [])
  | path :: paths =>
    match fs.leadsTo (fun _ => true) path with
    | .error e => .error (.file e)
    | .ok false => fs.firstUsable paths
    | .ok true =>
      match fs.value path with
      | .ok v => .ok v
      | .error (.file _) => fs.firstUsable paths
      | .error (.json (.malformed ..)) => fs.firstUsable paths
      | .error f => .error f

/-- The value in a settings file. -/
def settings (fs : FileSystem) (path : Option Text) : Except Failure Json :=
  match path.filter fun t => !t.isEmpty with
  | none => fs.firstUsable (Settings.standardFiles fs)
  | some t =>
    match fs.leadsTo (fun _ => true) (Path.ofText t).text with
    | .error e => .error (.file e)
    | .ok false => .error (.settings (.fileNotFound (Path.ofText t).text))
    | .ok true => fs.firstUsable ((Path.ofText t).text :: Settings.standardFiles fs)

end FileSystem

theorem Settings.firstUsable_apply (paths : List Text) (w : World) :
    Settings.firstUsable paths w = (w.files.firstUsable paths, w) := by
  induction paths with
  | nil => rfl
  | cons path paths ih =>
    rw [Settings.firstUsable, FileSystem.firstUsable, Run.bind_apply, Run.leadsTo_apply]
    cases w.files.leadsTo (fun _ => true) path with
    | error e => rfl
    | ok found =>
      cases found with
      | false => exact ih
      | true =>
        simp only [mapError_ok, ↓reduceIte, Run.tryCatch_apply, Json.load_apply]
        cases w.files.value path with
        | ok v => rfl
        | error f =>
          cases f with
          | file e => exact ih
          | json e =>
            cases e with
            | malformed => exact ih
            | _ => rfl
          | _ => rfl

theorem Settings.loadFile_apply (path : Option Text) (w : World) :
    Settings.loadFile path w = (w.files.settings path, w) := by
  rw [Settings.loadFile, FileSystem.settings, Run.bind_of_ok (Run.files_apply w)]
  cases path.filter fun t => !t.isEmpty with
  | none => exact firstUsable_apply _ w
  | some t =>
    simp only [Run.bind_apply, Run.leadsTo_apply]
    cases w.files.leadsTo (fun _ => true) (Path.ofText t).text with
    | error e => rfl
    | ok found =>
      cases found with
      | false => rfl
      | true => exact firstUsable_apply _ w

namespace FileSystem

variable {W D : Places} {fs fs' : FileSystem}

/-- The value that a file holds, if it holds one. -/
def held? (fs : FileSystem) (path : Text) : Option Json := (fs.value path).toOption

theorem held?_of_value {path : Text} {v : Json} (h : fs.value path = .ok v) :
    fs.held? path = some v := by
  rw [held?, h]
  rfl

theorem held?_of_error {path : Text} {f : Failure} (h : fs.value path = .error f) :
    fs.held? path = none := by
  rw [held?, h]
  rfl

theorem held?_of_read_error {path : Text} {e : FileError} (h : fs.read path = .error e) :
    fs.held? path = none := by
  unfold held? value
  rw [h]
  split <;> rfl

theorem held?_of_leadsTo {path : Text} (h : fs.leadsTo (fun _ => true) path = .ok false) :
    fs.held? path = none := by
  have hr : ∃ e, fs.read path = .error e := by
    unfold leadsTo at h
    unfold read
    cases hl : fs.locate path with
    | error fault => exact ⟨_, rfl⟩
    | ok q =>
      cases he : fs.entry? q with
      | none =>
        simp only [he]
        exact ⟨_, rfl⟩
      | some e => simp [hl, he] at h
  obtain ⟨e, he⟩ := hr
  exact held?_of_read_error he

/-- What is found is what the first file holds that holds a value. -/
theorem firstUsable_eq_ok {paths : List Text} {v : Json} (h : fs.firstUsable paths = .ok v) :
    v = (paths.findSome? fs.held?).getD (.obj []) := by
  induction paths with
  | nil => exact (Except.ok.inj h).symm
  | cons path paths ih =>
    rw [firstUsable] at h
    rw [List.findSome?_cons]
    split at h
    · cases h
    · next hl =>
      rw [held?_of_leadsTo hl]
      exact ih h
    · split at h
      · next hv =>
        cases h
        rw [held?_of_value hv]
        rfl
      · next hv =>
        rw [held?_of_error hv]
        exact ih h
      · next hv =>
        rw [held?_of_error hv]
        exact ih h
      · cases h

/-- The directories on the way to a file are there if the file is. -/
def Reaches (fs : FileSystem) (path : Text) : Prop :=
  ∀ content, fs.entry? (fs.place path) = some (.file content) →
    ∃ q, fs.follow (if startsWith path "/" then [] else fs.current) (Path.splitSlashes path) =
      .ok q

theorem Keeps.held? (h : Keeps W D fs fs') {path : Text} (hw : ¬ W (fs.place path))
    (hr : fs.Reaches path) : fs'.held? path = fs.held? path := by
  cases hf : fs.read path with
  | ok bytes => simp only [FileSystem.held?, value, hf, h.read hw hf]
  | error e =>
    cases hf' : fs'.read path with
    | error e' => rw [held?_of_read_error hf, held?_of_read_error hf']
    | ok bytes =>
      obtain ⟨q, hq, he⟩ := read_eq_ok.1 hf'
      rw [place_of_locate hq, h.place] at he
      have hfile := h.of_file hw he
      -- the path can be followed in both, so the file was there to be read
      obtain ⟨q', hq'⟩ := hr bytes hfile
      have hl : fs.locate path = .ok q' := locatePieces_eq_ok.2 ⟨(locatePieces_eq_ok.1 hq).1, hq'⟩
      rw [read_eq_ok.2 ⟨q', hl, (place_of_locate hl).symm ▸ hfile⟩] at hf
      cases hf

theorem Keeps.reaches (h : Keeps W D fs fs') {path : Text} (hw : ¬ W (fs.place path))
    (hr : fs.Reaches path) : fs'.Reaches path := by
  intro content he
  rw [h.place] at he
  obtain ⟨q, hq⟩ := hr content (h.of_file hw he)
  rw [h.current]
  exact ⟨q, h.follow hq⟩

theorem reaches_of_leadsTo {path : Text} (h : fs.leadsTo (fun _ => true) path = .ok true) :
    fs.Reaches path := by
  intro content he
  unfold leadsTo at h
  cases hl : fs.locate path with
  | error fault => cases fault <;> simp [hl] at h
  | ok q => exact ⟨q, (locatePieces_eq_ok.1 hl).2⟩

/-- The files in which settings are looked for. -/
def settingsFiles (fs : FileSystem) (path : Option Text) : List Text :=
  ((path.filter fun t => !t.isEmpty).map fun t => (Path.ofText t).text).toList ++
    Settings.standardFiles fs

theorem Keeps.standardFiles (h : Keeps W D fs fs') :
    Settings.standardFiles fs' = Settings.standardFiles fs := by
  unfold Settings.standardFiles
  rw [h.current, h.home]

theorem settings_eq_ok {path : Option Text} {v : Json} (h : fs.settings path = .ok v) :
    v = ((fs.settingsFiles path).findSome? fs.held?).getD (.obj []) ∧
      ∀ t, path.filter (fun t => !t.isEmpty) = some t → fs.Reaches (Path.ofText t).text := by
  unfold settings at h
  unfold settingsFiles
  generalize path.filter (fun t => !t.isEmpty) = given at h ⊢
  cases given with
  | none => exact ⟨firstUsable_eq_ok h, fun t ht => nomatch ht⟩
  | some t =>
    simp only at h
    split at h
    · cases h
    · cases h
    · next hl =>
      refine ⟨firstUsable_eq_ok h, fun t' ht => ?_⟩
      cases ht
      exact reaches_of_leadsTo hl

theorem Keeps.settings (h : Keeps W D fs fs') {path : Option Text} {v v' : Json}
    (hw : ∀ t ∈ fs.settingsFiles path, ¬ W (fs.place t))
    (hr : ∀ t ∈ Settings.standardFiles fs, fs.Reaches t)
    (hv : fs.settings path = .ok v) (hv' : fs'.settings path = .ok v') : v' = v := by
  obtain ⟨he, hg⟩ := settings_eq_ok hv
  obtain ⟨he', -⟩ := settings_eq_ok hv'
  have hfiles : fs'.settingsFiles path = fs.settingsFiles path := by
    rw [settingsFiles, settingsFiles, h.standardFiles]
  have hsame : ∀ t ∈ fs.settingsFiles path, fs'.held? t = fs.held? t := by
    intro t ht
    refine h.held? (hw t ht) ?_
    rcases List.mem_append.1 ht with hm | hm
    · obtain ⟨t', ht', rfl⟩ := Option.map_eq_some_iff.1 (Option.mem_toList.1 hm)
      exact hg t' ht'
    · exact hr t hm
  have hfind : (fs.settingsFiles path).findSome? fs'.held? =
      (fs.settingsFiles path).findSome? fs.held? := by
    generalize fs.settingsFiles path = paths at hsame
    induction paths with
    | nil => rfl
    | cons t paths ih =>
      rw [List.findSome?_cons, List.findSome?_cons, hsame t (by simp),
        ih fun t' ht' => hsame t' (by simp [ht'])]
  rw [he', he, hfiles, hfind]

end FileSystem

end CostLens
