import CostLens.Proofs.Command.Settings

/-! # The search for settings

The files of the search are looked at one after the other. One that is missing, is a directory or
holds no JSON is passed over, the first one that holds a value ends the search with it, and a file
that cannot be decoded or goes beyond what can be read breaks it off.
-/
namespace CostLens

namespace FileSystem

variable {fs : FileSystem} {path : Text} {v : Json} {f : Failure}

/-! ## One file -/

theorem held?_eq_some_iff : fs.held? path = some v ↔ ∃ bytes t,
    fs.read path = .ok bytes ∧ Utf8.readText bytes = .ok t ∧ Json.read t = .ok v := by
  unfold held? value
  cases hr : fs.read path with
  | error e => split <;> simp [Except.toOption]
  | ok bytes =>
    rw [not_contains_null_of_read hr]
    cases ht : Utf8.readText bytes with
    | error fault => simp [ht, Except.toOption]
    | ok t => cases hv : Json.read t <;> simp [ht, hv, Except.toOption]

/-- Why the search breaks off at a file. -/
inductive Stops (fs : FileSystem) (path : Text) : Failure → Prop
  | tooLong (place : fs.locate path = .error .nameTooLong) :
    Stops fs path (.file ⟨.nameTooLong, path⟩)
  | undecodable {bytes : Bytes} {fault : Utf8.Fault} (content : fs.read path = .ok bytes)
    (text : Utf8.readText bytes = .error fault) : Stops fs path (.encoding fault)
  | tooManyDigits {bytes : Bytes} {t : Text} {count : Option Nat}
    (content : fs.read path = .ok bytes) (text : Utf8.readText bytes = .ok t)
    (stopped : Json.read t = .error (.tooManyDigits count)) :
    Stops fs path (.json (.tooManyDigits count))
  | tooDeep {bytes : Bytes} {t : Text} {container : Option Json.Container}
    (content : fs.read path = .ok bytes) (text : Utf8.readText bytes = .ok t)
    (stopped : Json.read t = .error (.tooDeep container)) :
    Stops fs path (.json (.tooDeep container))

theorem Stops.ne_settings (h : Stops fs path f) (e : SettingsError) : f ≠ .settings e := by
  cases h <;> nofun

/-- How the search ends at a file, if it does. -/
def outcome? (fs : FileSystem) (path : Text) : Option (Except Failure Json) :=
  match fs.leadsTo (fun _ => true) path with
  | .error e => some (.error (.file e))
  | .ok false => none
  | .ok true =>
    match fs.value path with
    | .ok v => some (.ok v)
    | .error (.file _) => none
    | .error (.json (.malformed ..)) => none
    | .error f => some (.error f)

theorem leadsTo_of_read {bytes : Bytes} (h : fs.read path = .ok bytes) :
    fs.leadsTo (fun _ => true) path = .ok true := by
  obtain ⟨q, hq, he⟩ := read_eq_ok.1 h
  simp [leadsTo, hq, he]

theorem outcome?_of_read {bytes : Bytes} (h : fs.read path = .ok bytes) :
    fs.outcome? path = match Utf8.readText bytes with
      | .error fault => some (.error (.encoding fault))
      | .ok t =>
        match Json.read t with
        | .ok v => some (.ok v)
        | .error (.malformed ..) => none
        | .error e => some (.error (.json e)) := by
  rw [outcome?, leadsTo_of_read h]
  simp only [value, not_contains_null_of_read h, h, Bool.false_eq_true, ↓reduceIte]
  cases Utf8.readText bytes with
  | error fault => rfl
  | ok t =>
    simp only
    cases Json.read t with
    | ok v => rfl
    | error e => cases e <;> rfl

theorem outcome?_of_tooLong (h : fs.locate path = .error .nameTooLong) :
    fs.outcome? path = some (.error (.file ⟨.nameTooLong, path⟩)) := by
  simp only [outcome?, leadsTo, h]

theorem outcome?_of_read_error {e : FileError} (h : fs.read path = .error e)
    (hl : fs.locate path ≠ .error .nameTooLong) : fs.outcome? path = none := by
  unfold outcome?
  split
  · next hk =>
    unfold leadsTo at hk
    split at hk
    · cases hk
    · next hlong => exact absurd hlong hl
    · cases hk
  · rfl
  · next hk =>
    -- a path with a null character leads nowhere, so this one has none
    have hc : path.contains '\x00' = false := by
      unfold leadsTo at hk
      split at hk
      · next hq => exact (Bool.or_eq_false_iff.1 (locatePieces_eq_ok.1 hq).1.1).2
      · cases hk
      · cases hk
    simp only [value, hc, h, Bool.false_eq_true, ↓reduceIte]

theorem outcome?_of_stops (h : Stops fs path f) : fs.outcome? path = some (.error f) := by
  cases h with
  | tooLong place => exact outcome?_of_tooLong place
  | undecodable content text => simp only [outcome?_of_read content, text]
  | tooManyDigits content text stopped => simp only [outcome?_of_read content, text, stopped]
  | tooDeep content text stopped => simp only [outcome?_of_read content, text, stopped]

theorem outcome?_of_held (h : fs.held? path = some v) : fs.outcome? path = some (.ok v) := by
  obtain ⟨bytes, t, hr, ht, hv⟩ := held?_eq_some_iff.1 h
  simp only [outcome?_of_read hr, ht, hv]

theorem held_or_stops {o : Except Failure Json} (h : fs.outcome? path = some o) :
    (∃ v, o = .ok v ∧ fs.held? path = some v) ∨ ∃ f, o = .error f ∧ Stops fs path f := by
  cases hr : fs.read path with
  | error e =>
    by_cases hl : fs.locate path = .error .nameTooLong
    · rw [outcome?_of_tooLong hl] at h
      cases h
      exact .inr ⟨_, rfl, .tooLong hl⟩
    · rw [outcome?_of_read_error hr hl] at h
      cases h
  | ok bytes =>
    rw [outcome?_of_read hr] at h
    cases ht : Utf8.readText bytes with
    | error fault =>
      simp only [ht] at h
      cases h
      exact .inr ⟨_, rfl, .undecodable hr ht⟩
    | ok t =>
      simp only [ht] at h
      cases hv : Json.read t with
      | ok v =>
        simp only [hv] at h
        cases h
        exact .inl ⟨v, rfl, held?_eq_some_iff.2 ⟨bytes, t, hr, ht, hv⟩⟩
      | error e =>
        simp only [hv] at h
        cases e with
        | malformed => cases h
        | tooManyDigits count =>
          cases h
          exact .inr ⟨_, rfl, .tooManyDigits hr ht hv⟩
        | tooDeep container =>
          cases h
          exact .inr ⟨_, rfl, .tooDeep hr ht hv⟩

theorem outcome?_eq_error_iff : fs.outcome? path = some (.error f) ↔ Stops fs path f := by
  refine ⟨fun h => ?_, outcome?_of_stops⟩
  obtain ⟨v, hv, -⟩ | ⟨g, hg, hstops⟩ := held_or_stops h
  · cases hv
  · cases hg
    exact hstops

theorem outcome?_eq_ok_iff : fs.outcome? path = some (.ok v) ↔ fs.held? path = some v := by
  refine ⟨fun h => ?_, outcome?_of_held⟩
  obtain ⟨u, hu, hheld⟩ | ⟨f, hf, -⟩ := held_or_stops h
  · cases hu
    exact hheld
  · cases hf

theorem outcome?_eq_none_iff :
    fs.outcome? path = none ↔ fs.held? path = none ∧ ∀ f, ¬ Stops fs path f := by
  simp only [← outcome?_eq_error_iff, Option.eq_none_iff_forall_ne_some (o := fs.held? path), ne_eq,
    ← outcome?_eq_ok_iff]
  cases fs.outcome? path with
  | none => simp
  | some o => cases o <;> simp

/-! ## A list of files -/

theorem firstUsable_eq (paths : List Text) :
    fs.firstUsable paths = (paths.findSome? fs.outcome?).getD (.ok (.obj [])) := by
  induction paths with
  | nil => rfl
  | cons path paths ih =>
    rw [firstUsable, List.findSome?_cons, ih, outcome?]
    cases fs.leadsTo (fun _ => true) path with
    | error e => rfl
    | ok found =>
      cases found with
      | false => rfl
      | true =>
        simp only
        cases fs.value path with
        | ok v => rfl
        | error f =>
          cases f with
          | json e => cases e <;> rfl
          | _ => rfl

/-- A search that breaks off at a file before which there is no other that ends it. -/
def BreaksOff (fs : FileSystem) (paths : List Text) (f : Failure) : Prop :=
  ∃ before path after, paths = before ++ path :: after ∧ Stops fs path f ∧
    ∀ p ∈ before, fs.held? p = none ∧ ∀ g, ¬ Stops fs p g

theorem firstUsable_eq_error_iff {paths : List Text} :
    fs.firstUsable paths = .error f ↔ BreaksOff fs paths f := by
  rw [firstUsable_eq]
  simp only [BreaksOff, ← outcome?_eq_none_iff]
  simp only [← outcome?_eq_error_iff, ← List.findSome?_eq_some_iff]
  cases paths.findSome? fs.outcome? <;> simp

theorem firstUsable_eq_ok_iff {paths : List Text} :
    fs.firstUsable paths = .ok ((paths.findSome? fs.held?).getD (.obj [])) ↔
      ∀ f, ¬ BreaksOff fs paths f := by
  simp only [← firstUsable_eq_error_iff]
  cases h : fs.firstUsable paths with
  | ok v => simp [firstUsable_eq_ok h]
  | error f => simp

/-! ## The search -/

/-- A path that is given although nothing is there, and how it is shown. -/
def Missing (fs : FileSystem) (path : Option Text) (shown : Text) : Prop :=
  ∃ t, path = some t ∧ t ≠ [] ∧ shown = (Path.ofText t).text ∧
    fs.leadsTo (fun _ => true) shown = .ok false

theorem filter_given_eq_some {path : Option Text} {t : Text} :
    path.filter (fun t => !t.isEmpty) = some t ↔ path = some t ∧ t ≠ [] := by
  simp [Option.filter_eq_some_iff]

theorem settings_of_missing {path : Option Text} {shown : Text} (h : Missing fs path shown) :
    fs.settings path = .error (.settings (.fileNotFound shown)) := by
  obtain ⟨t, hp, ht, rfl, hl⟩ := h
  rw [settings, filter_given_eq_some.2 ⟨hp, ht⟩]
  simp only [hl]

theorem settings_of_not_missing {path : Option Text} (h : ∀ shown, ¬ Missing fs path shown) :
    fs.settings path = fs.firstUsable (fs.settingsFiles path) := by
  unfold settings settingsFiles
  cases hp : path.filter fun t => !t.isEmpty with
  | none => rfl
  | some t =>
    obtain ⟨hpath, ht⟩ := filter_given_eq_some.1 hp
    change _ = fs.firstUsable ((Path.ofText t).text :: Settings.standardFiles fs)
    cases hl : fs.leadsTo (fun _ => true) (Path.ofText t).text with
    | error e => simp only [hl, firstUsable]
    | ok found =>
      cases found with
      | false => exact absurd ⟨t, hpath, ht, rfl, hl⟩ (h _)
      | true => simp only [hl]

end FileSystem

/-- The search for settings changes nothing. It is refused for a given path at which there is
nothing, and only for that. Otherwise it comes to the value of the first file that holds one, or to
an empty object, unless a file before that one breaks it off. -/
theorem Settings.found_unless_stopped (path : Option Text) (w : World) :
    (Settings.loadFile path w).2 = w ∧
    (∀ e, (Settings.loadFile path w).1 = .error (.settings e) ↔
      ∃ shown, w.files.Missing path shown ∧ e = .fileNotFound shown) ∧
    ((∀ shown, ¬ w.files.Missing path shown) →
      ((Settings.loadFile path w).1 =
          .ok (((w.files.settingsFiles path).findSome? w.files.held?).getD (.obj [])) ↔
        ∀ f, ¬ w.files.BreaksOff (w.files.settingsFiles path) f) ∧
      ∀ f, (Settings.loadFile path w).1 = .error f ↔
        w.files.BreaksOff (w.files.settingsFiles path) f) := by
  rw [Settings.loadFile_apply]
  refine ⟨rfl, fun e => ⟨fun h => ?_, ?_⟩, fun hm => ?_⟩
  · by_cases hm : ∃ shown, w.files.Missing path shown
    · obtain ⟨shown, hm⟩ := hm
      cases (FileSystem.settings_of_missing hm).symm.trans h
      exact ⟨shown, hm, rfl⟩
    · have hs := FileSystem.settings_of_not_missing (not_exists.1 hm)
      obtain ⟨before, t, after, -, hstops, -⟩ :=
        FileSystem.firstUsable_eq_error_iff.1 (hs.symm.trans h)
      exact absurd rfl (hstops.ne_settings e)
  · rintro ⟨shown, hm, rfl⟩
    exact FileSystem.settings_of_missing hm
  · simp only [FileSystem.settings_of_not_missing hm]
    exact ⟨FileSystem.firstUsable_eq_ok_iff, fun f => FileSystem.firstUsable_eq_error_iff⟩

/-- A file in the current directory that cannot be decoded, before one in the home directory that
holds a value. -/
def strayFileWorld : World where
  files :=
    { entries := [(.ofNames ["complexity_cli_config.json"], .file [0xff]),
        (.ofNames ["h", ".complexity_cli_config.json"], .file (Utf8.encode "1".toList)),
        (.ofNames ["h"], .directory)]
      current := [], home := ["h"] }
  now := { date := ⟨2024, 5, 1⟩ }

theorem Settings.found_unless_stopped_stray :
    ∃ fault, (Settings.loadFile none strayFileWorld).1 = .error (.encoding fault) := by
  let stray : Text := "/complexity_cli_config.json"
  let usable : Text := "/h/.complexity_cli_config.json"
  have hfiles : strayFileWorld.files.settingsFiles none = [] ++ stray :: [usable] := by
    decide +kernel
  have hread : strayFileWorld.files.read stray = .ok [0xff] := eq_ok_of_toOption (by decide +kernel)
  have htext : ∃ fault, Utf8.readText [0xff] = .error fault := ⟨_, rfl⟩
  obtain ⟨fault, htext⟩ := htext
  have hm : ∀ shown, ¬ strayFileWorld.files.Missing none shown := by
    rintro shown ⟨t, ht, -⟩
    cases ht
  refine ⟨fault, (((Settings.found_unless_stopped none strayFileWorld).2.2 hm).2 _).2 ?_⟩
  exact ⟨[], _, _, hfiles, .undecodable hread htext, nofun⟩

end CostLens
