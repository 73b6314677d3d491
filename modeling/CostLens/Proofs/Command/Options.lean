import CostLens.Command.Options
import CostLens.Proofs.Command.Settings

/-! # How options come about

The options of a command are functions of its command line, of the settings that are found and of
the directories that stand for a tilde. Resolving them makes the log file and leaves messages.
-/
namespace CostLens

open FileSystem (Places Keeps)

namespace FileSystem

/-- The path of a log file. -/
def logPath (fs : FileSystem) : Option Text → Except Failure (Option Path)
  | none => .ok none
  | some t => (fs.expanded (Path.ofText t)).map fun p => some (Log.absolutePath fs p)

/-- The file of the store. -/
def storeFile (fs : FileSystem) (s : Settings) : Except Failure Path :=
  match s.store with
  | .other _ => .error (.misuse .missingPart)
  | .settings store =>
    if store.path.isGiven then
      match store.path with
      | .str t => fs.expanded (Path.ofText t)
      | _ => .error (.misuse .wrongKind)
    else .ok (Settings.defaultStorePath fs)

section Keeps
variable {W D : Places} {fs fs' : FileSystem}

theorem Keeps.logPath (h : Keeps W D fs fs') (file : Option Text) :
    fs'.logPath file = fs.logPath file := by
  cases file with
  | none => rfl
  | some t => simp only [FileSystem.logPath, Log.absolutePath, h.expanded, h.current]

theorem Keeps.storeFile (h : Keeps W D fs fs') (s : Settings) :
    fs'.storeFile s = fs.storeFile s := by
  simp only [FileSystem.storeFile, Settings.defaultStorePath, h.expanded, h.current]

end Keeps

end FileSystem

/-- The places of the log: where its lines go, and where a path with these names leads. -/
def World.LogPlaces (w : World) : Places := fun n =>
  ∃ level names, w.log.channel = .console level (some names) ∧
    (n = names ∨ n = w.files.place (Path.ofNames names).text)

theorem World.logsTo_logPlaces (w : World) : w.LogsTo w.LogPlaces :=
  fun level names h => ⟨level, names, h, .inl rfl⟩

theorem Log.place_absolutePath (fs fs' : FileSystem) (p : Path) :
    fs'.place (absolutePath fs p).text =
      fs'.place (Path.ofNames (absolutePath fs p).names).text := by
  obtain ⟨slashes, names⟩ := p
  cases slashes with
  | zero => rfl
  | succ k => exact fs'.place_absolute k _

theorem Run.configureLog_eq_ok {debug verbose : Bool} {file : Option Text} {u : Unit}
    {w w' : World} (h : Run.configureLog debug verbose file w = (.ok u, w')) :
    ∃ path level, w.files.logPath file = .ok path ∧
      w'.log.channel = .console level (path.map (·.names)) ∧
      (∀ D, Keeps w'.LogPlaces D w.files w'.files) ∧ w'.now = w.now ∧
      w'.printed = w.printed ∧ w'.events = w.events := by
  unfold Run.configureLog at h
  rw [Run.bind_of_ok (Run.modify_apply ..)] at h
  cases file with
  | none =>
    simp only [Run.bind_of_ok (Run.pure_apply ..), Run.modify_apply] at h
    cases h
    exact ⟨none, _, rfl, rfl, fun _ => .refl .., rfl, rfl, rfl⟩
  | some t =>
    simp only [Run.bind_of_ok (Run.files_apply _), Run.bind_apply (Run.expandHome _),
      Run.expandHome_apply] at h
    cases hp : w.files.expanded (Path.ofText t) with
    | error f =>
      rw [hp] at h
      cases h
    | ok p =>
      rw [hp] at h
      replace h := Run.requirePath_bind_eq_ok h
      cases hm : w.files.modify (Log.absolutePath w.files p).text id with
      | error e =>
        simp only [hm] at h
        cases h
      | ok made =>
        simp only [hm, Run.bind_of_ok (Run.setFiles_apply ..), Run.bind_of_ok (Run.pure_apply ..),
          Run.modify_apply] at h
        cases h
        have hplace : made.place (Log.absolutePath w.files p).text =
            w.files.place (Log.absolutePath w.files p).text := by
          have hk : Keeps (fun _ => True) (fun _ => False) w.files made :=
            FileSystem.modify_keeps hm trivial
          exact hk.place _
        refine ⟨some (Log.absolutePath w.files p), _, ?_, rfl, fun D => ?_, rfl, rfl, rfl⟩
        · rw [FileSystem.logPath, hp]
          rfl
        · refine FileSystem.modify_keeps hm ⟨_, _, rfl, .inr ?_⟩
          rw [← hplace]
          exact Log.place_absolutePath ..

/-! ## Resolving -/

namespace Options

/-- The language that is asked for, or else the one of the settings. -/
def languageFor (asked : Option Text) (s : Settings) : Except Failure (Option Text) :=
  let named (name : Text) : Except Failure (Option Text) :=
    match Language.resolve? name with
    | some language => .ok (some language)
    | none => .error (.settings (.unsupportedLanguage name))
  match asked with
  | some name => named name
  | none =>
    if s.language.isGiven then
      match s.language with
      | .str name => named name
      | _ => .error (.misuse .missingPart)
    else .ok none

theorem languageNamed_apply (name : Text) (w : World) :
    languageNamed name w = (match Language.resolve? name with
      | some language => .ok (some language)
      | none => .error (.settings (.unsupportedLanguage name)), w) := by
  unfold languageNamed
  cases Language.resolve? name <;> rfl

theorem chooseLanguage_apply (i : Invocation) (s : Settings) (w : World) :
    (chooseLanguage i s w).1 = languageFor (i.given? .language) s ∧
      World.Remarked w (chooseLanguage i s w).2 := by
  unfold chooseLanguage languageFor
  cases i.given? .language with
  | some name =>
    simp only [Run.bind_of_ok (Run.message_apply ..), languageNamed_apply]
    exact ⟨trivial, .message _ _ (.refl w)⟩
  | none =>
    simp only
    split
    · rw [Run.bind_of_ok (Run.message_apply ..)]
      cases s.language with
      | str name =>
        simp only [languageNamed_apply]
        exact ⟨trivial, .message _ _ (.refl w)⟩
      | _ => exact ⟨rfl, .message _ _ (.refl w)⟩
    · exact ⟨rfl, .refl w⟩

theorem chooseStore_apply (i : Invocation) (enabled : Json) (w : World) :
    (chooseStore i enabled w).1 = .ok (if i.has .noStore then .bool false else enabled) ∧
      World.Remarked w (chooseStore i enabled w).2 := by
  unfold chooseStore
  split
  · rw [Run.bind_of_ok (Run.message_apply ..)]
    exact ⟨rfl, .message _ _ (.refl w)⟩
  · exact ⟨rfl, .refl w⟩

theorem storePath_apply (s : Settings) (w : World) :
    s.storePath w = (w.files.storeFile s, w) := by
  unfold Settings.storePath FileSystem.storeFile
  cases s.store with
  | other v => rfl
  | settings store =>
    simp only
    split
    · cases store.path with
      | str t => exact Run.expandHome_apply _ w
      | _ => rfl
    · rfl

/-- What the options of a command come from, and what has happened once they are known. -/
structure Resolved (i : Invocation) (w : World) (o : Options) (w₁ : World) (s : Settings)
    (log : Option Path) : Prop where
  found : ∃ v, w.files.settings (i.value? .config) = .ok v ∧ Settings.ofJson v = .ok s
  logFile : ∃ file, logFile i s = .ok file ∧ w.files.logPath file = .ok log
  language : languageFor (i.given? .language) s = .ok o.language
  enabled : ∃ v, storeEnabled s = .ok v ∧
    o.useStore = Json.isGiven (if i.has .noStore then .bool false else v)
  storePath : w.files.storeFile s = .ok o.storePath
  asJson : o.asJson = decide (outputFormat i s = .str "json")
  timestampFormat : o.timestampFormat = s.timestampFormat
  channel : ∃ level, w₁.log.channel = .console level (log.map (·.names))
  framed : ∀ D, w.Framed w₁.LogPlaces D w₁
  shown : w₁.shown = w.shown

theorem resolve_eq_ok {i : Invocation} {w : World} {o : Options} {w₁ : World}
    (h : resolve i w = (.ok o, w₁)) : ∃ s log, Resolved i w o w₁ s log := by
  unfold resolve at h
  simp only [Run.bind_apply (Settings.loadFile _), Settings.loadFile_apply] at h
  cases hv : w.files.settings (i.value? .config) with
  | error f =>
    rw [hv] at h
    cases h
  | ok v =>
  simp only [hv] at h
  obtain ⟨s, hs, h⟩ := Run.ofExcept_bind_eq_ok h
  obtain ⟨file, hl, h⟩ := Run.ofExcept_bind_eq_ok h
  obtain ⟨_, w₀, hc, h⟩ := Run.bind_eq_ok.1 h
  obtain ⟨log, level, hlog, hchannel, hkeeps, hnow, hprinted, hevents⟩ := Run.configureLog_eq_ok hc
  rw [Run.bind_of_ok (Run.message_apply ..)] at h
  obtain ⟨language, w₂, h₂, h⟩ := Run.bind_eq_ok.1 h
  obtain ⟨hlanguage, hr₂⟩ := Run.eq_ok_of_remarked (chooseLanguage_apply i s _) h₂
  obtain ⟨enabled, he, h⟩ := Run.ofExcept_bind_eq_ok h
  obtain ⟨use, w₃, h₃, h⟩ := Run.bind_eq_ok.1 h
  obtain ⟨huse, hr₃⟩ := Run.eq_ok_of_remarked (chooseStore_apply i enabled w₂) h₃
  obtain ⟨storePath, w₄, h₄, h⟩ := Run.bind_eq_ok.1 h
  rw [storePath_apply] at h₄
  obtain ⟨hstore, rfl⟩ := Prod.mk.inj h₄
  obtain ⟨_, w₅, h₅, h⟩ := Run.bind_eq_ok.1 h
  cases h
  have hr : World.Remarked w₀ w₃ := ((World.Remarked.message _ _ (.refl w₀)).trans hr₂).trans hr₃
  have hremarked : World.Remarked w₀ w₁ :=
    hr.trans (Run.Remarks.of_eq (Run.remarks_messageWith _ _ _) h₅)
  have hchannel' := hremarked.channel (by rw [hchannel]; nofun)
  have hplaces : w₁.LogPlaces = w₀.LogPlaces := by
    have hf : w₀.Framed (fun _ => True) (fun _ => False) w₁ := hremarked.framed fun _ _ _ => trivial
    unfold World.LogPlaces
    simp only [hchannel', hf.files.place]
  have hf₀ : ∀ D, w₀.Framed w₁.LogPlaces D w₁ := fun D =>
    hremarked.framed (hplaces ▸ w₀.logsTo_logPlaces)
  have hf : ∀ D, w.Framed w₁.LogPlaces D w₁ := fun D =>
    ⟨(hplaces ▸ hkeeps D).trans (hf₀ D).files, (hf₀ D).now.trans hnow,
      (hf₀ D).printed.trans hprinted, (hf₀ D).logs⟩
  refine ⟨s, log, ⟨v, hv, hs⟩, ⟨file, hl, hlog⟩, hlanguage, ⟨enabled, he, ?_⟩, ?_, rfl, rfl,
    ⟨level, hchannel'.trans hchannel⟩, hf, ?_⟩
  · rw [Except.ok.inj huse]
  · have hf : w₀.Framed (fun _ => True) (fun _ => False) w₃ := hr.framed fun _ _ _ => trivial
    rw [← (hkeeps (fun _ => False)).storeFile, ← hf.files.storeFile, hstore]
  · rw [hremarked.shown, World.shown, hevents, World.shown]

/-! ## Two commands -/

/-- Two command lines ask for the same file in the same way: the same language, settings and log
file, and both for the store or neither. -/
structure Alike (i j : Invocation) : Prop where
  file : j.file? = i.file?
  language : j.value? .language = i.value? .language
  config : j.value? .config = i.value? .config
  logFile : j.value? .logFile = i.value? .logFile
  noStore : j.has .noStore = i.has .noStore

section Agree
variable {i j : Invocation} {w w₁ v v₁ : World} {o q : Options} {s t : Settings}
  {log other : Option Path} {V D : Places}

theorem Resolved.logPlaces_iff (h : Resolved i w o w₁ s log) (n : List Text) :
    w₁.LogPlaces n ↔ ∃ p, log = some p ∧
      (n = p.names ∨ n = w.files.place (Path.ofNames p.names).text) := by
  obtain ⟨level, hc⟩ := h.channel
  unfold World.LogPlaces
  simp only [(h.framed fun _ => False).files.place]
  constructor
  · rintro ⟨l, names, hl, hn⟩
    rw [hc] at hl
    obtain ⟨p, hp, rfl⟩ := Option.map_eq_some_iff.1 (Channel.console.inj hl).2
    exact ⟨p, hp, hn⟩
  · rintro ⟨p, rfl, hn⟩
    exact ⟨level, p.names, hc, hn⟩

theorem Resolved.settings_agree (h : Resolved i w o w₁ s log) (h' : Resolved j v q v₁ t other)
    (hij : Alike i j) (hk : Keeps V D w.files v.files)
    (hw : ∀ f ∈ w.files.settingsFiles (i.value? .config), ¬ V (w.files.place f))
    (hr : ∀ f ∈ Settings.standardFiles w.files, w.files.Reaches f) : t = s := by
  obtain ⟨a, ha, hs⟩ := h.found
  obtain ⟨b, hb, ht⟩ := h'.found
  rw [hij.config] at hb
  rw [hk.settings hw hr ha hb] at ht
  exact Except.ok.inj (ht.symm.trans hs)

/-- Commands that are alike work with the same language, store and format of times, and log to the
same places. -/
theorem Resolved.agree (h : Resolved i w o w₁ s log) (h' : Resolved j v q v₁ t other)
    (hij : Alike i j) (hk : Keeps V D w.files v.files)
    (hw : ∀ f ∈ w.files.settingsFiles (i.value? .config), ¬ V (w.files.place f))
    (hr : ∀ f ∈ Settings.standardFiles w.files, w.files.Reaches f) :
    q.language = o.language ∧ q.useStore = o.useStore ∧ q.storePath = o.storePath ∧
      q.timestampFormat = o.timestampFormat ∧ v₁.LogPlaces = w₁.LogPlaces := by
  obtain rfl := h.settings_agree h' hij hk hw hr
  have hlanguage : q.language = o.language := by
    have hl := h'.language
    rw [Invocation.given?, hij.language] at hl
    exact Except.ok.inj (hl.symm.trans h.language)
  have huse : q.useStore = o.useStore := by
    obtain ⟨a, ha, hu⟩ := h.enabled
    obtain ⟨b, hb, hu'⟩ := h'.enabled
    rw [hu', hu, hij.noStore, Except.ok.inj (hb.symm.trans ha)]
  have hstore : q.storePath = o.storePath := by
    have hp := h'.storePath
    rw [hk.storeFile] at hp
    exact Except.ok.inj (hp.symm.trans h.storePath)
  have hlog : other = log := by
    obtain ⟨f, hf, hp⟩ := h.logFile
    obtain ⟨g, hg, hp'⟩ := h'.logFile
    have hfile : Options.logFile j t = Options.logFile i t := by
      simp only [Options.logFile, Invocation.given?, hij.logFile]
    rw [hfile] at hg
    obtain rfl := Except.ok.inj (hg.symm.trans hf)
    rw [hk.logPath] at hp'
    exact Except.ok.inj (hp'.symm.trans hp)
  refine ⟨hlanguage, huse, hstore, h'.timestampFormat.trans h.timestampFormat.symm, ?_⟩
  funext n
  rw [h.logPlaces_iff n, h'.logPlaces_iff n, hlog]
  simp only [hk.place]

end Agree

end Options

end CostLens
