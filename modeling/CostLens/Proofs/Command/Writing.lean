import CostLens.Proofs.Command.Footprint

/-! # What is different after a command

From a new world on, a whole command line changes its log file, and the file and the directories of
the store if an analysis came to write it. A refused one changes its log file at most.
-/
namespace CostLens

open FileSystem (Places Keeps)
open Run (Confines confines_pure confines_message confines_emit confines_ofExcept_any
  confines_of_remarks)

/-! ## The log and the options -/

namespace FileSystem

variable {fs : FileSystem}

theorem logPath_isName (hp : fs.Proper) {file : Option Text} {p : Path}
    (h : fs.logPath file = .ok (some p)) : ∀ n ∈ p.names, Path.IsName n ∧ n ≠ ".." := by
  cases file with
  | none => cases h
  | some t =>
    rw [logPath] at h
    cases hq : fs.expanded (Path.ofText t) with
    | error f =>
      rw [hq] at h
      cases h
    | ok q =>
      rw [hq] at h
      cases h
      exact absolutePath_isName hp (expanded_isName hp (Path.namesOf_isName t) hq)

theorem storeFile_isName (hp : fs.Proper) {s : Settings} {p : Path}
    (h : fs.storeFile s = .ok p) : ∀ n ∈ p.names, Path.IsName n := by
  unfold storeFile at h
  split at h
  · cases h
  split at h
  · split at h
    · next t _ => exact expanded_isName hp (Path.namesOf_isName t) h
    · cases h
  · cases h
    intro n hn
    rcases List.mem_append.1 hn with hn | hn
    · exact hp.current n hn
    · have hfile : ∀ m ∈ ([".complexity", "results.json"] : List Text), Path.IsName m := by decide
      exact hfile n hn

end FileSystem

/-- A log that could not be set up stays silent, and no file was made for it. -/
theorem Run.configureLog_eq_error {debug verbose : Bool} {file : Option Text} {f : Failure}
    {w w' : World} (h : Run.configureLog debug verbose file w = (.error f, w')) :
    w' = { w with log := { w.log with channel := .silent } } := by
  unfold Run.configureLog at h
  rw [Run.bind_of_ok (Run.modify_apply ..)] at h
  cases file with
  | none => cases h
  | some t =>
    simp only [Run.bind_of_ok (Run.files_apply _), Run.bind_apply (Run.expandHome _),
      Run.expandHome_apply] at h
    cases hp : w.files.expanded (Path.ofText t) with
    | error e =>
      rw [hp] at h
      cases h
      rfl
    | ok p =>
      simp only [hp, Run.bind_apply (Run.requirePath _), Run.requirePath_apply] at h
      cases hc : (Log.absolutePath w.files p).text.contains '\x00' with
      | true =>
        rw [hc] at h
        cases h
        rfl
      | false =>
        simp only [hc, Bool.false_eq_true, ↓reduceIte] at h
        cases hm : w.files.modify (Log.absolutePath w.files p).text id with
        | error e =>
          rw [hm] at h
          cases h
          rfl
        | ok made =>
          rw [hm] at h
          cases h

namespace Command

/-- The log file that a command line or the settings ask for. -/
def LogFile (i : Invocation) (fs : FileSystem) : Places := fun n =>
  ∃ v s file p, fs.settings (i.value? .config) = .ok v ∧ Settings.ofJson v = .ok s ∧
    Options.logFile i s = .ok file ∧ fs.logPath file = .ok (some p) ∧ n = p.names

section Resolving
variable {L : Places} {i : Invocation} {w : World}

/-- Whether or not the log can be set up, only its file is made. -/
theorem configureLog_within (hp : w.files.Proper) (debug verbose : Bool) {file : Option Text}
    (hL : ∀ p, w.files.logPath file = .ok (some p) → L p.names) :
    (Run.configureLog debug verbose file w).2.Within (logOnly L w.files) := by
  rcases hc : Run.configureLog debug verbose file w with ⟨r, w'⟩
  cases r with
  | error f =>
    rw [Run.configureLog_eq_error hc]
    exact ⟨.refl .., nofun⟩
  | ok u =>
    obtain ⟨log, level, hlog, hchannel, hkeeps, -⟩ := Run.configureLog_eq_ok hc
    have hnames : ∀ l names, w'.log.channel = .console l (some names) →
        L names ∧ w'.files.place (Path.ofNames names).text = names := by
      intro l names hl
      rw [hchannel] at hl
      obtain ⟨p, rfl, rfl⟩ := Option.map_eq_some_iff.1 (Channel.console.inj hl).2
      exact ⟨hL p hlog, w'.files.place_ofNames (FileSystem.logPath_isName hp hlog)⟩
    refine ⟨(hkeeps _).mono ?_ fun _ h => h, fun l names hl => (hnames l names hl).1⟩
    rintro n ⟨l, names, hl, rfl | rfl⟩
    · exact (hnames l _ hl).1
    · rw [(hnames l names hl).2]
      exact (hnames l names hl).1

theorem within_of_unset (hl : w.log.channel = .unset) : w.Within (logOnly L w.files) := by
  refine ⟨.refl .., fun level names hc => ?_⟩
  rw [hl] at hc
  cases hc

/-- Once the log is set up, the options are resolved with messages alone. -/
theorem resolve_within (hp : w.files.Proper) (hl : w.log.channel = .unset) :
    (Options.resolve i w).2.Within (logOnly (LogFile i w.files) w.files) := by
  unfold Options.resolve
  simp only [Run.bind_apply (Settings.loadFile _), Settings.loadFile_apply]
  cases hv : w.files.settings (i.value? .config) with
  | error f => exact within_of_unset hl
  | ok v =>
  dsimp only
  cases hs : Settings.ofJson v with
  | error f => exact within_of_unset hl
  | ok s =>
  rw [Run.bind_of_ok (Run.ofExcept_ok ..)]
  cases hfile : Options.logFile i s with
  | error f => exact within_of_unset hl
  | ok file =>
  rw [Run.bind_of_ok (Run.ofExcept_ok ..)]
  have hlog := configureLog_within (L := LogFile i w.files) hp (i.has .debug || s.debug.isGiven)
    (i.has .verbose) fun p hpath => ⟨v, s, file, p, hv, hs, hfile, hpath, rfl⟩
  rcases hc : Run.configureLog (i.has .debug || s.debug.isGiven) (i.has .verbose) file w
    with ⟨r, w₁⟩
  rw [hc] at hlog
  cases r with
  | error f =>
    rw [Run.bind_of_error hc]
    exact hlog
  | ok u =>
  rw [Run.bind_of_ok hc]
  refine (Confines.bind (R := fun _ => True) (confines_message (E := fun _ => True) _ _)
    (fun _ _ => ?_) w₁ hlog).world
  refine (confines_of_remarks fun w => (Options.chooseLanguage_apply i s w).2).bind
    fun language _ => ?_
  refine (confines_ofExcept_any _).bind fun enabled _ => ?_
  refine (confines_of_remarks fun w => (Options.chooseStore_apply i enabled w).2).bind
    fun use _ => ?_
  refine (confines_of_remarks fun w => ?_).bind fun storePath _ => ?_
  · rw [Options.storePath_apply]
    exact .refl w
  exact (confines_of_remarks (Run.remarks_messageWith _ _ _)).bind fun _ _ => confines_pure trivial

end Resolving

/-! ## A whole command -/

/-- An analysis that comes to write the store with the given options: it is not asked to leave the
store alone, the settings enable the store, at least one target was accepted, and the store was
read. -/
structure Saves (i : Invocation) (w : World) (o : Options) : Prop where
  command : i.command = .analyze
  stores : i.has .noStore = false
  options : (Options.resolve i w).1 = .ok o
  enabled : o.useStore = true
  accepts : Accepts (LogFile i w.files) w.files o (i.file?.getD []) i.target

/-- What a command does before its outcome is reported. -/
def attempt (i : Invocation) : Run Unit := do observed i (← Options.resolve i)

section Outcome
variable {arguments : List Text} {i : Invocation} {w : World}

theorem report_confines {b : Footprint} {E : Failure → Prop} (f : Failure) :
    Confines b E (fun _ => True) (report i f) := by
  unfold report
  dsimp only
  split
  · exact (confines_message _ _).bind fun _ _ => confines_emit _
  · refine (confines_message _ _).bind fun _ _ => (confines_emit _).bind fun _ _ => ?_
    split
    · exact confines_emit _
    · exact confines_pure trivial

theorem report_eq_ok (f : Failure) (w : World) : report i f w = (.ok (), (report i f w).2) := by
  -- no failure is allowed in the widest footprint, so there is none
  have hend := report_confines (i := i) (b := ⟨w.files, fun _ => True, fun _ => True⟩)
    (E := fun _ => False) f w ⟨.refl .., fun _ _ _ => trivial⟩
  rcases hr : report i f w with ⟨r, w'⟩
  cases r with
  | ok u => rfl
  | error g =>
    rw [hr] at hend
    exact hend.result.elim

theorem execute_apply (i : Invocation) (w : World) :
    execute i w = match attempt i w with
      | (.ok _, w') => (.ok (.exit 0), w')
      | (.error f, w') =>
        if isReported f then (.ok (.exit 1), (report i f w').2) else (.ok (.broken f), w') := by
  have hassoc : (do observed i (← Options.resolve i); return .exit 0 : Run Outcome) =
      (do attempt i; return .exit 0) := by
    rw [attempt, bind_assoc]
  rw [execute, hassoc, Run.tryCatch_apply, Run.bind_apply]
  rcases attempt i w with ⟨r, w'⟩
  cases r with
  | ok u => rfl
  | error f =>
    dsimp only
    split
    · rw [Run.bind_of_ok (report_eq_ok f w')]
      rfl
    · rfl

/-- A command line is attempted, and a failure of its own kinds is reported. -/
theorem run_apply (hi : Invocation.ofArguments? arguments = some i) :
    run arguments w = match attempt i w with
      | (.ok _, w') => (.exit 0, w')
      | (.error f, w') =>
        if isReported f then (.exit 1, (report i f w').2) else (.broken f, w') := by
  rw [run, hi]
  simp only [execute_apply]
  rcases attempt i w with ⟨r, w'⟩
  cases r with
  | ok u => rfl
  | error f => cases hf : isReported f <;> simp only [hf] <;> rfl

theorem run_within {b : Footprint} (hi : Invocation.ofArguments? arguments = some i)
    (h : (attempt i w).2.Within b) : (run arguments w).2.Within b := by
  rw [run_apply hi]
  rcases ha : attempt i w with ⟨r, w'⟩
  rw [ha] at h
  cases r with
  | ok u => exact h
  | error f =>
    dsimp only
    split
    · exact (report_confines (E := fun _ => True) f w' h).world
    · exact h

/-- Whatever comes of a command, it has written its log at most, or it is an analysis that came to
write the store, and then it was not refused. -/
theorem attempt_leaves (hp : w.files.Proper) (hl : w.log.channel = .unset) :
    (attempt i w).2.Within (logOnly (LogFile i w.files) w.files) ∨
      ∃ o, Saves i w o ∧
        (attempt i w).2.Within (logAndStore (LogFile i w.files) w.files o.storePath) ∧
        ∀ f, (attempt i w).1 = .error f → f.refuses = false := by
  have hresolve := resolve_within (i := i) hp hl
  rcases hr : Options.resolve i w with ⟨r, w₁⟩
  rw [hr] at hresolve
  cases r with
  | error f =>
    refine .inl ?_
    rw [attempt, Run.bind_of_error hr]
    exact hresolve
  | ok o =>
    obtain ⟨s, log, hres⟩ := Options.resolve_eq_ok hr
    have hnames := FileSystem.storeFile_isName hp hres.storePath
    have hleaves := Leaves.observed (w := w₁) (i := i) fun w₂ hw₂ =>
      work_leaves i hnames (hresolve.remarked hw₂)
    rw [attempt, Run.bind_of_ok hr]
    rcases hleaves with h | ⟨⟨hcommand, huse, haccepts⟩, h, hf⟩
    · exact .inl h
    · refine .inr ⟨o, ⟨hcommand, ?_, congrArg Prod.fst hr, huse, haccepts⟩, h, hf⟩
      -- a command line without the store resolves to options without it
      obtain ⟨v, -, he⟩ := hres.enabled
      rw [huse] at he
      cases hno : i.has .noStore with
      | false => rfl
      | true =>
        rw [hno] at he
        cases he

theorem isReported_of_refuses {f : Failure} (h : f.refuses = true) : isReported f = true := by
  cases f with
  | settings e => rfl
  | request e => rfl
  | document e => rfl
  | store e => rfl
  | _ => cases h

/-- The only places that differ after a command are its log file and, if it is an analysis that
came to write the store, the file of the store and the directories made on the way there. A command
that is refused ends with code one, and its log file is all that differs. -/
theorem run_writes_only (hp : w.files.Proper) (hl : w.log.channel = .unset) :
    (Invocation.ofArguments? arguments = none → (run arguments w).2 = w) ∧
    ∀ i, Invocation.ofArguments? arguments = some i →
      Keeps
        (fun n => LogFile i w.files n ∨ ∃ o, Saves i w o ∧ n = w.files.place o.storePath.text)
        (fun n => ∃ o, Saves i w o ∧ ∃ q ∈ ancestry o.storePath.parent, n = w.files.place q.text)
        w.files (run arguments w).2.files ∧
      ∀ f, (attempt i w).1 = .error f → f.refuses = true →
        (run arguments w).1 = .exit 1 ∧
        ∀ n, ¬ LogFile i w.files n → (run arguments w).2.files.entry? n = w.files.entry? n := by
  refine ⟨fun hnone => by rw [run, hnone], fun i hi => ⟨?_, fun f hf hrefuses => ⟨?_, ?_⟩⟩⟩
  · rcases attempt_leaves (i := i) hp hl with h | ⟨o, hsaves, h, -⟩
    · exact (run_within hi h).files.mono (fun _ => .inl) fun _ hn => hn.elim
    · refine (run_within hi h).files.mono ?_ ?_
      · rintro n (hn | hn)
        · exact .inl hn
        · exact .inr ⟨o, hsaves, hn⟩
      · exact fun n hn => ⟨o, hsaves, hn⟩
  · have ha : attempt i w = (.error f, (attempt i w).2) := Prod.ext hf rfl
    rw [run_apply hi, ha]
    simp only [isReported_of_refuses hrefuses, ↓reduceIte]
  · intro n hn
    rcases attempt_leaves (i := i) hp hl with h | ⟨o, -, -, hnever⟩
    · rcases (run_within hi h).files.entry n with he | ⟨hlog, -⟩ | ⟨hmade, -⟩
      · exact he
      · exact absurd hlog hn
      · exact hmade.elim
    · rw [hnever f hf] at hrefuses
      cases hrefuses

end Outcome

/-- A store without records, and no document. -/
def emptyStoreWorld : World where
  files :=
    { entries :=
        [(.ofNames [".complexity"], .directory),
          (.ofNames [".complexity", "results.json"],
            .file (Utf8.encode "\x7b\"records\": []\x7d\n"))]
      current := []
      home := [] }
  now := { date := ⟨2024, 5, 1⟩ }

theorem emptyStoreWorld_proper : emptyStoreWorld.files.Proper := ⟨nofun, nofun, nofun⟩

/-- An analysis of a document that is missing, with a log file. -/
def missingArguments (log : Text) : List Text := ["analyze", "a.py", "--log-file", log]

def missingInvocation (log : Text) : Invocation :=
  { command := .analyze, files := ["a.py"], values := [(.logFile, log)] }

def missingOptions : Options where
  language := none
  asJson := false
  timestampFormat := .str "%H:%M:%S"
  showExplanation := true
  useStore := true
  storePath := ⟨1, [".complexity", "results.json"]⟩

/-- The failure of a result that is one. -/
def failure? {α : Type} : Except Failure α → Option Failure
  | .error f => some f
  | .ok _ => none

theorem eq_error_of_failure? {α : Type} {x : Except Failure α} {f : Failure}
    (h : failure? x = some f) : x = .error f := by
  cases x with
  | ok a => cases h
  | error g => exact congrArg Except.error (Option.some.inj h)

/-- With a log file of its own, the refused analysis leaves the store as it was. -/
theorem run_writes_only_missing :
    (run (missingArguments "l.txt") emptyStoreWorld).2.files.entry?
        [".complexity", "results.json"] =
      emptyStoreWorld.files.entry? [".complexity", "results.json"] := by
  have hi : Invocation.ofArguments? (missingArguments "l.txt") =
      some (missingInvocation "l.txt") := by decide +kernel
  have hf : (attempt (missingInvocation "l.txt") emptyStoreWorld).1 =
      .error (.document (.notFound "a.py")) := eq_error_of_failure? (by decide +kernel)
  have hpath : emptyStoreWorld.files.logPath (some "l.txt") = .ok (some ⟨1, ["l.txt"]⟩) :=
    eq_ok_of_toOption (by decide +kernel)
  refine (((run_writes_only emptyStoreWorld_proper rfl).2 _ hi).2 _ hf rfl).2 _ ?_
  rintro ⟨v, s, file, p, -, -, hfile, hp, hn⟩
  cases hfile
  cases hpath.symm.trans hp
  cases hn

/-- With the file of the store as its log file, the refused analysis writes there. -/
theorem refused_run_logs_to_store :
    emptyStoreWorld.files.Proper ∧ emptyStoreWorld.log.channel = .unset ∧
      Invocation.ofArguments? (missingArguments ".complexity/results.json") =
        some (missingInvocation ".complexity/results.json") ∧
      (Options.resolve (missingInvocation ".complexity/results.json") emptyStoreWorld).1 =
        .ok missingOptions ∧
      (attempt (missingInvocation ".complexity/results.json") emptyStoreWorld).1 =
        .error (.document (.notFound "a.py")) ∧
      (run (missingArguments ".complexity/results.json") emptyStoreWorld).2.files.entry?
          (emptyStoreWorld.files.place missingOptions.storePath.text) ≠
        emptyStoreWorld.files.entry?
          (emptyStoreWorld.files.place missingOptions.storePath.text) := by
  refine ⟨emptyStoreWorld_proper, rfl, by decide +kernel, ?_, ?_, by decide +kernel⟩
  · exact eq_ok_of_toOption (by decide +kernel)
  · exact eq_error_of_failure? (by decide +kernel)

end Command

end CostLens
