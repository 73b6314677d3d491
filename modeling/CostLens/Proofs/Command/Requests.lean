import CostLens.Proofs.Command.Analyze
import CostLens.Proofs.Source.Targets

/-! # Requests to analyse functions

A request names a file and functions in it. When the command for it ends well, the verdicts on its
targets have been put into the store that the file of the store makes, and that store was saved. A
request without targets leaves the store alone.
-/
namespace CostLens

open FileSystem (Places Keeps)

namespace Analysis

theorem candidate_of_ofCandidate? {family : Family} {lines : List Text} {c : Candidate}
    {a : Analysis} (h : ofCandidate? family lines c = some a) : a.candidate = c := by
  unfold ofCandidate? at h
  obtain ⟨span, -, h⟩ := Option.bind_eq_some_iff.1 h
  obtain ⟨line, -, h⟩ := Option.bind_eq_some_iff.1 h
  cases h
  rfl

theorem map_candidate {family : Family} {lines : List Text} {targets : List Candidate}
    {entries : List Analysis}
    (h : targets.map (ofCandidate? family lines) = entries.map some) :
    entries.map (·.candidate) = targets := by
  induction targets generalizing entries with
  | nil =>
    rw [List.map_eq_nil_iff.1 h.symm]
    rfl
  | cons c targets ih =>
    cases entries with
    | nil => cases h
    | cons a entries =>
      obtain ⟨ha, hrest⟩ := List.cons.inj h
      rw [List.map_cons, candidate_of_ofCandidate? ha, ih hrest]

theorem filterMap_of_map {family : Family} {lines : List Text} {targets : List Candidate}
    {entries : List Analysis}
    (h : targets.map (ofCandidate? family lines) = entries.map some) :
    targets.filterMap (ofCandidate? family lines) = entries := by
  have hid : (targets.map (ofCandidate? family lines)).filterMap id = entries := by
    rw [h, List.filterMap_map]
    exact List.filterMap_some
  rwa [List.filterMap_map] at hid

end Analysis

namespace Request

variable {path : Text} {family : Family} {lines : List Text} {t : Target}
  {targets : List Candidate}

theorem targets_keys_nodup (uri : Text)
    (h : Request.targets path lines.length (Candidate.scan family lines) t = .ok targets) :
    (targets.map (Candidate.key uri)).Nodup := by
  refine List.pairwise_map.2 ((targets_lines h).1.imp fun hne he => hne ?_)
  exact congrArg Key.line he

theorem targets_short
    (h : Request.targets path lines.length (Candidate.scan family lines) t = .ok targets)
    (hl : Json.IsShort lines.length) : ∀ c ∈ targets, Json.IsShort c.startLine := by
  intro c hc
  obtain ⟨h0, hlt⟩ := (targets_lines h).2 c hc
  rw [Json.isShort_iff] at hl ⊢
  omega

end Request

namespace Command

/-- The places that an analysis may write, directories aside: those of the log and that of the
store. -/
def Written (o : Options) (L : Places) (fs : FileSystem) : Places := fun n =>
  L n ∨ n = fs.place o.storePath.text

/-- What a command that works with a store finds in a world: options by which results are stored, a
log that goes to `L`, and a store and settings apart from that. No file with standard settings
stands in a directory that is missing. -/
structure Works (L : Places) (i : Invocation) (w w₁ : World) (o : Options) : Prop where
  options : Options.resolve i w = (.ok o, w₁)
  usesStore : o.useStore = true
  logs : ∀ n, w₁.LogPlaces n → L n
  store : ¬ L (w.files.place o.storePath.text)
  settings : ∀ f ∈ w.files.settingsFiles (i.value? .config), ¬ Written o L w.files (w.files.place f)
  reached : ∀ f ∈ Settings.standardFiles w.files, w.files.Reaches f

namespace Works

variable {L : Places} {i j : Invocation} {w w₁ w' v v₁ : World} {o q : Options}
  {arguments : List Text}

theorem framed (h : Works L i w w₁ o) : w.Framed L (fun _ => False) w₁ := by
  obtain ⟨s, log, hr⟩ := Options.resolve_eq_ok h.options
  have hf : w.Framed w₁.LogPlaces (fun _ => False) w₁ := hr.framed _
  exact ⟨hf.files.mono h.logs (fun _ hn => hn), hf.now, hf.printed,
    fun level names hc => h.logs _ (hf.logs level names hc)⟩

/-- A command that ends well has come to its work with these options. -/
theorem work_eq_ok (h : Works L i w w₁ o) (hi : Invocation.ofArguments? arguments = some i)
    (hrun : run arguments w = (.exit 0, w')) :
    ∃ w₂ w₃, w.Framed L (fun _ => False) w₂ ∧ work i o w₂ = (.ok (), w₃) ∧
      World.Remarked w₃ w' := by
  obtain ⟨o', w₁', w₂, w₃, hopt, hr₂, hwork, hr₃⟩ := run_eq_exit_zero hi hrun
  obtain ⟨ho, hw₁⟩ := Prod.mk.inj (hopt.symm.trans h.options)
  cases ho
  subst hw₁
  exact ⟨w₂, w₃, h.framed.trans (hr₂.framed h.framed.logs), hwork, hr₃⟩

/-- A command that is alike works with the same store and language after this one, in a world in
which the store and the log have changed and directories were made. -/
theorem again (h : Works L i w w₁ o) (hij : Options.Alike i j)
    (hk : Keeps (Written o L w.files) (fun _ => True) w.files v.files)
    (hq : Options.resolve j v = (.ok q, v₁)) :
    Works L j v v₁ q ∧ q.language = o.language ∧ q.storePath = o.storePath ∧
      q.timestampFormat = o.timestampFormat := by
  obtain ⟨s, log, hr⟩ := Options.resolve_eq_ok h.options
  obtain ⟨t, other, hr'⟩ := Options.resolve_eq_ok hq
  obtain ⟨hlanguage, huse, hstore, hformat, hlog⟩ := hr.agree hr' hij hk h.settings h.reached
  refine ⟨⟨hq, huse.trans h.usesStore, hlog ▸ h.logs, ?_, ?_, ?_⟩, hlanguage, hstore, hformat⟩
  · rw [hstore, hk.place]
    exact h.store
  · intro f hf
    rw [FileSystem.settingsFiles, hij.config, hk.standardFiles] at hf
    rw [Written, hstore, hk.place, hk.place]
    exact h.settings f hf
  · intro f hf
    rw [hk.standardFiles] at hf
    exact hk.reaches (h.settings f (List.mem_append_right _ hf)) (h.reached f hf)

end Works

/-- What a request finds in a world: what a command with a store finds, records with texts for
labels, a document apart from what is written, and targets in it. The number of lines has no more
digits than a number may have that is read. -/
structure Requests (L : Places) (i : Invocation) (w w₁ : World) (o : Options) (file : Text)
    (d : Document) (targets : List Candidate) : Prop extends Works L i w w₁ o where
  command : i.command = .analyze
  names : i.file? = some file
  labels : ∀ r ∈ (w.files.stored o.storePath).records, r.HasTextLabels
  document : (Document.load file w).1 = .ok d
  short : Json.IsShort d.lines.length
  selects : Request.targets file d.lines.length (Candidate.scan (familyOf o file) d.lines)
    i.target = .ok targets
  apart : ∀ source, w.files.expanded (Path.ofText file) = .ok source →
    ¬ Written o L w.files (w.files.place source.text)

namespace Requests

variable {L : Places} {i : Invocation} {w w₁ w' : World} {o : Options} {file : Text}
  {d : Document} {targets : List Candidate} {arguments : List Text}

theorem document_eq (h : Requests L i w w₁ o file d targets) : w.files.document file = .ok d :=
  (Document.load_apply file w).1.symm.trans h.document

/-- The command finds this document and this store when it gets to its work. -/
theorem analyze_eq_ok (h : Requests L i w w₁ o file d targets)
    (hi : Invocation.ofArguments? arguments = some i) (hrun : run arguments w = (.exit 0, w')) :
    ∃ w₂ w₃, Finds L w.files o file (w.files.stored o.storePath) d w₂ ∧
      w.Framed L (fun _ => False) w₂ ∧ runAnalyze o file i.target w₂ = (.ok (), w₃) ∧
      World.Remarked w₃ w' := by
  obtain ⟨w₂, w₃, hf₂, hwork, hr₃⟩ := h.work_eq_ok hi hrun
  refine ⟨w₂, w₃, ⟨h.usesStore, rfl, h.document_eq, h.store, ?_, hf₂.files, hf₂.logs⟩, hf₂, ?_, hr₃⟩
  · exact fun source hs hl => h.apart source hs (.inl hl)
  · simpa only [work, h.command, h.names, Option.getD_some] using hwork

/-- The same request, made again in a world in which the store and the log have changed. -/
theorem again (h : Requests L i w w₁ o file d targets) {v v₁ : World} {q : Options}
    (hk : Keeps (Written o L w.files) (fun _ => True) w.files v.files)
    (hl : ∀ r ∈ (v.files.stored o.storePath).records, r.HasTextLabels)
    (hq : Options.resolve i v = (.ok q, v₁)) :
    Requests L i v v₁ q file d targets ∧ q.storePath = o.storePath ∧
      familyOf q file = familyOf o file := by
  obtain ⟨hworks, hlanguage, hstore, -⟩ := h.toWorks.again ⟨rfl, rfl, rfl, rfl, rfl⟩ hk hq
  have hfamily : familyOf q file = familyOf o file := by rw [familyOf, hlanguage, familyOf]
  have hdoc : (Document.load file v).1 = .ok d :=
    (Document.load_apply file v).1.trans (hk.document h.apart h.document_eq)
  refine ⟨⟨hworks, h.command, h.names, hstore ▸ hl, hdoc, h.short, hfamily ▸ h.selects, ?_⟩,
    hstore, hfamily⟩
  intro source hs
  rw [hk.expanded] at hs
  rw [Written, hstore, hk.place, hk.place]
  exact h.apart source hs

theorem records_last (h : Requests L i w w₁ o file d targets) {entries : List Analysis}
    {now : Moment}
    (hmap : targets.map (Analysis.ofCandidate? (familyOf o file) d.lines) = entries.map some) :
    ∀ r ∈ entries.map (Analysis.record d.uri now), r.Lasts := by
  intro r hr
  obtain ⟨a, ha, rfl⟩ := List.mem_map.1 hr
  have hc : a.candidate ∈ targets := Analysis.map_candidate hmap ▸ List.mem_map_of_mem ha
  exact ⟨⟨_, rfl⟩, ⟨_, rfl⟩, Request.targets_short h.selects h.short _ hc⟩

/-- What the command has done when it ends well and there are targets: each of them has an analysis,
and the file holds the store that was there, overridden by the verdicts. -/
theorem run_eq_ok (h : Requests L i w w₁ o file d targets) (hne : targets ≠ [])
    (hi : Invocation.ofArguments? arguments = some i) (hrun : run arguments w = (.exit 0, w')) :
    ∃ entries : List Analysis,
      targets.map (Analysis.ofCandidate? (familyOf o file) d.lines) = entries.map some ∧
      Keeps (Written o L w.files) (fun _ => True) w.files w'.files ∧
      w'.printed = w.printed ++ (if o.asJson then
        (Json.obj [("document", .str d.uri), ("results", .arr (entries.map fun a =>
          resultJson a (a.record d.uri w.now)))]).write ++ "\n" else []) ∧
      ((w.files.stored o.storePath).putAll (entries.map (Analysis.record d.uri w.now))).HeldIn
        o.storePath w.now w'.files := by
  obtain ⟨w₂, w₃, hfind, hf₂, hwork, hr₃⟩ := h.analyze_eq_ok hi hrun
  obtain ⟨entries, hmap, hkeeps, hprinted, hheld, hlogs⟩ :=
    runAnalyze_eq_ok hfind h.selects hne hwork
  rw [hf₂.now] at hprinted hheld
  have hf₃ := hr₃.framed (D := fun _ => False) hlogs
  refine ⟨entries, hmap, ?_, ?_, ?_⟩
  · exact hkeeps.trans (hf₃.files.mono (fun _ => .inl) (fun _ h => h.elim))
  · rw [hf₃.printed, hprinted, hf₂.printed]
  · have hplace : w₃.files.place o.storePath.text = w.files.place o.storePath.text :=
      hkeeps.place _
    exact hheld.keeps hf₃.files (hplace ▸ h.store)

theorem run_of_nil (h : Requests L i w w₁ o file d [])
    (hi : Invocation.ofArguments? arguments = some i) (hrun : run arguments w = (.exit 0, w')) :
    Keeps L (fun _ => False) w.files w'.files := by
  obtain ⟨w₂, w₃, hfind, hf₂, hwork, hr₃⟩ := h.analyze_eq_ok hi hrun
  have hf₃ := runAnalyze_of_nil hfind h.selects hwork
  exact hf₂.files.trans (hf₃.files.trans (hr₃.framed hf₃.logs).files)

end Requests

end Command

end CostLens
