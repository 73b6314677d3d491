import CostLens.Proofs.Command.Requests
import CostLens.Proofs.Command.Showing

/-! # What an analysis stores is what it found

A command that analyses functions stores, under the key of each target, the verdict on that target,
and leaves everything else in the store as it was. The commands that show a file afterwards look the
verdicts up under the same keys.
-/
namespace CostLens

open FileSystem (Places Keeps)

namespace Command

/-- The files that a command reads are apart from those that it writes: neither the document nor a
file with settings is the store or the log, and the store is not the log. -/
structure Apart (i : Invocation) (o : Options) (file : Text) (L : Places) (fs : FileSystem) :
    Prop where
  store : ¬ L (fs.place o.storePath.text)
  document : ∀ source, fs.expanded (Path.ofText file) = .ok source →
    ¬ Written o L fs (fs.place source.text)
  settings : ∀ f ∈ fs.settingsFiles (i.value? .config), ¬ Written o L fs (fs.place f)

/-- What a command that analyses functions of a file finds in a world: options by which results are
stored, a store with texts for labels, a document and at least one target in it. The number of
lines has no more digits than a number may have that is read, and no file with standard settings
stands in a directory that is missing. -/
structure Analyzes (i : Invocation) (w w₁ : World) (o : Options) (file : Text) (m : Store)
    (d : Document) (targets : List Candidate) : Prop where
  command : i.command = .analyze
  names : i.file? = some file
  options : Options.resolve i w = (.ok o, w₁)
  usesStore : o.useStore = true
  store : (Store.load o.storePath w).1 = .ok m
  labels : ∀ r ∈ m.records, r.HasTextLabels
  document : (Document.load file w).1 = .ok d
  short : Json.IsShort d.lines.length
  selects : Request.targets file d.lines.length (Candidate.scan (familyOf o file) d.lines)
    i.target = .ok targets
  nonempty : targets ≠ []
  apart : Apart i o file w₁.LogPlaces w.files
  reached : ∀ f ∈ Settings.standardFiles w.files, w.files.Reaches f

variable {i j : Invocation} {w w₁ w' v v' : World} {o : Options} {file : Text} {m : Store}
  {d : Document} {targets : List Candidate} {arguments : List Text}

theorem store_of_load {path : Path} (h : (Store.load path w).1 = .ok m) :
    w.files.store path = .ok m := by
  rw [Store.load_apply] at h
  cases hs : w.files.store path with
  | error f =>
    rw [hs] at h
    cases h
  | ok s =>
    rw [hs] at h
    exact h

theorem Analyzes.document_eq (h : Analyzes i w w₁ o file m d targets) :
    w.files.document file = .ok d := (Document.load_apply file w).1.symm.trans h.document

theorem Analyzes.requests (h : Analyzes i w w₁ o file m d targets) :
    Requests w₁.LogPlaces i w w₁ o file d targets where
  options := h.options
  usesStore := h.usesStore
  logs := fun _ hn => hn
  store := h.apart.store
  settings := h.apart.settings
  reached := h.reached
  command := h.command
  names := h.names
  labels := by
    have hm : m = w.files.stored o.storePath := (FileSystem.store_eq_ok (store_of_load h.store)).1
    exact hm ▸ h.labels
  document := h.document
  short := h.short
  selects := h.selects
  apart := h.apart.document

/-- What the command has done when it ends well: every target has an analysis, and the store in the
file is the one that was there, overridden by the verdicts. -/
theorem Analyzes.run_eq_ok (h : Analyzes i w w₁ o file m d targets)
    (hi : Invocation.ofArguments? arguments = some i) (hrun : run arguments w = (.exit 0, w')) :
    ∃ entries : List Analysis,
      targets.map (Analysis.ofCandidate? (familyOf o file) d.lines) = entries.map some ∧
      Keeps (Written o w₁.LogPlaces w.files) (fun _ => True) w.files w'.files ∧
      w'.printed = w.printed ++ (if o.asJson then
        (Json.obj [("document", .str d.uri), ("results", .arr (entries.map fun a =>
          resultJson a (a.record d.uri w.now)))]).write ++ "\n" else []) ∧
      w'.files.store o.storePath =
        .ok (m.putAll (entries.map (Analysis.record d.uri w.now))) := by
  obtain ⟨entries, hmap, hkeeps, hprinted, hheld⟩ := h.requests.run_eq_ok h.nonempty hi hrun
  have hm : m = w.files.stored o.storePath := (FileSystem.store_eq_ok (store_of_load h.store)).1
  refine ⟨entries, hmap, hkeeps, hprinted, ?_⟩
  rw [hm]
  exact Store.store_of_heldIn h.requests.labels (h.requests.records_last hmap) hheld

end Command

end CostLens
