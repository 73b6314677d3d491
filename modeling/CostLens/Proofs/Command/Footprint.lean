import CostLens.Command.Reach
import CostLens.Proofs.Command.Finding
import CostLens.Proofs.Files.Names
import CostLens.Proofs.Run.Footprint

/-! # What a command writes

A command writes its log file, and an analysis that has accepted a target and read the store writes
the store. Nothing else changes, whatever the outcome: options, document and targets are settled
before the store is opened, and opening it writes nothing. So a command that is refused leaves all
but the log as it was.
-/
namespace CostLens

open FileSystem (Places Keeps)
open Run (Confines confines_pure confines_fail confines_message confines_emit confines_print
  confines_ofExcept confines_ofExcept_any confines_of_remarks)

/-- Whether a failure refuses what is asked for. A store that could not be written is no refusal,
and neither is a failure that breaks a command off. -/
def Failure.refuses : Failure → Bool
  | .settings _ | .request _ | .document _ => true
  | .store (.unsaved _ _) => false
  | .store _ => true
  | _ => false

namespace Command

theorem mem_ancestry {p : Path} {outer : List Text} (h : outer <+: p.names) :
    ⟨p.slashes, outer⟩ ∈ ancestry p := by
  have hlen : outer.length < p.names.length + 1 := Nat.lt_succ_of_le h.length_le
  refine List.mem_map.2 ⟨outer.length, List.mem_range.2 hlen, ?_⟩
  rw [← List.prefix_iff_eq_take.1 h]

end Command

/-- A footprint in which a store can be saved: its file may be written, and the directory of that
and the parents of the directory may be made. -/
structure Footprint.Covers (b : Footprint) (p : Path) : Prop where
  names : ∀ n ∈ p.names, Path.IsName n
  written : b.written (b.files.place p.text)
  made : ∀ q ∈ Command.ancestry p.parent, b.made (b.files.place q.text)

section Saving
variable {b : Footprint}

theorem Json.save_confines {path : Text} (v : Json) (h : b.written (b.files.place path)) :
    Confines b (fun f => f = .nullInPath ∨ ∃ e, f = .file e) (fun _ => True)
      (Json.save path v) := by
  intro w hw
  rw [Json.save, Run.bind_apply, Run.requirePath_apply]
  cases path.contains '\x00' with
  | true => exact ⟨hw, .inl rfl⟩
  | false =>
    simp only [Bool.false_eq_true, ↓reduceIte, Run.bind_of_ok (Run.files_apply w)]
    cases hm : w.files.write path (Utf8.encode v.write) with
    | ok fs =>
      have hk : Keeps b.written b.made w.files fs :=
        FileSystem.modify_keeps hm (hw.files.place path ▸ h)
      have hw' : World.Within b { w with files := fs } := ⟨hw.files.trans hk, hw.logs⟩
      exact confines_message _ _ _ hw'
    | error e => exact (confines_message _ _).bind (fun _ _ => confines_fail (.inr ⟨e, rfl⟩)) w hw

namespace Store

theorem save_confines {s : Store} (hs : ∀ p, s.path = some p → b.Covers p) :
    Confines b (fun f => f.refuses = false) (fun _ => True) s.save := by
  intro w hw
  unfold save
  cases hp : s.path with
  | none => exact ⟨hw, trivial⟩
  | some path =>
  have hc := hs path hp
  simp only [Run.bind_apply (Run.requirePath _), Run.requirePath_apply]
  cases path.parent.text.contains '\x00' with
  | true => exact ⟨hw, rfl⟩
  | false =>
  simp only [Bool.false_eq_true, ↓reduceIte]
  rw [Run.bind_of_ok (Run.get_apply w), Run.bind_of_ok (Run.files_apply w)]
  split
  · rw [Run.bind_of_error (Run.fail_apply ..)]
    exact ⟨hw, rfl⟩
  have hnames : ∀ n ∈ path.parent.names, Path.IsName n := fun n hn =>
    hc.names n ((List.dropLast_sublist _).subset hn)
  have hmade : Keeps b.written b.made w.files (w.files.makeDirectories path.parent).1 := by
    refine FileSystem.makeDirectories_keeps_at hnames fun outer ho => ?_
    rw [hw.files.place]
    exact hc.made _ (Command.mem_ancestry ho)
  have hw' : World.Within b { w with files := (w.files.makeDirectories path.parent).1 } :=
    ⟨hw.files.trans hmade, hw.logs⟩
  rw [Run.bind_of_ok (Run.files_apply w), Run.bind_of_ok (Run.setFiles_apply ..)]
  cases (w.files.makeDirectories path.parent).2 with
  | error e => exact ⟨hw', rfl⟩
  | ok names =>
    refine (Json.save_confines _ hc.written).tryCatch ?_ _ hw'
    rintro f (rfl | ⟨e, rfl⟩)
    · exact confines_fail rfl
    · exact confines_fail rfl

/-- Recording stays within the footprint of the store, and what goes wrong is told as a result. -/
theorem record_confines {s : Store} (hs : ∀ p, s.path = some p → b.Covers p) (key : Key)
    (time space : Json) (captured : Option Moment) :
    Confines b (fun f => f.refuses = false)
      (fun p => p.2.path = s.path ∧ ∀ f, p.1 = .error f → f.refuses = false)
      (s.record key time space captured) := by
  intro w hw
  rw [record, Run.bind_of_ok (Run.get_apply w)]
  refine Confines.tryCatch (E := fun f => f.refuses = false) ?_ ?_ w hw
  · exact (save_confines (s := s.put _) hs).bind fun _ _ =>
      (confines_message _ _).bind fun _ _ => confines_pure ⟨rfl, nofun⟩
  · intro f hf
    refine confines_pure ⟨rfl, fun g hg => ?_⟩
    cases hg
    exact hf

end Store

end Saving

namespace Command

section Working
variable {b : Footprint} {o : Options}

theorem openStore_remarks (o : Options) : Run.Remarks (openStore o) := by
  unfold openStore
  cases o.useStore with
  | true => exact Store.load_remarks o.storePath
  | false => exact fun w => .refl w

/-- A store that was opened is kept in memory, or it was read from its file. -/
theorem openStore_cases {store : Store} {w w' : World} (h : openStore o w = (.ok store, w')) :
    store.path = none ∨ o.useStore = true ∧ w.files.store o.storePath = .ok store ∧
      store.path = some o.storePath := by
  unfold openStore at h
  cases hu : o.useStore with
  | false =>
    rw [hu] at h
    cases h
    exact .inl rfl
  | true =>
    rw [hu] at h
    have hstore : w.files.store o.storePath = .ok store :=
      (Store.load_fst o.storePath w).symm.trans (congrArg Prod.fst h)
    refine .inr ⟨rfl, hstore, ?_⟩
    rw [(FileSystem.store_eq_ok hstore).1]

theorem document_remarks (path : Text) : Run.Remarks (Document.load path) :=
  fun w => (Document.load_apply path w).2

theorem resultsDocument_remarks (path : Option Text) : Run.Remarks (resultsDocument path) := by
  intro w
  unfold resultsDocument
  split
  · split
    · exact .refl w
    · next t _ =>
      rw [Run.bind_apply, Run.uriOf_apply]
      cases w.files.uri (Path.ofText t) <;> exact .refl w
  · exact .refl w

/-- Whatever a report shows or refuses, nothing is written. -/
theorem confines_shown (r : Except Failure Report) :
    Confines b (fun _ => True) (fun _ => True) (do Run.out (← Run.ofExcept r)) := by
  exact (confines_ofExcept_any r).bind fun _ _ => confines_emit _

theorem runScan_confines (path : Text) :
    Confines b (fun _ => True) (fun _ => True) (runScan o path) := by
  unfold runScan onDocument
  refine Confines.within ?_ _
  refine (confines_of_remarks (document_remarks path)).bind fun document _ => ?_
  refine (confines_message _ _).bind fun _ _ => ?_
  split
  · exact confines_print _
  · exact (confines_of_remarks (openStore_remarks o)).bind fun store _ => confines_shown _

theorem showLenses_confines (lines : List Text) (records : List Record)
    (candidates : List Candidate) :
    Confines b (fun _ => True) (fun _ => True) (showLenses o lines records candidates) := by
  induction candidates with
  | nil => exact confines_pure trivial
  | cons c rest ih =>
    refine (confines_emit _).bind fun _ _ => ?_
    exact (confines_ofExcept_any _).bind fun report _ => (confines_emit _).bind fun _ _ => ih

theorem runLens_confines (path : Text) :
    Confines b (fun _ => True) (fun _ => True) (runLens o path) := by
  unfold runLens onDocument
  refine Confines.within ?_ _
  refine (confines_of_remarks (document_remarks path)).bind fun document _ => ?_
  dsimp only
  split
  · exact confines_emit _
  · exact (confines_of_remarks (openStore_remarks o)).bind fun store _ =>
      showLenses_confines _ _ _

theorem runResults_confines (path : Option Text) :
    Confines b (fun _ => True) (fun _ => True) (runResults o path) := by
  refine (confines_of_remarks (openStore_remarks o)).bind fun store _ => ?_
  refine (confines_of_remarks (resultsDocument_remarks path)).bind fun document _ => ?_
  split
  · exact confines_print _
  · intro w hw
    rw [Run.bind_of_ok (Run.get_apply w)]
    exact confines_shown _ w hw

/-! ## An analysis -/

theorem recordTarget_confines {store : Store} (hs : ∀ p, store.path = some p → b.Covers p)
    (document : Document) (a : Analysis) :
    Confines b (fun f => f.refuses = false) (fun p => p.2.path = store.path)
      (recordTarget document store a) := by
  refine (Store.record_confines hs _ _ _ _).bind ?_
  rintro ⟨result, store'⟩ ⟨hpath, hresult⟩
  refine (confines_ofExcept (Q := fun _ => True) ?_).bind fun r _ => ?_
  · cases result with
    | ok r => trivial
    | error f => exact hresult f rfl
  · exact (confines_message _ _).bind fun _ _ => confines_pure hpath

theorem analyzeTarget_confines (family : Family) (document : Document) (c : Candidate) :
    Confines b (fun f => f.refuses = false) (fun _ => True) (analyzeTarget family document c) := by
  unfold analyzeTarget
  split
  · exact confines_pure trivial
  · exact confines_fail rfl

/-- However far the analysis of targets comes, it stays within the footprint of the store. The
store keeps its file from target to target. -/
theorem analyzeTargets_confines (family : Family) (document : Document) (targets : List Candidate)
    {store : Store} (hs : ∀ p, store.path = some p → b.Covers p) :
    Confines b (fun f => f.refuses = false) (fun _ => True)
      (analyzeTargets o family document store targets) := by
  induction targets generalizing store with
  | nil => exact confines_pure trivial
  | cons c rest ih =>
    -- the target is settled within its own context, and the store comes back with the same file
    refine Confines.bind (Q := fun p => p.2.2.path = store.path) (Confines.within ?_ _) ?_
    · refine (analyzeTarget_confines family document c).bind fun a _ => ?_
      exact (recordTarget_confines hs document a).bind fun p hp => confines_pure hp
    rintro ⟨a, r, store'⟩ hpath
    have hstore : ∀ p, store'.path = some p → b.Covers p := fun p hp => hs p (hpath ▸ hp)
    have hresults := (ih hstore).bind (R := fun _ => True) (f := fun results =>
      (pure (resultJson a r :: results) : Run (List Json))) fun results _ => confines_pure trivial
    dsimp only
    split
    · exact (confines_emit _).bind fun _ _ => (confines_emit _).bind fun _ _ => hresults
    · exact hresults

theorem analyzeOpened_confines (path : Text) (document : Document) (targets : List Candidate)
    {store : Store} (hs : ∀ p, store.path = some p → b.Covers p) :
    Confines b (fun f => f.refuses = false) (fun _ => True) (do
      if !o.asJson then
        Run.out (.markup [])
        Run.out (View.header path)
      let results ← analyzeTargets o (familyOf o path) document store targets
      if o.asJson then
        printJson (.obj [("document", .str document.uri), ("results", .arr results)])
      else Run.out .rule) := by
  have hrest := analyzeTargets_confines (o := o) (familyOf o path) document targets hs
  cases o.asJson with
  | true => exact hrest.bind fun _ _ => confines_print _
  | false =>
    exact (confines_emit _).bind fun _ _ => (confines_emit _).bind fun _ _ =>
      hrest.bind fun _ _ => confines_emit _

end Working

/-- The footprint of the log alone. -/
def logOnly (L : Places) (fs : FileSystem) : Footprint := ⟨fs, L, fun _ => False⟩

/-- The footprint of the log and of a store. -/
def logAndStore (L : Places) (fs : FileSystem) (p : Path) : Footprint where
  files := fs
  written n := L n ∨ n = fs.place p.text
  made n := ∃ q ∈ ancestry p.parent, n = fs.place q.text

theorem logOnly_le (L : Places) (fs : FileSystem) (p : Path) :
    (logOnly L fs).Le (logAndStore L fs p) := ⟨rfl, fun _ => .inl, fun _ h => h.elim⟩

theorem logAndStore_covers {L : Places} {fs : FileSystem} {p : Path}
    (h : ∀ n ∈ p.names, Path.IsName n) : (logAndStore L fs p).Covers p :=
  ⟨h, .inr rfl, fun q hq => ⟨q, hq, rfl⟩⟩

/-- A document was read, at least one target in it was accepted, and the store was read. All of
this was found in files that differ from the first ones in the log alone. -/
def Accepts (L : Places) (fs : FileSystem) (o : Options) (path : Text)
    (target : Request.Target) : Prop :=
  ∃ fs₁ document targets fs₂ store,
    Keeps L (fun _ => False) fs fs₁ ∧ fs₁.document path = .ok document ∧
    Request.targets path document.lines.length
      (Candidate.scan (familyOf o path) document.lines) target = .ok targets ∧ targets ≠ [] ∧
    Keeps L (fun _ => False) fs fs₂ ∧ fs₂.store o.storePath = .ok store

/-- How the work of a command leaves the files: only the log was written, or the store was to be
written and the failure, if there is one, is no refusal. -/
def Leaves (L : Places) (fs : FileSystem) (p : Path) (accepted : Prop)
    (outcome : Except Failure Unit × World) : Prop :=
  outcome.2.Within (logOnly L fs) ∨
    accepted ∧ outcome.2.Within (logAndStore L fs p) ∧
      ∀ f, outcome.1 = .error f → f.refuses = false

section Leaving
variable {L : Places} {fs : FileSystem} {o : Options} {p : Path} {accepted : Prop} {w : World}

theorem Leaves.remarked {r : Except Failure Unit} {w' : World}
    (h : Leaves L fs p accepted (r, w)) (hr : World.Remarked w w') :
    Leaves L fs p accepted (r, w') := by
  rcases h with h | ⟨ha, h, hf⟩
  · exact .inl (h.remarked hr)
  · exact .inr ⟨ha, h.remarked hr, hf⟩

theorem Leaves.within {x : Run Unit} (change : ContextChange)
    (h : ∀ w₀, World.Remarked w w₀ → Leaves L fs p accepted (x w₀)) :
    Leaves L fs p accepted (Run.within change x w) :=
  (h _ (.contexts _ (.refl w))).remarked (.contexts _ (.refl _))

theorem runAnalyze_leaves (path : Text) (target : Request.Target)
    (hn : ∀ n ∈ o.storePath.names, Path.IsName n) (hw : w.Within (logOnly L fs)) :
    Leaves L fs o.storePath (o.useStore = true ∧ Accepts L fs o path target)
      (runAnalyze o path target w) := by
  unfold runAnalyze onDocument
  refine Leaves.within _ fun w₀ hr₀ => ?_
  have hw₀ := hw.remarked hr₀
  have hload := Document.load_apply path w₀
  rcases hd : Document.load path w₀ with ⟨r, w₁⟩
  rw [hd] at hload
  have hw₁ := hw₀.remarked hload.2
  cases r with
  | error f =>
    rw [Run.bind_of_error hd]
    exact .inl hw₁
  | ok document =>
  rw [Run.bind_of_ok hd]
  dsimp only
  cases ht : Request.targets path document.lines.length
    (Candidate.scan (familyOf o path) document.lines) target with
  | error e => exact .inl hw₁
  | ok targets =>
  cases targets with
  | nil => exact .inl (confines_emit (E := fun _ => True) _ w₁ hw₁).world
  | cons c rest =>
  dsimp only
  have hopen := openStore_remarks o w₁
  rcases ho : openStore o w₁ with ⟨r, w₂⟩
  rw [ho] at hopen
  have hw₂ := hw₁.remarked hopen
  cases r with
  | error f =>
    rw [Run.bind_of_error ho]
    exact .inl hw₂
  | ok store =>
  rw [Run.bind_of_ok ho]
  rcases openStore_cases ho with hnone | ⟨huse, hstore, hpath⟩
  · have hcovers : ∀ q, store.path = some q → (logOnly L fs).Covers q := by
      intro q hq
      cases hnone.symm.trans hq
    exact .inl (analyzeOpened_confines path document (c :: rest) hcovers w₂ hw₂).world
  · have hcovers : ∀ q, store.path = some q → (logAndStore L fs o.storePath).Covers q := by
      intro q hq
      cases hpath.symm.trans hq
      exact logAndStore_covers hn
    have hend := analyzeOpened_confines (o := o) path document (c :: rest) hcovers w₂
      (hw₂.mono (logOnly_le L fs o.storePath))
    refine .inr ⟨⟨huse, ?_⟩, hend.world, fun f hf => ?_⟩
    · exact ⟨w₀.files, document, c :: rest, w₁.files, store, hw₀.files, hload.1.symm, ht,
        List.cons_ne_nil c rest, hw₁.files, hstore⟩
    · have hresult := hend.result
      rw [hf] at hresult
      exact hresult

theorem Leaves.observed {i : Invocation}
    (h : ∀ w₀, World.Remarked w w₀ → Leaves L fs p accepted (work i o w₀)) :
    Leaves L fs p accepted (observed i o w) := by
  unfold Command.observed
  refine Leaves.within _ fun w₀ hr₀ => ?_
  rw [Run.bind_of_ok (Run.message_apply ..)]
  have hwork := h (Run.logged w₀ .debug ("Starting " ++ (i.command.name ++ "_command")))
    (hr₀.trans (.message _ _ (.refl w₀)))
  rw [Run.bind_apply, Run.onFailure, Run.tryCatch_apply]
  rcases he : work i o (Run.logged w₀ .debug ("Starting " ++ (i.command.name ++ "_command")))
    with ⟨r, w₁⟩
  rw [he] at hwork
  cases r with
  | ok u => exact hwork.remarked (.message _ _ (.refl w₁))
  | error f => exact hwork.remarked (.message _ _ (.refl w₁))

theorem work_leaves (i : Invocation) (hn : ∀ n ∈ o.storePath.names, Path.IsName n)
    (hw : w.Within (logOnly L fs)) :
    Leaves L fs o.storePath
      (i.command = .analyze ∧ o.useStore = true ∧ Accepts L fs o (i.file?.getD []) i.target)
      (work i o w) := by
  unfold work
  cases hc : i.command with
  | scan => exact .inl (runScan_confines _ w hw).world
  | lens => exact .inl (runLens_confines _ w hw).world
  | results => exact .inl (runResults_confines _ w hw).world
  | analyze =>
    rcases runAnalyze_leaves (i.file?.getD []) i.target hn hw with h | ⟨ha, h⟩
    · exact .inl h
    · exact .inr ⟨⟨rfl, ha⟩, h⟩

end Leaving

end Command

end CostLens
