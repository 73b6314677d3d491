import CostLens.Command.Execute
import CostLens.Proofs.Command.Options
import CostLens.Proofs.Store.Snapshot

/-! # What a command finds

A command reads its document and the store after it has left messages, and the messages go to a log
file. As long as that is neither the document nor the store, the command finds what was there.
-/
namespace CostLens

open FileSystem (Places Keeps)

/-- The key of a candidate of a document. -/
def Candidate.key (uri : Text) (c : Candidate) : Key := ⟨uri, c.name, c.startLine⟩

namespace Command

/-- The store that is opened is the one in the files, as long as the log is another file. -/
theorem openStore_eq_ok {L : Places} {fs : FileSystem} {o : Options} {w w' : World} {s : Store}
    (huse : o.useStore = true) (hk : Keeps L (fun _ => False) fs w.files)
    (hne : ¬ L (fs.place o.storePath.text)) (hs : openStore o w = (.ok s, w')) :
    s = fs.stored o.storePath ∧ World.Remarked w w' := by
  unfold openStore at hs
  rw [if_pos huse, Store.openAt, Store.load_apply] at hs
  cases hs' : w.files.store o.storePath with
  | error f =>
    rw [hs'] at hs
    cases hs
  | ok s' =>
    rw [hs'] at hs
    cases hs
    refine ⟨?_, .message _ _ (.refl w)⟩
    rw [(FileSystem.store_eq_ok hs').1, hk.recorded hne]
    rfl

/-- A document and a store as they are in some files. The files of the world differ from these at
most where the log goes, and that is neither the document nor the store. -/
structure Finds (L : Places) (fs : FileSystem) (o : Options) (file : Text) (store : Store)
    (document : Document) (w : World) : Prop where
  usesStore : o.useStore = true
  store : store = fs.stored o.storePath
  document : fs.document file = .ok document
  storeApart : ¬ L (fs.place o.storePath.text)
  sourceApart : ∀ source, fs.expanded (Path.ofText file) = .ok source →
    ¬ L (fs.place source.text)
  files : Keeps L (fun _ => False) fs w.files
  logs : w.LogsTo L

namespace Finds

variable {L : Places} {fs : FileSystem} {o : Options} {file : Text} {store : Store}
  {document : Document} {w w' : World}

theorem framed (h : Finds L fs o file store document w)
    (hf : w.Framed L (fun _ => False) w') : Finds L fs o file store document w' :=
  { h with files := h.files.trans hf.files, logs := hf.logs }

theorem remarked (h : Finds L fs o file store document w) (hr : World.Remarked w w') :
    Finds L fs o file store document w' := h.framed (hr.framed h.logs)

theorem load_eq_ok (h : Finds L fs o file store document w) {d : Document}
    (hd : Document.load file w = (.ok d, w')) : d = document ∧ World.Remarked w w' := by
  obtain ⟨he, hr⟩ := Run.eq_ok_of_remarked (Document.load_apply file w) hd
  exact ⟨Except.ok.inj (he.symm.trans (h.files.document h.sourceApart h.document)), hr⟩

theorem openStore_eq_ok (h : Finds L fs o file store document w) {s : Store}
    (hs : openStore o w = (.ok s, w')) : s = store ∧ World.Remarked w w' := by
  rw [h.store]
  exact Command.openStore_eq_ok h.usesStore h.files h.storeApart hs

end Finds

/-! ## Commands that end well -/

variable {i : Invocation} {o : Options} {w w' : World}

theorem onFailure_eq_ok {α : Type} {body : Run α} {handle : Failure → Run Unit} {a : α}
    (h : Run.onFailure body handle w = (.ok a, w')) : body w = (.ok a, w') := by
  unfold Run.onFailure at h
  rw [Run.tryCatch_apply] at h
  rcases hb : body w with ⟨r, w₁⟩
  rw [hb] at h
  cases r with
  | ok b => exact h
  | error f =>
    obtain ⟨_, _, _, h⟩ := Run.bind_eq_ok.1 h
    cases h

theorem observed_eq_ok (h : observed i o w = (.ok (), w')) :
    ∃ w₀ w₁, World.Remarked w w₀ ∧ work i o w₀ = (.ok (), w₁) ∧ World.Remarked w₁ w' := by
  unfold observed at h
  obtain ⟨w₀, w₁, hr₀, h, hr₁⟩ := Run.within_eq_ok h
  obtain ⟨_, w₂, h₂, h⟩ := Run.bind_eq_ok.1 h
  obtain ⟨_, w₃, h₃, h⟩ := Run.bind_eq_ok.1 h
  have hr₂ := Run.Remarks.of_eq (Run.remarks_message _ _) h₂
  have hr₃ := Run.Remarks.of_eq (Run.remarks_message _ _) h
  exact ⟨w₂, w₃, hr₀.trans hr₂, onFailure_eq_ok h₃, hr₃.trans hr₁⟩

theorem execute_eq_exit_zero (h : execute i w = (.ok (.exit 0), w')) :
    ∃ o w₁, Options.resolve i w = (.ok o, w₁) ∧ observed i o w₁ = (.ok (), w') := by
  unfold execute at h
  rw [Run.tryCatch_apply] at h
  split at h
  · next outcome w₁ hx =>
    cases h
    obtain ⟨o, w₁, h₁, hx⟩ := Run.bind_eq_ok.1 hx
    obtain ⟨_, w₂, h₂, hx⟩ := Run.bind_eq_ok.1 hx
    cases hx
    exact ⟨o, w₁, h₁, h₂⟩
  · -- a failure ends with another code, or breaks the command off
    split at h
    · obtain ⟨_, _, _, h⟩ := Run.bind_eq_ok.1 h
      cases h
    · cases h

/-- A command that ends with code zero has resolved its options and done its work. -/
theorem run_eq_exit_zero {arguments : List Text}
    (hi : Invocation.ofArguments? arguments = some i)
    (h : run arguments w = (.exit 0, w')) :
    ∃ o w₁ w₂ w₃, Options.resolve i w = (.ok o, w₁) ∧ World.Remarked w₁ w₂ ∧
      work i o w₂ = (.ok (), w₃) ∧ World.Remarked w₃ w' := by
  unfold run at h
  rw [hi] at h
  rcases he : execute i w with ⟨r, w''⟩
  simp only [he] at h
  cases r with
  | error f => cases h
  | ok outcome =>
    cases h
    obtain ⟨o, w₁, ho, h⟩ := execute_eq_exit_zero he
    obtain ⟨w₂, w₃, hr, hw, hr'⟩ := observed_eq_ok h
    exact ⟨o, w₁, w₂, w₃, ho, hr, hw, hr'⟩

/-- The exit code of a command that ends with one. -/
def Outcome.code? : Outcome → Option Nat
  | .exit code => some code
  | _ => none

theorem run_eq_of_code? {arguments : List Text} {w : World} {code : Nat}
    (h : (run arguments w).1.code? = some code) :
    run arguments w = (.exit code, (run arguments w).2) := by
  refine Prod.ext ?_ rfl
  cases ho : (run arguments w).1 with
  | exit c =>
    rw [ho] at h
    exact congrArg Outcome.exit (Option.some.inj h)
  | usage =>
    rw [ho] at h
    cases h
  | broken f =>
    rw [ho] at h
    cases h

end Command

end CostLens
