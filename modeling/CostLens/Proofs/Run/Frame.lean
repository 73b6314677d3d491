import CostLens.Proofs.Files.Frame
import CostLens.Proofs.Run.Basic

/-! # What a run leaves alone

Most steps of a run read files and leave messages. What such a step does to the world is a row of
messages and changes of context, so the files stay outside the places of the log and nothing is
printed.
-/
namespace CostLens

open FileSystem (Places Keeps Overwrites)

/-- The second world comes from the first one by messages and changes of context. -/
inductive World.Remarked : World → World → Prop
  | refl (w : World) : Remarked w w
  | contexts {w w' : World} (cs : List Context) (h : Remarked w w') :
      Remarked w { w' with log := { w'.log with contexts := cs } }
  | message {w w' : World} (level : Level) (t : Text) (h : Remarked w w') :
      Remarked w (Run.logged w' level t)

theorem World.Remarked.trans {a b c : World} (h : Remarked a b) (h' : Remarked b c) :
    Remarked a c := by
  induction h' with
  | refl => exact h
  | contexts cs _ ih => exact .contexts cs ih
  | message level t _ ih => exact .message level t ih

namespace Run

variable {α β : Type}

/-- Whatever its result, a run only leaves messages. -/
def Remarks (x : Run α) : Prop := ∀ w, World.Remarked w (x w).2

theorem remarks_message (level : Level) (t : Text) : Remarks (message level t) := fun w =>
  .message level t (.refl w)

theorem Remarks.within {x : Run α} (hx : Remarks x) (change : ContextChange) :
    Remarks (within change x) := by
  intro w
  have h := hx { w with log := w.log.enter change }
  exact .contexts _ (World.Remarked.trans (.contexts _ (.refl w)) h)

theorem remarks_messageWith (change : ContextChange) (level : Level) (t : Text) :
    Remarks (messageWith change level t) := (remarks_message level t).within change

theorem Remarks.of_eq {x : Run α} {r : Except Failure α} {w w' : World} (hx : Remarks x)
    (h : x w = (r, w')) : World.Remarked w w' := by
  have hw := hx w
  rwa [h] at hw

/-- A run whose result is known and that only leaves messages, when it succeeds. -/
theorem eq_ok_of_remarked {x : Run α} {r : Except Failure α} {w w' : World} {a : α}
    (hx : (x w).1 = r ∧ World.Remarked w (x w).2) (h : x w = (.ok a, w')) :
    r = .ok a ∧ World.Remarked w w' := by
  rw [h] at hx
  exact ⟨hx.1.symm, hx.2⟩

/-- What happens within a context, messages and the change of context aside. -/
theorem within_eq_ok {change : ContextChange} {x : Run α} {w w' : World} {a : α}
    (h : within change x w = (.ok a, w')) :
    ∃ w₀ w₁, World.Remarked w w₀ ∧ x w₀ = (.ok a, w₁) ∧ World.Remarked w₁ w' := by
  let w₀ : World := { w with log := w.log.enter change }
  obtain ⟨hr, hw⟩ := Prod.mk.inj h
  refine ⟨w₀, (x w₀).2, .contexts _ (.refl w), Prod.ext hr rfl, ?_⟩
  rw [← hw]
  exact .contexts _ (.refl _)

end Run

/-! ## Files -/

/-- The log writes at most to the places `W`. -/
def World.LogsTo (W : Places) (w : World) : Prop :=
  ∀ level names, w.log.channel = .console level (some names) → W names

/-- The files stay outside `W` and `D`, the clock stands still, nothing is printed, and the log
goes where it went. -/
structure World.Framed (W D : Places) (w w' : World) : Prop where
  files : Keeps W D w.files w'.files
  now : w'.now = w.now
  printed : w'.printed = w.printed
  logs : w'.LogsTo W

section Framed
variable {W D : Places} {w w' w'' : World}

theorem World.Framed.refl (D : Places) (h : w.LogsTo W) : w.Framed W D w :=
  ⟨.refl .., rfl, rfl, h⟩

theorem World.Framed.trans (h : w.Framed W D w') (h' : w'.Framed W D w'') : w.Framed W D w'' :=
  ⟨h.files.trans h'.files, h'.now.trans h.now, h'.printed.trans h.printed, h'.logs⟩

theorem ensured_channel {log : Log} {level : Level} {names : List Text}
    (h : log.ensured.channel = .console level (some names)) :
    log.channel = .console level (some names) := by
  unfold Log.ensured at h
  split at h
  · cases h
  · exact h

theorem appendLine_keeps {fs : FileSystem} {names : List Text} (line : Text) (hw : W names) :
    Keeps W D fs (Run.appendLine fs names line) := by
  unfold Run.appendLine
  split
  · next he => exact FileSystem.keeps_put_file hw (by simp [he])
  · exact .refl ..
  · next he => exact FileSystem.keeps_put_file hw (by simp [he])

theorem logged_framed (h : w.LogsTo W) (level : Level) (t : Text) :
    w.Framed W D (Run.logged w level t) := by
  have hlog : ∀ l names, w.log.ensured.channel = .console l (some names) → W names :=
    fun l names he => h l names (ensured_channel he)
  unfold Run.logged
  simp only
  split
  · next shown file hc =>
    refine ⟨?_, rfl, rfl, hlog⟩
    cases file with
    | none => exact .refl ..
    | some names => exact appendLine_keeps _ (hlog _ _ hc)
  · exact ⟨.refl .., rfl, rfl, hlog⟩

theorem World.Remarked.framed (h : Remarked w w') (hw : w.LogsTo W) : w.Framed W D w' := by
  induction h with
  | refl => exact .refl D hw
  | contexts cs _ ih => exact ⟨ih.files, ih.now, ih.printed, ih.logs⟩
  | message level t _ ih => exact ih.trans (logged_framed ih.logs level t)

end Framed

/-- A log that is set up goes on where it goes. -/
theorem World.Remarked.channel {w w' : World} (h : Remarked w w') (hw : w.log.channel ≠ .unset) :
    w'.log.channel = w.log.channel := by
  induction h with
  | refl => rfl
  | contexts cs _ ih => exact ih
  | @message w' level t _ ih =>
    have he : w'.log.ensured = w'.log := if_neg (ih ▸ hw)
    unfold Run.logged
    simp only [he]
    split <;> exact ih

/-! ## What is shown -/

/-- What was printed on the terminal, errors apart. -/
def Event.shown? : Event → Option Report
  | .out r => some r
  | _ => none

/-- The reports that a run printed on the terminal. -/
def World.shown (w : World) : List Report := w.events.filterMap Event.shown?

theorem logged_shown (w : World) (level : Level) (t : Text) :
    (Run.logged w level t).shown = w.shown := by
  unfold Run.logged
  simp only
  split
  · simp only [World.shown]
    split
    · simp [Event.shown?]
    · rfl
  · rfl

theorem World.Remarked.shown {w w' : World} (h : Remarked w w') : w'.shown = w.shown := by
  induction h with
  | refl => rfl
  | contexts cs _ ih => exact ih
  | message level t _ ih => exact (logged_shown _ level t).trans ih

/-! ## A log apart from a file -/

/-- The log file, if there is one, stands in the files, and it is not the one at a path. -/
def World.LogsApart (path : Text) (w : World) : Prop :=
  ∀ level names, w.log.channel = .console level (some names) →
    (∃ content, w.files.entry? names = some (.file content)) ∧ names ≠ w.files.place path

theorem logged_apart {path : Text} {w : World} (h : w.LogsApart path) (level : Level) (t : Text) :
    Overwrites (· ≠ w.files.place path) w.files (Run.logged w level t).files ∧
      (Run.logged w level t).LogsApart path := by
  unfold Run.logged
  simp only
  split
  · next shown file hc =>
    cases file with
    | none =>
      refine ⟨.refl .., fun l names he => ?_⟩
      exact h l names (ensured_channel he)
    | some names =>
      obtain ⟨⟨content, hf⟩, hne⟩ := h _ _ (ensured_channel hc)
      have hnil : names ≠ [] := by
        rintro rfl
        cases hf
      simp only [Run.appendLine, hf]
      generalize content ++ Utf8.encode _ = more
      have ho : Overwrites (· ≠ w.files.place path) w.files
          (w.files.put names (.file more)) := FileSystem.overwrites_put hne hf
      refine ⟨ho, fun l other he => ?_⟩
      have hsame : other = names := by
        rw [hc] at he
        cases he
        rfl
      rw [hsame, ho.place]
      exact ⟨⟨_, FileSystem.entry?_put_self _ _ hnil⟩, hne⟩
  · exact ⟨.refl .., fun l names he => h l names (ensured_channel he)⟩

end CostLens
