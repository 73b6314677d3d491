import CostLens.Proofs.Run.Reading

/-! # How far a run reaches

A footprint bounds what a run may change: the files it may write and the directories it may make.
That a run stays within a footprint, whatever its result, is put together from its steps. Along
with it goes what is known of the result: a property of the values and one of the failures.
-/
namespace CostLens

open FileSystem (Places Keeps)

/-- The files at first, the places where files may be written, and those where directories may be
made. -/
structure Footprint where
  files : FileSystem
  written : Places
  made : Places

/-- A world that differs from the first files within a footprint only, with a log that stays within
it. -/
structure World.Within (b : Footprint) (w : World) : Prop where
  files : Keeps b.written b.made b.files w.files
  logs : w.LogsTo b.written

section Within
variable {b c : Footprint} {w w' : World}

theorem World.Within.framed (h : w.Within b) (hf : w.Framed b.written b.made w') : w'.Within b :=
  ⟨h.files.trans hf.files, hf.logs⟩

theorem World.Within.remarked (h : w.Within b) (hr : World.Remarked w w') : w'.Within b :=
  h.framed (hr.framed h.logs)

/-- A wider footprint over the same files. -/
structure Footprint.Le (b c : Footprint) : Prop where
  files : c.files = b.files
  written : ∀ n, b.written n → c.written n
  made : ∀ n, b.made n → c.made n

theorem World.Within.mono (h : w.Within b) (hbc : b.Le c) : w.Within c := by
  refine ⟨?_, fun level names hc => hbc.written _ (h.logs level names hc)⟩
  rw [hbc.files]
  exact h.files.mono hbc.written hbc.made

end Within

/-- A property of a result: `E` of a failure, `Q` of a value. -/
def Ends {α : Type} (E : Failure → Prop) (Q : α → Prop) : Except Failure α → Prop
  | .ok a => Q a
  | .error f => E f

namespace Run

/-- A result as it should be, in a world within a footprint. -/
structure EndsWithin {α : Type} (b : Footprint) (E : Failure → Prop) (Q : α → Prop)
    (p : Except Failure α × World) : Prop where
  world : p.2.Within b
  result : Ends E Q p.1

/-- A run that stays within a footprint and ends as it should. -/
def Confines {α : Type} (b : Footprint) (E : Failure → Prop) (Q : α → Prop) (x : Run α) : Prop :=
  ∀ w, w.Within b → EndsWithin b E Q (x w)

section Confines
variable {α β : Type} {b : Footprint} {E E' : Failure → Prop} {Q : α → Prop} {R : β → Prop}

theorem confines_pure {a : α} (h : Q a) : Confines b E Q (pure a) := fun _ hw => ⟨hw, h⟩

theorem confines_fail {f : Failure} (h : E f) : Confines b E Q (fail f) := fun _ hw => ⟨hw, h⟩

theorem confines_ofExcept {r : Except Failure α} (h : Ends E Q r) :
    Confines b E Q (ofExcept r) := by
  cases r with
  | ok a => exact confines_pure h
  | error f => exact confines_fail h

theorem confines_ofExcept_any (r : Except Failure α) :
    Confines b (fun _ => True) (fun _ => True) (ofExcept r) := by
  apply confines_ofExcept
  cases r <;> trivial

theorem confines_message (level : Level) (t : Text) :
    Confines b E (fun _ => True) (message level t) := fun _ hw =>
  ⟨hw.remarked (remarks_message level t _), trivial⟩

theorem confines_emit (e : Event) : Confines b E (fun _ => True) (emit e) := fun _ hw =>
  ⟨⟨hw.files, hw.logs⟩, trivial⟩

theorem confines_print (t : Text) : Confines b E (fun _ => True) (print t) := fun _ hw =>
  ⟨⟨hw.files, hw.logs⟩, trivial⟩

theorem confines_of_remarks {x : Run α} (hx : Remarks x) :
    Confines b (fun _ => True) (fun _ => True) x := by
  intro w hw
  refine ⟨hw.remarked (hx w), ?_⟩
  cases (x w).1 <;> trivial

theorem Confines.bind {x : Run α} {f : α → Run β} (hx : Confines b E Q x)
    (hf : ∀ a, Q a → Confines b E R (f a)) : Confines b E R (x >>= f) := by
  intro w hw
  obtain ⟨hw', hr⟩ := hx w hw
  rw [bind_apply]
  rcases he : x w with ⟨r, w'⟩
  rw [he] at hw' hr
  cases r with
  | ok a => exact hf a hr w' hw'
  | error e => exact ⟨hw', hr⟩

theorem Confines.tryCatch {x : Run α} {handle : Failure → Run α} (hx : Confines b E Q x)
    (hh : ∀ f, E f → Confines b E' Q (handle f)) : Confines b E' Q (tryCatch x handle) := by
  intro w hw
  obtain ⟨hw', hr⟩ := hx w hw
  rw [tryCatch_apply]
  rcases he : x w with ⟨r, w'⟩
  rw [he] at hw' hr
  cases r with
  | ok a => exact ⟨hw', hr⟩
  | error e => exact hh e hr w' hw'

theorem Confines.within {x : Run α} (hx : Confines b E Q x) (change : ContextChange) :
    Confines b E Q (within change x) := by
  intro w hw
  obtain ⟨hw', hr⟩ := hx { w with log := w.log.enter change } ⟨hw.files, hw.logs⟩
  exact ⟨⟨hw'.files, hw'.logs⟩, hr⟩

end Confines

end Run

end CostLens
