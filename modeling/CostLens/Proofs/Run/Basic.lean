import CostLens.Run

/-! # Runs step by step

A run is a function from a world to a result and a world. The equations below say what each way of
putting runs together does to that pair, and what a run that succeeded must have done before.
-/
namespace CostLens

theorem exists_of_bind_eq_ok {ε α β : Type} {x : Except ε α} {f : α → Except ε β} {b : β}
    (h : (x >>= f) = .ok b) : ∃ a, x = .ok a ∧ f a = .ok b := by
  cases x with
  | error e => cases h
  | ok a => exact ⟨a, rfl, h⟩

theorem mapError_ok {ε ε' α : Type} (f : ε → ε') (a : α) :
    (Except.ok a : Except ε α).mapError f = .ok a := rfl

theorem eq_ok_of_toOption {ε α : Type} {x : Except ε α} {a : α} (h : x.toOption = some a) :
    x = .ok a := by
  cases x with
  | error e => cases h
  | ok b => exact congrArg Except.ok (Option.some.inj h)

theorem bind_stateful_apply {ε σ α β : Type} (x : ExceptT ε (StateM σ) α)
    (f : α → ExceptT ε (StateM σ) β) (s : σ) :
    (x >>= f) s = match x s with
      | (.ok a, s') => f a s'
      | (.error e, s') => (.error e, s') := by
  change (ExceptT.bind x f) s = _
  simp only [ExceptT.bind, ExceptT.mk, bind, StateT.bind]
  rcases x s with ⟨r, s'⟩
  cases r <;> rfl

namespace Run

variable {α β : Type}

@[simp] theorem pure_apply (a : α) (w : World) : (pure a : Run α) w = (.ok a, w) := rfl

@[simp] theorem fail_apply (f : Failure) (w : World) : (fail f : Run α) w = (.error f, w) := rfl

@[simp] theorem get_apply (w : World) : (get : Run World) w = (.ok w, w) := rfl

@[simp] theorem modify_apply (f : World → World) (w : World) :
    (modify f : Run Unit) w = (.ok (), f w) := rfl

@[simp] theorem files_apply (w : World) : files w = (.ok w.files, w) := rfl

@[simp] theorem setFiles_apply (fs : FileSystem) (w : World) :
    setFiles fs w = (.ok (), { w with files := fs }) := rfl

@[simp] theorem emit_apply (e : Event) (w : World) :
    emit e w = (.ok (), { w with events := w.events ++ [e] }) := rfl

@[simp] theorem message_apply (level : Level) (t : Text) (w : World) :
    message level t w = (.ok (), logged w level t) := rfl

@[simp] theorem ofExcept_ok (a : α) (w : World) : ofExcept (.ok a) w = (.ok a, w) := rfl

theorem bind_apply (x : Run α) (f : α → Run β) (w : World) :
    (x >>= f) w = match x w with
      | (.ok a, w') => f a w'
      | (.error e, w') => (.error e, w') := by
  rw [bind_stateful_apply]
  rcases x w with ⟨r, w'⟩
  cases r <;> rfl

theorem bind_of_ok {x : Run α} {f : α → Run β} {w w' : World} {a : α} (h : x w = (.ok a, w')) :
    (x >>= f) w = f a w' := by
  rw [bind_apply, h]

theorem bind_of_error {x : Run α} {f : α → Run β} {w w' : World} {e : Failure}
    (h : x w = (.error e, w')) : (x >>= f) w = (.error e, w') := by
  rw [bind_apply, h]

theorem bind_eq_ok {x : Run α} {f : α → Run β} {w w'' : World} {b : β} :
    (x >>= f) w = (.ok b, w'') ↔ ∃ a w', x w = (.ok a, w') ∧ f a w' = (.ok b, w'') := by
  rw [bind_apply]
  constructor
  · intro h
    split at h
    · next a w' hx => exact ⟨a, w', hx, h⟩
    · cases h
  · rintro ⟨a, w', hx, h⟩
    rw [hx]
    exact h

theorem ofExcept_bind_eq_ok {x : Except Failure α} {f : α → Run β} {w w' : World} {b : β}
    (h : (ofExcept x >>= f) w = (.ok b, w')) : ∃ a, x = .ok a ∧ f a w = (.ok b, w') := by
  cases x with
  | error e => cases h
  | ok a => exact ⟨a, rfl, h⟩

theorem tryCatch_apply (x : Run α) (handle : Failure → Run α) (w : World) :
    (tryCatch x handle) w = match x w with
      | (.ok a, w') => (.ok a, w')
      | (.error e, w') => handle e w' := by
  change (ExceptT.tryCatch x handle) w = _
  simp only [ExceptT.tryCatch, ExceptT.mk, bind, StateT.bind]
  rcases x w with ⟨r, w'⟩
  cases r <;> rfl

/-- A run of which only the result is known. -/
theorem eq_ok_of_toOption {x : Run α} {w : World} {a : α} (h : (x w).1.toOption = some a) :
    x w = (.ok a, (x w).2) := Prod.ext (CostLens.eq_ok_of_toOption h) rfl

end Run

end CostLens
