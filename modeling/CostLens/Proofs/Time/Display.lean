import CostLens.Proofs.Time.Calendar
import CostLens.Proofs.Time.Reading
import CostLens.Report.Views

/-! # When a moment cannot be displayed

A text that spells no moment is displayed as unknown, and a moment without an offset as it is. What
has an offset is displayed by another clock, in universal time, or for its age by the clock of its
own offset, and that clock may stand outside the years that can be written.
-/
namespace CostLens

open Moment

namespace Moment

variable {m now : Moment} {o : Int}

theorem isValid_of_read? {t : Text} (h : read? t = some m) : m.isValid = true := by
  unfold read? at h
  split at h
  · cases h
  · split at h
    · split at h
      · next hv =>
        cases h
        exact hv
      · cases h
    · cases h

/-- In universal time a moment stands behind its own clock by its offset. -/
theorem displayed?_eq_none_iff (h : m.isValid = true) :
    m.displayed? = none ↔ ∃ o, m.offset = some o ∧ m.Leaves (-o) := by
  cases ho : m.offset with
  | none => simp [displayed?, ho]
  | some o =>
    have hopposite : (-o).natAbs < microsPerDay := o.natAbs_neg.symm ▸ offset_lt h ho
    have hmicros : m.micros + 0 = m.wallMicros + -o := by
      rw [micros, ho, Option.getD_some]
      omega
    have hyears := inYears_iff h hopposite
    rw [← hmicros, ← isSome_atOffset?_iff] at hyears
    rw [displayed?, ho]
    simp [toUniversal?, ← Option.not_isSome_iff_eq_none, hyears]

theorem age?_eq_none_iff (h : m.isValid = true) (hnow : now.isValid = true)
    (huniversal : now.offset.getD 0 = 0) :
    age? now m = none ↔ ∃ o, m.offset = some o ∧ now.Leaves o := by
  cases ho : m.offset with
  | none => simp [age?, ho]
  | some o =>
    have hmicros : now.micros + o = now.wallMicros + o := by
      rw [micros, huniversal, Int.sub_zero]
    have hyears := inYears_iff hnow (offset_lt h ho)
    rw [← hmicros, ← isSome_atOffset?_iff] at hyears
    rw [age?, ho]
    simp [← Option.not_isSome_iff_eq_none, hyears]

end Moment

namespace View

variable {stored : Text} {now : Moment} {f : Failure}

theorem captured_eq_error_iff {format : Text} : captured (.str format) stored = .error f ↔
    f = .outOfYears ∧ ∃ m o, read? stored = some m ∧ m.offset = some o ∧ m.Leaves (-o) := by
  unfold captured
  cases hread : read? stored with
  | none => simp
  | some m =>
    have hshown := displayed?_eq_none_iff (isValid_of_read? hread)
    simp only [Option.some.injEq, exists_and_left, exists_eq_left', ← hshown]
    cases m.displayed? <;> simp [eq_comm]

theorem age_eq_error_iff (hnow : now.isValid = true) (huniversal : now.offset.getD 0 = 0) :
    age now stored = .error f ↔
      f = .outOfYears ∧ ∃ m o, read? stored = some m ∧ m.offset = some o ∧ now.Leaves o := by
  unfold age
  cases hread : read? stored with
  | none => simp
  | some m =>
    have haged := age?_eq_none_iff (isValid_of_read? hread) hnow huniversal
    simp only [Option.some.injEq, exists_and_left, exists_eq_left', ← haged]
    cases age? now m <;> simp [eq_comm]

/-- A stored text that spells no moment is displayed as unknown. For any other one the display
fails for a moment with an offset that universal time takes out of the years that can be written,
and the age fails for one whose offset takes the clock out of them. Nothing else fails, and there is
no other failure. -/
theorem fails_iff_leaves (format stored : Text) {now : Moment} (hnow : now.isValid = true)
    (huniversal : now.offset.getD 0 = 0) :
    (read? stored = none →
      captured (.str format) stored = .ok unknown ∧ age now stored = .ok unknown) ∧
    (∀ f, captured (.str format) stored = .error f ↔ f = .outOfYears ∧
      ∃ m o, read? stored = some m ∧ m.offset = some o ∧ m.Leaves (-o)) ∧
    (∀ f, age now stored = .error f ↔ f = .outOfYears ∧
      ∃ m o, read? stored = some m ∧ m.offset = some o ∧ now.Leaves o) := by
  refine ⟨fun hread => ?_, fun f => captured_eq_error_iff, fun f => ?_⟩
  · rw [captured, age, hread]
    exact ⟨rfl, rfl⟩
  · exact age_eq_error_iff hnow huniversal

/-- The first hour of all, by a clock that is an hour ahead. -/
def firstHour : Moment := { date := ⟨1, 1, 1⟩, offset := some (3600 * microsPerSecond) }

def firstHourText : Text := "0001-01-01T00:00:00+01:00"

/-- The last hour of all. -/
def lastHour : Moment := { date := ⟨9999, 12, 31⟩, hour := 23, offset := some 0 }

theorem fails_iff_leaves_firstHour :
    captured (.str "%H:%M:%S") firstHourText = .error .outOfYears ∧
      age lastHour firstHourText = .error .outOfYears := by
  have hread : read? firstHourText = some firstHour := by
    have htext : firstHourText = firstHour.text := by decide
    rw [htext]
    exact read?_text (by decide) (by decide)
  have hnow : lastHour.isValid = true := by decide
  obtain ⟨-, hcaptured, hage⟩ := fails_iff_leaves "%H:%M:%S" firstHourText hnow rfl
  constructor
  · exact (hcaptured _).2 ⟨rfl, _, _, hread, rfl, .inl ⟨rfl, by decide⟩⟩
  · exact (hage _).2 ⟨rfl, _, _, hread, rfl, .inr ⟨rfl, by decide⟩⟩

end View

end CostLens
