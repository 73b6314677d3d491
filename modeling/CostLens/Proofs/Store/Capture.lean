import CostLens.Proofs.Store.Session
import CostLens.Proofs.Time.Calendar
import CostLens.Proofs.Time.Reading
import CostLens.Report.Views

/-! # Recorded moments

The moment that a verdict is recorded with stands in the store as a text. That text is read back as
the same moment, so it is displayed as the moment itself would be, and so is the text that a store
has when it is opened again.
-/
namespace CostLens

open Moment

namespace Moment

/-- A text that keeps a moment: it spells the moment, is displayed by every format as the moment is,
and has an age that is known, unless the clock leaves the years that can be written. -/
structure KeptBy (m : Moment) (t : Text) : Prop where
  read : read? t = some m
  shown : ∃ d, m.displayed? = some d ∧
    ∀ format, View.captured (.str format) t = .ok (d.formatted format)
  known : ∀ now, View.age now t ≠ .ok unknown
  aged : ∀ now, InYears (now.micros + m.offset.getD 0) → ∃ a, View.age now t = .ok a

theorem ageText_ne_unknown (seconds : Int) : ageText seconds ≠ unknown := by
  have hlong : ∀ (number : Text) (unit : Char), number ++ [unit, ' ', 'a', 'g', 'o'] ≠ ['?'] := by
    intro number unit h
    have hlength := congrArg List.length h
    simp at hlength
  unfold ageText
  split
  · exact hlong _ 's'
  split
  · exact hlong _ 'm'
  split
  · exact hlong _ 'h'
  · exact hlong _ 'd'

variable {m : Moment}

theorem exists_displayed (h : InYears m.micros) : ∃ d, m.displayed? = some d := by
  cases ho : m.offset with
  | none => exact ⟨m, by rw [displayed?, ho]⟩
  | some o =>
    have hyears : InYears (m.micros + 0) := by rwa [Int.add_zero]
    obtain ⟨d, hd⟩ := Option.isSome_iff_exists.1 ((isSome_atOffset?_iff m 0).2 hyears)
    exact ⟨d, by rw [displayed?, ho]; exact hd⟩

theorem age?_ne_unknown (now : Moment) : age? now m ≠ some unknown := by
  unfold age?
  cases m.offset with
  | none => simpa using ageText_ne_unknown _
  | some o => simp [ageText_ne_unknown]

theorem exists_age {now : Moment} (h : InYears (now.micros + m.offset.getD 0)) :
    ∃ a, age? now m = some a := by
  cases ho : m.offset with
  | none => exact ⟨_, by rw [age?, ho]⟩
  | some o =>
    rw [ho, Option.getD_some, ← isSome_atOffset?_iff] at h
    obtain ⟨n, hn⟩ := Option.isSome_iff_exists.1 h
    exact ⟨ageText (secondsBetween m n), by simp only [age?, ho, hn, Option.map_some]⟩

theorem keptBy_text (hvalid : m.isValid = true)
    (hwhole : ∀ o ∈ m.offset, o.natAbs % microsPerSecond = 0) (hyears : InYears m.micros) :
    m.KeptBy m.text := by
  have hread := read?_text hvalid hwhole
  obtain ⟨d, hd⟩ := exists_displayed hyears
  refine ⟨hread, ⟨d, hd, fun format => ?_⟩, fun now h => ?_, fun now h => ?_⟩
  · simp only [View.captured, hread, hd]
  · cases ha : age? now m with
    | none =>
      have hage : View.age now m.text = .error .outOfYears := by simp only [View.age, hread, ha]
      cases hage.symm.trans h
    | some a =>
      have hage : View.age now m.text = .ok a := by simp only [View.age, hread, ha]
      cases hage.symm.trans h
      exact age?_ne_unknown now ha
  · obtain ⟨a, ha⟩ := exists_age h
    exact ⟨a, by simp only [View.age, hread, ha]⟩

end Moment

namespace Store

theorem get?_put_self (s : Store) (r : Record) : (s.put r).get? r.key = some r := by
  change (insert r s.records).find? (fun r' => r'.key == r.key) = some r
  induction s.records with
  | nil => simp [insert]
  | cons s rs ih =>
    rw [insert]
    split
    · simp
    · next h => rwa [List.find?_cons, beq_false_of_ne h]

/-- Recording gives a result and a store that has the record, whether it could be saved or not. -/
theorem exists_record (s : Store) (key : Key) (time space : Json) (captured : Option Moment)
    (w : World) : ∃ result w',
    s.record key time space captured w =
        (.ok (result, s.put ⟨key, time, space, (captured.getD w.now).text⟩), w') ∧
      ∀ r, result = .ok r → r = ⟨key, time, space, (captured.getD w.now).text⟩ := by
  rw [record_apply]
  rcases hs : (s.put ⟨key, time, space, (captured.getD w.now).text⟩).save w with ⟨result, w₁⟩
  simp only [hs]
  cases result with
  | error f => exact ⟨_, _, rfl, nofun⟩
  | ok u => exact ⟨_, _, rfl, fun r hr => (Except.ok.inj hr).symm⟩

/-- The moment that a verdict is recorded with is kept by the timestamp of the record. If it was
saved, then opening the store again gives a store with the same record. -/
theorem captured_kept {m : Moment} (hvalid : m.isValid = true)
    (hwhole : ∀ o ∈ m.offset, o.natAbs % microsPerSecond = 0) (hyears : InYears m.micros)
    (s : Store) (key : Key) (time space : Text) (w : World) :
    ∃ r result s' w',
      s.record key (.str time) (.str space) (some m) w = (.ok (result, s'), w') ∧
      (∀ r', result = .ok r' → r' = r) ∧ s'.get? key = some r ∧ m.KeptBy r.timestamp ∧
      ∀ path h, Remembers path h s → w.LogsApart path.text → Json.IsShort key.line →
        result = .ok r → ∀ w₂, w₂.files = w'.files → (load path w₂).1 = .ok s' := by
  obtain ⟨result, w', hrecord, hresult⟩ := exists_record s key (.str time) (.str space) (some m) w
  refine ⟨_, result, _, w', hrecord, hresult, get?_put_self _ _, ?_, ?_⟩
  · exact keptBy_text hvalid hwhole hyears
  · intro path h hs apart short hok w₂ hfiles
    rw [hok] at hrecord
    obtain ⟨-, hkept⟩ := hs.recorded apart short hrecord
    rw [load_fst, hfiles, hkept.file]

/-- A moment long ago, with a fraction, by a clock that is behind by an offset with seconds. -/
def oddMoment : Moment where
  date := ⟨1583, 2, 9⟩
  hour := 23
  minute := 59
  second := 5
  micro := 70
  offset := some (-19815000000)

theorem captured_kept_saved : ∃ r s' w',
    record { path := some Session.startPath } Session.oddKey (.str "O(n)") (.str "O(1)")
        (some oddMoment) Session.startWorld = (.ok (.ok r, s'), w') ∧
      (load Session.startPath w').1 = .ok s' ∧ s'.get? Session.oddKey = some r ∧
      read? r.timestamp = some oddMoment := by
  let s : Store := { path := some Session.startPath }
  let recording := s.record Session.oddKey (.str "O(n)") (.str "O(1)") (some oddMoment)
  have hsaved : (recording Session.startWorld).1.toOption.map (·.1.toOption.isSome) =
      some true := by decide +kernel
  have hs : Remembers Session.startPath [] s := ⟨rfl, rfl, nofun⟩
  have hyears : InYears oddMoment.micros := ⟨by decide, by decide⟩
  obtain ⟨r, result, s', w', hrecord, hresult, hget, hkept, hload⟩ :=
    captured_kept (by decide) (by decide) hyears s Session.oddKey "O(n)" "O(1)" Session.startWorld
  change recording Session.startWorld = _ at hrecord
  rw [hrecord] at hsaved
  cases result with
  | error f => cases hsaved
  | ok r' =>
    obtain rfl := hresult r' rfl
    have hopened := hload _ _ hs (fun _ _ h => nomatch h) (by decide) rfl w' rfl
    exact ⟨r', s', w', hrecord, hopened, hget, hkept.read⟩

end Store

end CostLens
