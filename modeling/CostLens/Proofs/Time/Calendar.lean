import CostLens.Time.Moment
import Mathlib.Order.Monotone.Basic

/-! # The years that can be written

The date of a day lies in the year that contains the day, and the day of a date that exists lies in
the year of the date. So what a clock shows can be written iff the clock stands between the start of
year one and the end of year 9999.
-/
namespace CostLens

namespace Calendar

/-! ## The year of a day -/

/-- How a day is cut into cycles of four hundred, a hundred and four years, and single years. The
last day of a leap year is the one that has no place in a year of 365 days. -/
theorem exists_cuts (days : Nat) : ∃ cycles centuries quads years rest,
    (Date.ofDays days).year = 400 * cycles + 100 * centuries + 4 * quads + years + 1 ∧
    days = 146097 * cycles + 36524 * centuries + 1461 * quads + 365 * years + rest ∧
    centuries ≤ 3 ∧ quads ≤ 24 ∧ years ≤ 3 ∧
    (rest < 365 ∨ rest = 365 ∧ years = 3 ∧ (quads < 24 ∨ centuries = 3)) := by
  let inCycle := days % 146097
  let centuries := min 3 (inCycle / 36524)
  let inCentury := inCycle - centuries * 36524
  let inQuad := inCentury % 1461
  let years := min 3 (inQuad / 365)
  have hcentury : inCentury < 36524 ∨ inCentury = 36524 ∧ centuries = 3 := by
    have hlt : inCycle < 146097 := Nat.mod_lt _ (by decide)
    omega
  have hyear : inQuad - years * 365 < 365 ∨ inQuad - years * 365 = 365 ∧ years = 3 := by
    have hlt : inQuad < 1461 := Nat.mod_lt _ (by decide)
    omega
  refine ⟨days / 146097, centuries, inCentury / 1461, years, inQuad - years * 365, rfl, ?_,
    Nat.min_le_left .., ?_, Nat.min_le_left .., ?_⟩
  · omega
  · omega
  · omega

theorem daysBeforeYear_mono : Monotone daysBeforeYear := by
  apply monotone_nat_of_le_succ
  intro year
  simp only [daysBeforeYear]
  omega

theorem daysBeforeYear_year_le (days : Nat) : daysBeforeYear (Date.ofDays days).year ≤ days := by
  obtain ⟨cycles, centuries, quads, years, rest, hyear, hdays, hc, hq, hy, -⟩ := exists_cuts days
  rw [hyear, daysBeforeYear]
  omega

theorem lt_daysBeforeYear_year (days : Nat) :
    days < daysBeforeYear ((Date.ofDays days).year + 1) := by
  obtain ⟨cycles, centuries, quads, years, rest, hyear, hdays, hc, hq, hy, hrest⟩ :=
    exists_cuts days
  rw [hyear, daysBeforeYear]
  omega

theorem isYear_ofDays_iff (days : Nat) :
    isYear (Date.ofDays days).year = true ↔ days < daysBeforeYear 10000 := by
  have hle := daysBeforeYear_year_le days
  have hlt := lt_daysBeforeYear_year days
  have hpos : 1 ≤ (Date.ofDays days).year := Nat.le_add_left ..
  rw [isYear, Bool.and_eq_true, decide_eq_true_eq, decide_eq_true_eq, and_iff_right hpos]
  constructor
  · intro h
    exact hlt.trans_le (daysBeforeYear_mono (by omega))
  · intro h
    by_contra hlate
    have hmono := daysBeforeYear_mono (show 10000 ≤ (Date.ofDays days).year by omega)
    omega

/-! ## The day of a date -/

theorem daysBeforeMonth_succ (year : Nat) {month : Nat} (h : 1 ≤ month) :
    daysBeforeMonth year (month + 1) = daysBeforeMonth year month + monthLength year month := by
  obtain ⟨m, rfl⟩ := Nat.exists_eq_add_of_le' h
  simp [daysBeforeMonth, List.range_succ]

theorem daysBeforeMonth_mono (year : Nat) : Monotone (daysBeforeMonth year) := by
  apply monotone_nat_of_le_succ
  intro month
  rcases Nat.eq_zero_or_pos month with rfl | h
  · exact Nat.le_refl _
  · rw [daysBeforeMonth_succ year h]
    exact Nat.le_add_right ..

theorem daysBeforeMonth_end (year : Nat) :
    daysBeforeMonth year 13 = if isLeap year then 366 else 365 := by
  have hmonths : daysBeforeMonth year 13 = 337 + monthLength year 2 := by
    simp [daysBeforeMonth, monthLength, List.range_succ]
    omega
  rw [hmonths, monthLength]
  split <;> rfl

theorem daysBeforeYear_succ {year : Nat} (h : 1 ≤ year) :
    daysBeforeYear (year + 1) = daysBeforeYear year + daysBeforeMonth year 13 := by
  obtain ⟨y, rfl⟩ := Nat.exists_eq_add_of_le' h
  have hleap : isLeap (y + 1) = true ↔ 4 ∣ y + 1 ∧ (¬ 100 ∣ y + 1 ∨ 400 ∣ y + 1) := by
    simp [isLeap, Nat.dvd_iff_mod_eq_zero]
  have h100 : 100 ∣ y + 1 → 4 ∣ y + 1 := Nat.dvd_trans (by decide)
  have h400 : 400 ∣ y + 1 → 100 ∣ y + 1 := Nat.dvd_trans (by decide)
  have hle : y / 100 ≤ y / 4 := Nat.div_le_div_left (by decide) (by decide)
  rw [daysBeforeMonth_end, daysBeforeYear, daysBeforeYear]
  simp only [Nat.add_sub_cancel, Nat.succ_div, hleap]
  by_cases hfour : 4 ∣ y + 1
  · by_cases hhundred : 100 ∣ y + 1
    · by_cases hcycle : 400 ∣ y + 1
      · simp only [hfour, hhundred, hcycle, if_true, and_true, or_true]
        omega
      · simp only [hfour, hhundred, hcycle, if_true, if_false, not_true, or_self, and_false]
        omega
    · simp only [hfour, hhundred, mt h400 hhundred, if_true, if_false, not_false_eq_true, true_or,
        and_self]
      omega
  · simp only [hfour, mt h100 hfour, mt h400 (mt h100 hfour), if_false, false_and]
    omega

section Valid
variable {d : Date} (h : d.isValid = true)
include h

theorem one_le_dayOfYear : 1 ≤ d.dayOfYear := by
  simp only [Date.isValid, Bool.and_eq_true, decide_eq_true_eq] at h
  rw [Date.dayOfYear]
  omega

theorem dayOfYear_le : d.dayOfYear ≤ daysBeforeMonth d.year (d.month + 1) := by
  simp only [Date.isValid, Bool.and_eq_true, decide_eq_true_eq] at h
  rw [daysBeforeMonth_succ d.year h.1.1.1.2, Date.dayOfYear]
  omega

theorem toDays_lt_of_year : d.toDays < daysBeforeYear (d.year + 1) := by
  have hlow := one_le_dayOfYear h
  have hhigh := dayOfYear_le h
  simp only [Date.isValid, isYear, Bool.and_eq_true, decide_eq_true_eq] at h
  have hmonth := daysBeforeMonth_mono d.year (show d.month + 1 ≤ 13 by omega)
  rw [daysBeforeYear_succ h.1.1.1.1.1, Date.toDays]
  omega

theorem toDays_lt : d.toDays < daysBeforeYear 10000 := by
  have hlt := toDays_lt_of_year h
  simp only [Date.isValid, isYear, Bool.and_eq_true, decide_eq_true_eq] at h
  exact hlt.trans_le (daysBeforeYear_mono (by omega))

/-- The first day of all. -/
theorem toDays_eq_zero_iff : d.toDays = 0 ↔ d = ⟨1, 1, 1⟩ := by
  constructor
  · intro hzero
    have hlow := one_le_dayOfYear h
    simp only [Date.isValid, isYear, Bool.and_eq_true, decide_eq_true_eq] at h
    rw [Date.toDays] at hzero
    have hyear : d.year = 1 := by
      by_contra hne
      have hmono := daysBeforeYear_mono (show 2 ≤ d.year by omega)
      have hfirst : daysBeforeYear 2 = 365 := by rfl
      omega
    have hmonth : d.month = 1 := by
      by_contra hne
      have hmono := daysBeforeMonth_mono d.year (show 2 ≤ d.month by omega)
      have hfirst : daysBeforeMonth d.year 2 = 31 := by rfl
      rw [Date.dayOfYear] at hzero
      omega
    have hday : d.day = 1 := by
      rw [Date.dayOfYear] at hzero hlow
      omega
    exact Date.mk.injEq .. ▸ ⟨hyear, hmonth, hday⟩
  · rintro rfl
    rfl

/-- The last day that can be written. -/
theorem toDays_eq_last_iff : d.toDays + 1 = daysBeforeYear 10000 ↔ d = ⟨9999, 12, 31⟩ := by
  constructor
  · intro hlast
    have hlow := one_le_dayOfYear h
    have hhigh := dayOfYear_le h
    have hlt := toDays_lt_of_year h
    simp only [Date.isValid, isYear, Bool.and_eq_true, decide_eq_true_eq] at h
    have hyear : d.year = 9999 := by
      by_contra hne
      have hmono := daysBeforeYear_mono (show d.year + 1 ≤ 9999 by omega)
      have hend : daysBeforeYear 10000 = daysBeforeYear 9999 + 365 := by rfl
      omega
    have hend : daysBeforeYear 10000 = daysBeforeYear d.year + 365 := by
      rw [hyear]
      rfl
    rw [Date.toDays] at hlast
    have hmonth : d.month = 12 := by
      by_contra hne
      have hmono := daysBeforeMonth_mono d.year (show d.month + 1 ≤ 12 by omega)
      have hlong : daysBeforeMonth d.year 12 = 334 := by
        rw [hyear]
        rfl
      omega
    have hday : d.day = 31 := by
      have hlong : d.dayOfYear = 334 + d.day := by
        rw [Date.dayOfYear, hyear, hmonth]
        rfl
      omega
    exact Date.mk.injEq .. ▸ ⟨hyear, hmonth, hday⟩
  · rintro rfl
    rfl

end Valid

end Calendar

namespace Moment

open Calendar

/-- A number of microseconds from the start of year one that falls into the years that can be
written. -/
def InYears (n : Int) : Prop := 0 ≤ n ∧ n < daysBeforeYear 10000 * microsPerDay

/-- The microseconds from midnight. -/
def timeOfDay (m : Moment) : Nat :=
  (3600 * m.hour + 60 * m.minute + m.second) * microsPerSecond + m.micro

/-- A clock that is moved by an offset from the first day back, or from the last day on. -/
def Leaves (m : Moment) (offset : Int) : Prop :=
  m.date = ⟨1, 1, 1⟩ ∧ m.timeOfDay + offset < 0 ∨
    m.date = ⟨9999, 12, 31⟩ ∧ microsPerDay ≤ m.timeOfDay + offset

theorem isSome_atOffset?_iff (m : Moment) (offset : Int) :
    (m.atOffset? offset).isSome ↔ InYears (m.micros + offset) := by
  unfold atOffset? InYears
  by_cases hneg : m.micros + offset < 0
  · simp only [if_pos hneg, Option.isSome_none, Bool.false_eq_true, false_iff]
    omega
  · obtain ⟨n, hn⟩ := Int.eq_ofNat_of_zero_le (not_lt.1 hneg)
    have hdate : (ofWallMicros n (some offset)).date = Date.ofDays (n / microsPerDay) := by rfl
    have hyear := isYear_ofDays_iff (n / microsPerDay)
    rw [Nat.div_lt_iff_lt_mul (by decide)] at hyear
    have hpos : ¬ (n : Int) < 0 := by omega
    simp only [hn, if_neg hpos, Int.toNat_natCast, hdate]
    split
    · next hy =>
      have hlt := hyear.1 hy
      simp only [Option.isSome_some, true_iff]
      omega
    · next hy =>
      have hlt := mt hyear.2 hy
      simp only [Option.isSome_none, Bool.false_eq_true, false_iff]
      omega

theorem timeOfDay_lt {m : Moment} (h : m.isValid = true) : m.timeOfDay < microsPerDay := by
  simp only [isValid, Bool.and_eq_true, decide_eq_true_eq] at h
  rw [timeOfDay, microsPerDay]
  rw [microsPerSecond] at h ⊢
  omega

theorem inYears_iff {m : Moment} (h : m.isValid = true) {offset : Int}
    (ho : offset.natAbs < microsPerDay) : InYears (m.wallMicros + offset) ↔ ¬ m.Leaves offset := by
  have hdate : m.date.isValid = true := by
    simp only [isValid, Bool.and_eq_true] at h
    exact h.1.1.1.1.1
  have hwall : m.wallMicros = (m.date.toDays * microsPerDay + m.timeOfDay : Nat) := by
    rw [wallMicros, timeOfDay, Nat.add_assoc]
  have hlt := toDays_lt hdate
  have htime := timeOfDay_lt h
  have hend : daysBeforeYear 10000 = 3652059 := by rfl
  rw [Leaves, InYears, ← toDays_eq_zero_iff hdate, ← toDays_eq_last_iff hdate, hwall]
  rw [hend] at hlt ⊢
  rw [microsPerDay, microsPerSecond] at ho htime ⊢
  omega

end Moment

end CostLens
