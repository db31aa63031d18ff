import Mathlib

/-!
# The Gregorian calendar

Days are numbered from 1 January 1970. Months are counted from 0 and years from 1900, as in C's
broken-down time. The year is taken to begin in March, so that a leap day is its last day.
-/
namespace Octo.Foundation

/-- A year, a month and a day of the month, which need not be in range. -/
structure CivilDate where
  year : Int
  mon : Int
  mday : Int
  deriving DecidableEq, Repr

/-- The days before a year that begins in March. -/
def daysBefore (march : Int) : Int :=
  365 * march + march / 4 - march / 100 + march / 400

/-- The number of a day. -/
def CivilDate.dayNumber (date : CivilDate) : Int :=
  daysBefore (date.year + 1900 + (date.mon - 2) / 12) + (153 * ((date.mon - 2) % 12) + 2) / 5 +
    date.mday - 719469

/-- The year that begins in March, and the number of a day in it: the last century of four and the
last year of four are one day longer. -/
def yearAndDay (day : Int) : Int × Int :=
  let century := min 3 (day % 146097 / 36524)
  let dayOfCentury := day % 146097 - 36524 * century
  let year := min 3 (dayOfCentury % 1461 / 365)
  (400 * (day / 146097) + 100 * century + 4 * (dayOfCentury / 1461) + year,
    dayOfCentury % 1461 - 365 * year)

/-- The date of the day with a number. -/
def civilDate (day : Int) : CivilDate :=
  let (march, dayOfYear) := yearAndDay (day + 719468)
  let month := (5 * dayOfYear + 2) / 153
  ⟨march + (month + 2) / 12 - 1900, (month + 2) % 12, dayOfYear - (153 * month + 2) / 5 + 1⟩

theorem daysBefore_eq (era : Int) {century quad year : Int} (centuries : 0 ≤ century ∧ century ≤ 3)
    (quads : 0 ≤ quad ∧ quad ≤ 24) (years : 0 ≤ year ∧ year ≤ 3) :
    daysBefore (400 * era + 100 * century + 4 * quad + year) =
      146097 * era + 36524 * century + 1461 * quad + 365 * year := by
  unfold daysBefore
  omega

theorem yearAndDay_spec (day : Int) :
    daysBefore (yearAndDay day).1 + (yearAndDay day).2 = day ∧ 0 ≤ (yearAndDay day).2 ∧
      (yearAndDay day).2 ≤ 365 := by
  refine ⟨?_, by simp only [yearAndDay]; omega, by simp only [yearAndDay]; omega⟩
  rw [yearAndDay, daysBefore_eq (day / 146097) (by omega) (by omega) (by omega)]
  omega

theorem dayNumber_civilDate (day : Int) : (civilDate day).dayNumber = day := by
  obtain ⟨same, notNegative, short⟩ := yearAndDay_spec (day + 719468)
  have back (month : Int) (range : 0 ≤ month ∧ month ≤ 11) (march : Int) :
      ((month + 2) % 12 - 2) % 12 = month ∧
        march + (month + 2) / 12 - 1900 + 1900 + ((month + 2) % 12 - 2) / 12 = march := by
    omega
  obtain ⟨sameMonth, sameMarch⟩ :=
    back ((5 * (yearAndDay (day + 719468)).2 + 2) / 153) (by omega) (yearAndDay (day + 719468)).1
  simp only [CivilDate.dayNumber, civilDate, sameMarch]
  omega

theorem civilDate_mday (day : Int) : 1 ≤ (civilDate day).mday ∧ (civilDate day).mday ≤ 31 := by
  simp only [civilDate]
  omega

end Octo.Foundation
