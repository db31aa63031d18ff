import Octo.Foundation.Calendar

/-!
# Day numbers of `DATE_FORMAT`

`get_day_num` numbers the days by a closed formula. From year 1 on it is the number of the day in
the calendar; in year 0, which `is_leap` takes for a leap year, it has no number of its own for 29
February.
-/
namespace Octo.DateTime

open Octo.Foundation CivilDate

/-! ## Day numbers -/

/-- `is_leap`. -/
def isLeap (year : Int) : Bool :=
  year % 4 = 0 ∧ 0 < year % 100 ∨ year % 400 = 0

/-- `get_days_in_year`. -/
def getDaysInYear (year : Int) : Int :=
  if isLeap year then 366 else 365

/-- `get_day_num`: the division of C rounds towards zero. -/
def getDayNum (tm : CivilDate) : Int :=
  let year := tm.year + 1900
  let offset := 365 * year + 31 * tm.mon + tm.mday
  let (year, offset) :=
    if tm.mon ≤ 1 then (year - 1, offset)
    else (year, offset - ((tm.mon + 1) * 4 + 23).tdiv 10)
  offset + year.tdiv 4 - ((year.tdiv 100 + 1) * 3).tdiv 4

/-- The last day that `ydboctoDateFormatC` allows in a month; month 0 has `mon = -1`. -/
def lastDay (tm : CivilDate) : Int :=
  if tm.mon = 1 then (if isLeap (tm.year + 1900) then 29 else 28)
  else if tm.mon ∈ [3, 5, 8, 10] then 30
  else 31

/-- The dates that `get_date_from_string` and `ydboctoDateFormatC` let pass: a month 00 and a day 00
are accepted. -/
structure IsAccepted (tm : CivilDate) : Prop where
  year : 0 ≤ tm.year + 1900 ∧ tm.year + 1900 ≤ 9999
  mon : -1 ≤ tm.mon ∧ tm.mon ≤ 11
  mday : 0 ≤ tm.mday ∧ tm.mday ≤ lastDay tm
  notZero : tm ≠ ⟨-1900, -1, 0⟩

/-- The day after a date. -/
def nextDay (tm : CivilDate) : CivilDate :=
  if tm.mday < lastDay tm then { tm with mday := tm.mday + 1 }
  else if tm.mon < 11 then ⟨tm.year, tm.mon + 1, 1⟩
  else ⟨tm.year + 1, 0, 1⟩

theorem daysBefore_succ (year : Int) :
    daysBefore year = daysBefore (year - 1) + getDaysInYear year := by
  simp only [daysBefore, getDaysInYear, isLeap, decide_eq_true_eq]
  split <;> omega

theorem getDayNum_eq_dayNumber {tm : CivilDate} (year : 1 ≤ tm.year + 1900)
    (mon : -1 ≤ tm.mon ∧ tm.mon ≤ 11) : getDayNum tm = tm.dayNumber + 719528 := by
  obtain ⟨y, m, d⟩ := tm
  obtain ⟨low, high⟩ := mon
  simp only at low high year
  have centuries (y : Int) (pos : 0 ≤ y) : y.tdiv 4 - ((y.tdiv 100 + 1) * 3).tdiv 4 =
      y / 4 - y / 100 + y / 400 := by
    rw [Int.tdiv_eq_ediv_of_nonneg pos, Int.tdiv_eq_ediv_of_nonneg pos,
      Int.tdiv_eq_ediv_of_nonneg (by omega)]
    omega
  have before := centuries (y + 1900 - 1) (by omega)
  have here := centuries (y + 1900) (by omega)
  interval_cases m <;> simp [getDayNum, dayNumber, daysBefore] <;> omega

theorem dayNumber_nextDay {tm : CivilDate} (mon : -1 ≤ tm.mon ∧ tm.mon ≤ 11)
    (last : tm.mday ≤ lastDay tm) : (nextDay tm).dayNumber = tm.dayNumber + 1 := by
  obtain ⟨y, m, d⟩ := tm
  obtain ⟨low, high⟩ := mon
  have leap : daysBefore (y + 1900) = daysBefore (y + 1900 + -1) + _ := daysBefore_succ (y + 1900)
  unfold nextDay
  split
  · simp only [dayNumber]
    omega
  · have atEnd : d = lastDay ⟨y, m, d⟩ := Int.le_antisymm last (not_lt.1 ‹_›)
    have same : y + 1 + 1900 + -1 = y + 1900 := by omega
    cases year : isLeap (y + 1900) <;> interval_cases m <;>
      simp [lastDay, getDaysInYear, year, dayNumber, same] at atEnd leap ⊢ <;> omega

/-- The number of 1 January. -/
def firstDay (year : Int) : Int :=
  (⟨year - 1900, 0, 1⟩ : CivilDate).dayNumber

theorem firstDay_succ (year : Int) : firstDay (year + 1) = firstDay year + getDaysInYear year := by
  have march (year : Int) : firstDay year = daysBefore (year - 1) - 719162 := by
    have sameYear : year - 1900 + 1900 + (0 - 2) / 12 = year - 1 := by omega
    simp only [firstDay, dayNumber, sameYear]
    omega
  rw [march, march, add_sub_cancel_right, daysBefore_succ]
  omega

/-- The number of the next day is one more, except at 29 February of year 0; and the numbers of the
first days of two years differ by the length of the first year, except for year 0. -/
theorem getDayNum_nextDay_iff {tm : CivilDate} (accepted : IsAccepted tm) :
    (getDayNum (nextDay tm) = getDayNum tm + 1 ↔ tm ≠ ⟨-1900, 1, 29⟩) ∧
      ∀ year, 0 ≤ year →
        (getDayNum ⟨year + 1 - 1900, 0, 1⟩ = getDayNum ⟨year - 1900, 0, 1⟩ + getDaysInYear year ↔
          year ≠ 0) := by
  constructor
  · obtain zero | later : tm.year = -1900 ∨ 1 ≤ tm.year + 1900 := by
      have := accepted.year
      omega
    · obtain ⟨y, m, d⟩ := tm
      obtain ⟨-, ⟨low, high⟩, ⟨-, last⟩, -⟩ := accepted
      obtain rfl : y = -1900 := zero
      unfold nextDay
      split
      · interval_cases m <;> simp [getDayNum, lastDay] at * <;> omega
      · have atEnd : d = lastDay ⟨-1900, m, d⟩ := Int.le_antisymm last (not_lt.1 ‹_›)
        interval_cases m <;> simp [getDayNum, lastDay] at atEnd ⊢ <;> omega
    · have nextYear : 1 ≤ (nextDay tm).year + 1900 ∧ -1 ≤ (nextDay tm).mon ∧
          (nextDay tm).mon ≤ 11 := by
        have := accepted.mon
        unfold nextDay
        grind
      rw [getDayNum_eq_dayNumber nextYear.1 nextYear.2, getDayNum_eq_dayNumber later accepted.mon,
        dayNumber_nextDay accepted.mon accepted.mday.2]
      refine ⟨?_, fun _ => by omega⟩
      rintro - rfl
      exact absurd later (by decide)
  · intro year notNegative
    obtain rfl | later : year = 0 ∨ 1 ≤ year := by omega
    · decide
    · rw [getDayNum_eq_dayNumber (by simp; omega) (by simp),
        getDayNum_eq_dayNumber (by simp; omega) (by simp)]
      have next := firstDay_succ year
      simp only [firstDay] at next
      omega

/-- 1 February of year 0 is accepted and followed by its next day. -/
theorem getDayNum_nextDay_yearZero :
    getDayNum (nextDay ⟨-1900, 1, 1⟩) = getDayNum ⟨-1900, 1, 1⟩ + 1 :=
  (getDayNum_nextDay_iff ⟨by decide, by decide, by decide, by decide⟩).1.2 (by decide)

/-- 29 February and 1 March of year 0 are accepted and have one number. -/
theorem leapDay_yearZero :
    IsAccepted ⟨-1900, 1, 29⟩ ∧ nextDay ⟨-1900, 1, 29⟩ = ⟨-1900, 2, 1⟩ ∧
      getDayNum ⟨-1900, 1, 29⟩ = getDayNum ⟨-1900, 2, 1⟩ :=
  ⟨⟨by decide, by decide, by decide, by decide⟩, by decide, by decide⟩

end Octo.DateTime
