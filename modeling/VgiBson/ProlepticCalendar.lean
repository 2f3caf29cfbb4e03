import Mathlib.Algebra.Ring.Nat
import Mathlib.Data.Int.Notation
import Mathlib.Data.Nat.Notation

/-! # The proleptic Gregorian calendar

Years, months and days counted from 1970-01-01, without the days that reforms left out. A date is
valid by construction. -/

namespace VgiBson.ProlepticCalendar

/-- Every fourth year, but of the full centuries only every fourth. -/
def isLeap (year : ℤ) : Bool := decide (year % 4 = 0 ∧ (year % 100 ≠ 0 ∨ year % 400 = 0))

/-- The days of a month in a year that is leap or not. -/
def monthLength (leap : Bool) : ℕ → ℕ
  | 2 => if leap then 29 else 28
  | 4 => 30
  | 6 => 30
  | 9 => 30
  | 11 => 30
  | _ => 31

def yearLength (year : ℤ) : ℤ := if isLeap year then 366 else 365

/-- The days of the months before the given one. -/
def daysBeforeMonth (leap : Bool) (month : ℕ) : ℕ :=
  ((List.range' 1 (month - 1)).map (monthLength leap)).sum

/-- The leap years from year 1 up to the given one. -/
def leapYearsThrough (year : ℤ) : ℤ := year / 4 - year / 100 + year / 400

/-- The days from 1970-01-01 to the first day of the year. -/
def daysBeforeYear (year : ℤ) : ℤ :=
  365 * (year - 1970) + (leapYearsThrough (year - 1) - leapYearsThrough 1969)

theorem leapYearsThrough_pred (year : ℤ) : leapYearsThrough year =
    leapYearsThrough (year - 1) + if isLeap year then 1 else 0 := by
  simp only [leapYearsThrough, isLeap, decide_eq_true_eq]
  split <;> omega

/-- A year begins where the year before it ends. -/
theorem daysBeforeYear_succ (year : ℤ) :
    daysBeforeYear (year + 1) = daysBeforeYear year + yearLength year := by
  rw [daysBeforeYear, daysBeforeYear, yearLength, Int.add_sub_cancel, leapYearsThrough_pred year]
  split <;> omega

/-- The months of a year make up the year. -/
theorem daysBeforeMonth_thirteen (year : ℤ) :
    (daysBeforeMonth (isLeap year) 13 : ℤ) = yearLength year := by
  simp only [yearLength]
  cases isLeap year <;> decide

/-- A day of the calendar. -/
@[ext] structure CivilDate where
  year : ℤ
  month : ℕ
  day : ℕ
  month_pos : 1 ≤ month
  month_le : month ≤ 12
  day_pos : 1 ≤ day
  day_le : day ≤ monthLength (isLeap year) month

theorem monthLength_le (leap : Bool) (month : ℕ) : monthLength leap month ≤ 31 := by
  unfold monthLength
  split
  · cases leap <;> decide
  all_goals decide

theorem CivilDate.day_le_31 (c : CivilDate) : c.day ≤ 31 :=
  Nat.le_trans c.day_le (monthLength_le _ _)

/-- The days from 1970-01-01 to the date. -/
def CivilDate.dayNumber (c : CivilDate) : ℤ :=
  daysBeforeYear c.year + daysBeforeMonth (isLeap c.year) c.month + (c.day - 1)

/-- A month ends before the later months of its year begin. -/
theorem daysBeforeMonth_add_le : ∀ leap, ∀ month' < 14, ∀ month < month', 1 ≤ month →
    daysBeforeMonth leap month + monthLength leap month ≤ daysBeforeMonth leap month' := by
  decide

theorem daysBeforeYear_mono {year year' : ℤ} (h : year ≤ year') :
    daysBeforeYear year ≤ daysBeforeYear year' := by
  simp only [daysBeforeYear, leapYearsThrough]
  omega

/-- A date lies in its year. -/
theorem CivilDate.dayNumber_bounds (c : CivilDate) :
    daysBeforeYear c.year ≤ c.dayNumber ∧ c.dayNumber < daysBeforeYear (c.year + 1) := by
  have hday := c.day_le
  have hday' := c.day_pos
  have hmonth := daysBeforeMonth_add_le (isLeap c.year) 13 (by decide) c.month
    (Nat.lt_succ_of_le c.month_le) c.month_pos
  have hyear := daysBeforeMonth_thirteen c.year
  rw [daysBeforeYear_succ, CivilDate.dayNumber]
  omega

theorem CivilDate.dayNumber_lt {c c' : CivilDate} (h : c.year < c'.year ∨ c.year = c'.year ∧
    (c.month < c'.month ∨ c.month = c'.month ∧ c.day < c'.day)) : c.dayNumber < c'.dayNumber := by
  rcases h with hyear | ⟨hyear, hmonth | ⟨hmonth, hday⟩⟩
  · have hmono := @daysBeforeYear_mono (c.year + 1) c'.year hyear
    have hc := c.dayNumber_bounds
    have hc' := c'.dayNumber_bounds
    omega
  · have hle := c.day_le
    have hpos := c'.day_pos
    have hmono := daysBeforeMonth_add_le (isLeap c.year) c'.month
      (Nat.lt_of_le_of_lt c'.month_le (by decide)) c.month hmonth c.month_pos
    rw [CivilDate.dayNumber, CivilDate.dayNumber, ← hyear]
    omega
  · rw [CivilDate.dayNumber, CivilDate.dayNumber, ← hyear, ← hmonth]
    omega

/-- Dates follow each other by year, month and day. -/
theorem CivilDate.dayNumber_lt_iff (c c' : CivilDate) : c.dayNumber < c'.dayNumber ↔
    c.year < c'.year ∨ c.year = c'.year ∧
      (c.month < c'.month ∨ c.month = c'.month ∧ c.day < c'.day) := by
  constructor
  · intro hlt
    by_contra h
    have hge : c'.dayNumber < c.dayNumber ∨ c' = c := by
      by_cases heq : c'.year = c.year ∧ c'.month = c.month ∧ c'.day = c.day
      · exact .inr (CivilDate.ext heq.1 heq.2.1 heq.2.2)
      · exact .inl (CivilDate.dayNumber_lt (by omega))
    rcases hge with hge | rfl
    · omega
    · omega
  · exact CivilDate.dayNumber_lt

theorem CivilDate.dayNumber_inj {c c' : CivilDate} (h : c.dayNumber = c'.dayNumber) : c = c' := by
  have hlt := CivilDate.dayNumber_lt_iff c c'
  have hgt := CivilDate.dayNumber_lt_iff c' c
  apply CivilDate.ext <;> omega

/-- A time of day on a date, to the second or to the millisecond. -/
@[ext] structure CivilDateTime where
  date : CivilDate
  hour : ℕ
  minute : ℕ
  second : ℕ
  millisecond : Option ℕ
  hour_lt : hour < 24
  minute_lt : minute < 60
  second_lt : second < 60
  millisecond_lt : ∀ ms ∈ millisecond, ms < 1000

/-- The milliseconds from 1970-01-01T00:00:00Z. -/
def CivilDateTime.instant (c : CivilDateTime) : ℤ :=
  (((c.date.dayNumber * 24 + c.hour) * 60 + c.minute) * 60 + c.second) * 1000 +
    (c.millisecond.getD 0 : ℕ)

end VgiBson.ProlepticCalendar
