import Mathlib.Algebra.BigOperators.Intervals
import Mathlib.Algebra.Order.BigOperators.Group.Finset
import Mathlib.Tactic.IntervalCases

/-! The Gregorian calendar from 1970 on: dates and times, the days and seconds that have gone by,
and the order of the calendar. -/
namespace Calendar
open Finset

def Leap (year : Nat) : Prop := year % 4 = 0 ∧ (year % 100 ≠ 0 ∨ year % 400 = 0)

instance (year : Nat) : Decidable (Leap year) :=
  inferInstanceAs (Decidable (year % 4 = 0 ∧ (year % 100 ≠ 0 ∨ year % 400 = 0)))

def yearDays (year : Nat) : Nat := if Leap year then 366 else 365

def monthDays (year month : Nat) : Nat :=
  if month = 2 then if Leap year then 29 else 28
  else if month ∈ [4, 6, 9, 11] then 30
  else 31

/-- A date and a time of the day, without leap seconds. -/
structure DateTime where
  year : Nat
  month : Nat
  day : Nat
  hour : Nat
  minute : Nat
  second : Nat
  since : 1970 ≤ year
  months : 1 ≤ month ∧ month ≤ 12
  days : 1 ≤ day ∧ day ≤ monthDays year month
  hours : hour < 24
  minutes : minute < 60
  seconds : second < 60

/-- The days of the year in front of a month. -/
def daysBefore (year month : Nat) : Nat := ∑ m ∈ Ico 1 month, monthDays year m

/-- The days in front of a year, since 1970. -/
def daysSince (year : Nat) : Nat := ∑ y ∈ Ico 1970 year, yearDays y

namespace DateTime

/-- The days since the first of January 1970. -/
def dayNumber (t : DateTime) : Nat := daysSince t.year + daysBefore t.year t.month + (t.day - 1)

/-- The seconds since the beginning of 1970. -/
def secondNumber (t : DateTime) : Nat :=
  t.dayNumber * 86400 + t.hour * 3600 + t.minute * 60 + t.second

/-- The order of the calendar. -/
def Before (s t : DateTime) : Prop :=
  s.year < t.year ∨ s.year = t.year ∧ (s.month < t.month ∨ s.month = t.month ∧ (s.day < t.day ∨
    s.day = t.day ∧ (s.hour < t.hour ∨ s.hour = t.hour ∧ (s.minute < t.minute ∨
      s.minute = t.minute ∧ s.second < t.second))))

end DateTime

/- Years. -/

theorem daysSince_succ {year : Nat} (since : 1970 ≤ year) :
    daysSince (year + 1) = daysSince year + yearDays year :=
  sum_Ico_succ_top since _

theorem daysSince_mono {early late : Nat} (ordered : early ≤ late) :
    daysSince early ≤ daysSince late :=
  sum_le_sum_of_subset (Ico_subset_Ico_right ordered)

/-- The days in front of a year by the number of leap years among them. -/
theorem daysSince_eq {year : Nat} (since : 1970 ≤ year) :
    daysSince year + 1970 * 365 + 477 =
      year * 365 + ((year - 1) / 4 + (year - 1) / 400 - (year - 1) / 100) := by
  induction year, since using Nat.le_induction with
  | base => rfl
  | succ year since ih =>
    rw [daysSince_succ since, yearDays]
    split
    · next leap =>
      obtain ⟨four, hundred⟩ := leap
      omega
    · next common =>
      simp only [Leap, not_and_or, not_or, not_not] at common
      omega

/- Months. -/

theorem daysBefore_succ {year month : Nat} (first : 1 ≤ month) :
    daysBefore year (month + 1) = daysBefore year month + monthDays year month :=
  sum_Ico_succ_top first _

theorem daysBefore_mono (year : Nat) {early late : Nat} (ordered : early ≤ late) :
    daysBefore year early ≤ daysBefore year late :=
  sum_le_sum_of_subset (Ico_subset_Ico_right ordered)

theorem daysBefore_year (year : Nat) : daysBefore year 13 = yearDays year := by
  by_cases leap : Leap year <;>
    simp [daysBefore, yearDays, sum_Ico_eq_sum_range, sum_range_succ, monthDays, leap]

theorem daysBefore_eq (year : Nat) {month : Nat} (first : 1 ≤ month) (last : month ≤ 12) :
    daysBefore year month =
      if month ≤ 2 then 31 * (month - 1)
      else (153 * (month - 3) + 2) / 5 + if Leap year then 60 else 59 := by
  interval_cases month <;>
    simp [daysBefore, sum_Ico_eq_sum_range, sum_range_succ, monthDays] <;> split <;> simp

/- The order. -/

namespace DateTime
variable {s t : DateTime}

theorem day_in_month (t : DateTime) :
    daysBefore t.year t.month + (t.day - 1) < daysBefore t.year (t.month + 1) := by
  have first := t.days.1
  have last := t.days.2
  rw [daysBefore_succ t.months.1]
  omega

theorem day_in_year (t : DateTime) : t.dayNumber < daysSince (t.year + 1) := by
  have inside := t.day_in_month
  have most : daysBefore t.year (t.month + 1) ≤ daysBefore t.year 13 :=
    daysBefore_mono _ (by have := t.months.2; omega)
  rw [daysSince_succ t.since, dayNumber, ← daysBefore_year]
  omega

theorem dayNumber_lt_of_year (before : s.year < t.year) : s.dayNumber < t.dayNumber := by
  have inside := s.day_in_year
  have later := daysSince_mono (show s.year + 1 ≤ t.year from before)
  have start : daysSince t.year ≤ t.dayNumber := by
    rw [dayNumber]
    omega
  omega

theorem dayNumber_lt_of_month (same : s.year = t.year) (before : s.month < t.month) :
    s.dayNumber < t.dayNumber := by
  have inside := s.day_in_month
  have later := daysBefore_mono s.year (show s.month + 1 ≤ t.month from before)
  rw [dayNumber, dayNumber, ← same]
  omega

theorem dayNumber_lt_of_day (same : s.year = t.year) (same' : s.month = t.month)
    (before : s.day < t.day) : s.dayNumber < t.dayNumber := by
  have first := s.days.1
  rw [dayNumber, dayNumber, ← same, ← same']
  omega

theorem secondNumber_lt_of_day (before : s.dayNumber < t.dayNumber) :
    s.secondNumber < t.secondNumber := by
  have hours := s.hours
  have minutes := s.minutes
  have seconds := s.seconds
  rw [secondNumber, secondNumber]
  omega

theorem secondNumber_lt_of_before (before : s.Before t) : s.secondNumber < t.secondNumber := by
  rcases before with year | ⟨year, month | ⟨month, day | ⟨day, time⟩⟩⟩
  · exact secondNumber_lt_of_day (dayNumber_lt_of_year year)
  · exact secondNumber_lt_of_day (dayNumber_lt_of_month year month)
  · exact secondNumber_lt_of_day (dayNumber_lt_of_day year month day)
  · have same : s.dayNumber = t.dayNumber := by rw [dayNumber, dayNumber, year, month, day]
    have hours := s.hours
    have minutes := s.minutes
    have seconds := s.seconds
    rw [secondNumber, secondNumber, same]
    omega

/-- Two times of which none is before the other are the same. -/
theorem before_or_eq_or_before (s t : DateTime) : s.Before t ∨ s = t ∨ t.Before s := by
  cases s
  cases t
  simp only [Before, DateTime.mk.injEq]
  omega

theorem secondNumber_lt_iff : s.secondNumber < t.secondNumber ↔ s.Before t := by
  constructor
  · intro less
    rcases before_or_eq_or_before s t with before | rfl | after
    · exact before
    · exact absurd less (Nat.lt_irrefl _)
    · exact absurd (secondNumber_lt_of_before after) (Nat.lt_asymm less)
  · exact secondNumber_lt_of_before

end DateTime

end Calendar
