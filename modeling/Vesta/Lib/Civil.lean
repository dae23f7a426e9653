import Mathlib.Algebra.Order.Group.Int
import Mathlib.Data.Int.Order.Basic

/-!
# Dates of the Gregorian calendar

A date is a year, a month and a day; its ordinal counts the days from the first day of the
year 1.  The months are numbered through: the first days of two months lie at least 28 days
apart for each month between them, and a date lies between the first days of its month and
of the next.
-/

namespace Vesta
namespace Lib
namespace Civil

def isLeap (year : Int) : Bool := year % 4 == 0 && (year % 100 != 0 || year % 400 == 0)

def monthLength (year month : Int) : Int :=
  if month = 2 then (if isLeap year then 29 else 28)
  else if month = 4 ∨ month = 6 ∨ month = 9 ∨ month = 11 then 30
  else 31

/-- The days of the years before. -/
def daysBeforeYear (year : Int) : Int :=
  (year - 1) * 365 + (year - 1) / 4 - (year - 1) / 100 + (year - 1) / 400

/-- The days of the months before, in a year that is not a leap year. -/
def daysBefore : List Int := [0, 31, 59, 90, 120, 151, 181, 212, 243, 273, 304, 334]

/-- The days of the months before, in the same year. -/
def daysBeforeMonth (year month : Int) : Int :=
  daysBefore.getD (month - 1).toNat 0 + if 2 < month ∧ isLeap year = true then 1 else 0

def ordinal (year month day : Int) : Int :=
  daysBeforeYear year + daysBeforeMonth year month + day

/-- Monday is 0. -/
def weekday (ordinal : Int) : Int := (ordinal + 6) % 7

/-- The first day of a month, by its number from the year 0 on. -/
def firstOfMonth (index : Int) : Int := ordinal (index / 12) (index % 12 + 1) 1

structure Date where
  year : Int
  month : Int
  day : Int
  year_pos : 1 ≤ year
  year_le : year ≤ 9999
  month_pos : 1 ≤ month
  month_le : month ≤ 12
  day_pos : 1 ≤ day
  day_le : day ≤ monthLength year month

namespace Date

def ordinal (date : Date) : Int := Civil.ordinal date.year date.month date.day

def monthIndex (date : Date) : Int := date.year * 12 + (date.month - 1)

end Date

theorem monthLength_pos (year month : Int) : 28 ≤ monthLength year month := by
  unfold monthLength
  split
  · split <;> omega
  · split <;> omega

/-- A year has a day more where it is a leap year. -/
theorem daysBeforeYear_succ (year : Int) :
    daysBeforeYear (year + 1) = daysBeforeYear year + 365 + if isLeap year = true then 1 else 0 := by
  unfold daysBeforeYear isLeap
  simp only [Bool.and_eq_true, Bool.or_eq_true, beq_iff_eq, bne_iff_ne]
  split <;> omega

theorem daysBeforeMonth_succ
    {year month : Int}
    (hpos : 1 ≤ month)
    (hle : month ≤ 11) :
    daysBeforeMonth year (month + 1) = daysBeforeMonth year month + monthLength year month := by
  have hcases : month = 1 ∨ month = 2 ∨ month = 3 ∨ month = 4 ∨ month = 5 ∨ month = 6 ∨
      month = 7 ∨ month = 8 ∨ month = 9 ∨ month = 10 ∨ month = 11 := by omega
  cases hleap : isLeap year <;>
    rcases hcases with rfl | rfl | rfl | rfl | rfl | rfl | rfl | rfl | rfl | rfl | rfl <;>
    simp [daysBeforeMonth, daysBefore, monthLength, hleap]

/-- December ends the year. -/
theorem daysBeforeMonth_december (year : Int) :
    daysBeforeMonth year 12 + monthLength year 12 = 365 + if isLeap year = true then 1 else 0 := by
  cases hleap : isLeap year <;> simp [daysBeforeMonth, daysBefore, monthLength, hleap]

theorem firstOfMonth_succ (index : Int) :
    firstOfMonth (index + 1) = firstOfMonth index + monthLength (index / 12) (index % 12 + 1) := by
  unfold firstOfMonth ordinal
  by_cases hlast : index % 12 = 11
  · have hyear : (index + 1) / 12 = index / 12 + 1 := by omega
    have hmonth : (index + 1) % 12 + 1 = 1 := by omega
    have hjanuary : daysBeforeMonth (index / 12 + 1) 1 = 0 := by
      simp [daysBeforeMonth, daysBefore]
    have hyears := daysBeforeYear_succ (index / 12)
    have hdecember := daysBeforeMonth_december (index / 12)
    have htwelve : index % 12 + 1 = 12 := by omega
    rw [hyear, hmonth, hjanuary, htwelve]
    omega
  · have hyear : (index + 1) / 12 = index / 12 := by omega
    have hmonth : (index + 1) % 12 + 1 = index % 12 + 1 + 1 := by omega
    have hmonths : daysBeforeMonth (index / 12) (index % 12 + 1 + 1) =
        daysBeforeMonth (index / 12) (index % 12 + 1) +
          monthLength (index / 12) (index % 12 + 1) :=
      daysBeforeMonth_succ (by omega) (by omega)
    rw [hyear, hmonth, hmonths]
    omega

/-- Months are at least 28 days apart. -/
theorem firstOfMonth_add_le
    {index later : Int}
    (h : index ≤ later) :
    firstOfMonth index + 28 * (later - index) ≤ firstOfMonth later := by
  induction later, h using Int.leInduction with
  | base => omega
  | succ later _ ih =>
      have hlength := monthLength_pos (later / 12) (later % 12 + 1)
      rw [firstOfMonth_succ]
      omega

theorem firstOfMonth_le
    {index later : Int}
    (h : index ≤ later) :
    firstOfMonth index ≤ firstOfMonth later := by
  have hadd := firstOfMonth_add_le h
  omega

theorem ordinal_eq
    {year month : Int}
    (hpos : 1 ≤ month)
    (hle : month ≤ 12)
    (day : Int) :
    ordinal year month day = firstOfMonth (year * 12 + (month - 1)) + (day - 1) := by
  have hyear : (year * 12 + (month - 1)) / 12 = year := by omega
  have hmonth : (year * 12 + (month - 1)) % 12 + 1 = month := by omega
  unfold firstOfMonth ordinal
  rw [hyear, hmonth]
  omega

/-- A day of a month lies before the next month. -/
theorem ordinal_lt_next
    {year month day : Int}
    (hpos : 1 ≤ month)
    (hle : month ≤ 12)
    (hday : day ≤ monthLength year month) :
    ordinal year month day < firstOfMonth (year * 12 + (month - 1) + 1) := by
  have hyear : (year * 12 + (month - 1)) / 12 = year := by omega
  have hmonth : (year * 12 + (month - 1)) % 12 + 1 = month := by omega
  rw [firstOfMonth_succ, hyear, hmonth, ordinal_eq hpos hle]
  omega

theorem Date.firstOfMonth_le (date : Date) : firstOfMonth date.monthIndex ≤ date.ordinal := by
  have hday := date.day_pos
  rw [Date.ordinal, Date.monthIndex, ordinal_eq date.month_pos date.month_le]
  omega

theorem Date.ordinal_lt (date : Date) : date.ordinal < firstOfMonth (date.monthIndex + 1) :=
  ordinal_lt_next date.month_pos date.month_le date.day_le

example : ordinal 1970 1 1 = 719163 := by decide

end Civil
end Lib
end Vesta
