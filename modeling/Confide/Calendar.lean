import Mathlib.Algebra.GroupWithZero.Nat
import Mathlib.Data.List.Basic
import Mathlib.Tactic.Common

/-! The proleptic Gregorian calendar: days are numbered from 1970-01-01, and dates
and day numbers determine each other. -/
namespace Calendar

structure Date where
  year : Int
  month : Nat
  day : Nat
  deriving DecidableEq, Repr

def isLeap (year : Int) : Bool := year % 4 == 0 && (year % 100 != 0 || year % 400 == 0)

def yearLength (leap : Bool) : Nat := if leap then 366 else 365

def monthLengths (leap : Bool) : List Nat :=
  [31,if leap then 29 else 28,31,30,31,30,31,31,30,31,30,31]

/-- Months count from 1; a month that does not exist has no days. -/
def daysInMonth (leap : Bool) (month : Nat) : Nat := (0 :: monthLengths leap)[month]?.getD 0

def daysBeforeMonth (leap : Bool) (month : Nat) : Nat := ((monthLengths leap).take (month - 1)).sum

/-- Days from 0000-01-01 to the first day of a year. -/
def daysBeforeYear (year : Int) : Int :=
  365 * year + (year + 3) / 4 - (year + 99) / 100 + (year + 399) / 400

/-- Days from 0000-01-01 to 1970-01-01. -/
def epoch : Int := 719528

def Date.ok (date : Date) : Bool :=
  1 ≤ date.day && date.day ≤ daysInMonth (isLeap date.year) date.month

def Date.days (date : Date) : Int :=
  daysBeforeYear date.year + daysBeforeMonth (isLeap date.year) date.month + (date.day - 1 : Int) - epoch

/-- The year of a day counted from 0000-01-01. Four centuries have 146097 days, so
the first guess is at most one year off. -/
def yearOf (day : Int) : Int :=
  let guess := 400 * day / 146097
  if day < daysBeforeYear guess then guess - 1
  else if daysBeforeYear (guess + 1) ≤ day then guess + 1
  else guess

/-- Month and day of month of a day counted from the start of its year. -/
def splitMonth : List Nat → Nat → Nat → Nat × Nat
  | [], month, day => (month,day + 1)
  | length :: lengths, month, day =>
    if day < length then (month,day + 1) else splitMonth lengths (month + 1) (day - length)

def ofDays (days : Int) : Date :=
  let year := yearOf (days + epoch)
  let monthDay := splitMonth (monthLengths (isLeap year)) 1 (days + epoch - daysBeforeYear year).toNat
  ⟨year,monthDay.1,monthDay.2⟩

theorem daysBeforeYear_succ (year : Int) :
    daysBeforeYear (year + 1) = daysBeforeYear year + yearLength (isLeap year) := by
  unfold daysBeforeYear yearLength isLeap
  by_cases four : year % 4 = 0 <;> by_cases hundred : year % 100 = 0 <;>
    by_cases era : year % 400 = 0 <;> simp [four,hundred,era] <;> omega

theorem yearOf_spec (day : Int) :
    daysBeforeYear (yearOf day) ≤ day ∧ day < daysBeforeYear (yearOf day + 1) := by
  unfold yearOf
  simp only
  split
  · rename_i early
    refine ⟨?_,by simpa using early⟩
    unfold daysBeforeYear
    omega
  · split
    · rename_i late
      refine ⟨late,?_⟩
      unfold daysBeforeYear
      omega
    · omega

theorem daysBeforeYear_mono {a b : Int} (le : a ≤ b) : daysBeforeYear a ≤ daysBeforeYear b := by
  unfold daysBeforeYear
  omega

/-- A day belongs to one year. -/
theorem yearOf_unique {year day : Int} (low : daysBeforeYear year ≤ day)
    (high : day < daysBeforeYear (year + 1)) : yearOf day = year := by
  obtain ⟨lower,upper⟩ := yearOf_spec day
  by_contra different
  rcases (by omega : yearOf day < year ∨ year < yearOf day) with before | after
  · have := daysBeforeYear_mono (show yearOf day + 1 ≤ year by omega)
    omega
  · have := daysBeforeYear_mono (show year + 1 ≤ yearOf day by omega)
    omega

theorem splitMonth_spec (leap : Bool) (day : Nat) (inside : day < yearLength leap) :
    let date := splitMonth (monthLengths leap) 1 day
    1 ≤ date.2 ∧ date.2 ≤ daysInMonth leap date.1 ∧ date.1 ≤ 12 ∧
      daysBeforeMonth leap date.1 + (date.2 - 1) = day := by
  revert day
  cases leap <;> decide +kernel

theorem daysInMonth_lt (leap : Bool) (month : Nat) : daysInMonth leap month < 32 := by
  by_cases known : month < 13
  · have short : ∀ leap, ∀ month < 13, daysInMonth leap month < 32 := by decide
    exact short leap month known
  · rw [daysInMonth,List.getElem?_eq_none (by simp [monthLengths]; omega)]
    simp

theorem splitMonth_unique (leap : Bool) (month day : Nat) (first : 1 ≤ day) (last : day ≤ daysInMonth leap month) :
    splitMonth (monthLengths leap) 1 (daysBeforeMonth leap month + (day - 1)) = (month,day) ∧
      daysBeforeMonth leap month + (day - 1) < yearLength leap := by
  have known : month < 13 := by
    by_contra beyond
    rw [daysInMonth,List.getElem?_eq_none (by simp [monthLengths]; omega)] at last
    simp at last
    omega
  have small := Nat.lt_of_le_of_lt last (daysInMonth_lt leap month)
  have all : ∀ leap, ∀ month < 13, ∀ day < 32, 1 ≤ day → day ≤ daysInMonth leap month →
      splitMonth (monthLengths leap) 1 (daysBeforeMonth leap month + (day - 1)) = (month,day) ∧
        daysBeforeMonth leap month + (day - 1) < yearLength leap := by decide +kernel
  exact all leap month known day small first last

theorem ofDays_ok (days : Int) : (ofDays days).ok = true ∧ (ofDays days).month ≤ 12 := by
  obtain ⟨low,high⟩ := yearOf_spec (days + epoch)
  rw [daysBeforeYear_succ] at high
  obtain ⟨first,last,month,-⟩ := splitMonth_spec (isLeap (yearOf (days + epoch)))
    (days + epoch - daysBeforeYear (yearOf (days + epoch))).toNat (by omega)
  refine ⟨?_,month⟩
  exact Bool.and_eq_true_iff.mpr ⟨decide_eq_true first,decide_eq_true last⟩

theorem days_ofDays (days : Int) : (ofDays days).days = days := by
  obtain ⟨low,high⟩ := yearOf_spec (days + epoch)
  rw [daysBeforeYear_succ] at high
  obtain ⟨first,-,-,same⟩ := splitMonth_spec (isLeap (yearOf (days + epoch)))
    (days + epoch - daysBeforeYear (yearOf (days + epoch))).toNat (by omega)
  simp only [Date.days,ofDays]
  omega

theorem ofDays_days (date : Date) (real : date.ok = true) : ofDays date.days = date := by
  simp only [Date.ok,Bool.and_eq_true,decide_eq_true_eq] at real
  obtain ⟨split,inside⟩ := splitMonth_unique (isLeap date.year) date.month date.day real.1 real.2
  have offset : date.days + epoch - daysBeforeYear date.year =
      (daysBeforeMonth (isLeap date.year) date.month + (date.day - 1) : Nat) := by
    unfold Date.days
    omega
  have year : yearOf (date.days + epoch) = date.year := by
    apply yearOf_unique
    · omega
    · rw [daysBeforeYear_succ]
      omega
  simp only [ofDays,year,offset,Int.toNat_natCast,split]

end Calendar
