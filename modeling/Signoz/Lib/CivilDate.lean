import Mathlib.Data.Int.ConditionallyCompleteOrder
import Mathlib.Tactic.IntervalCases

/-!
# The civil calendar

Days and months of the proleptic Gregorian calendar as integers. Day 0 is the first of January of
year 1, and month `12 * y + m` is month `m` (from 0 for January) of year `y`. `monthStart` is the
first day of a month, and `monthOf` the month of a day (`monthOf_eq_iff`).
-/

namespace Lib.CivilDate

/-- A leap year, in the Gregorian calendar. -/
def isLeap (y : ℤ) : Prop := y % 4 = 0 ∧ (y % 100 ≠ 0 ∨ y % 400 = 0)

instance (y : ℤ) : Decidable (isLeap y) := inferInstanceAs (Decidable (_ ∧ _))

/-- The days before the first of January of a year. -/
def daysBeforeYear (y : ℤ) : ℤ := 365 * (y - 1) + (y - 1) / 4 - (y - 1) / 100 + (y - 1) / 400

/-- The days of a common year before one of its months, from 0 for January. -/
def daysBefore : ℤ → ℤ
  | 0 => 0
  | 1 => 31
  | 2 => 59
  | 3 => 90
  | 4 => 120
  | 5 => 151
  | 6 => 181
  | 7 => 212
  | 8 => 243
  | 9 => 273
  | 10 => 304
  | _ => 334

/-- The first day of a month. -/
def monthStart (k : ℤ) : ℤ :=
  daysBeforeYear (k / 12) + daysBefore (k % 12) + if 2 ≤ k % 12 ∧ isLeap (k / 12) then 1 else 0

def monthLength (k : ℤ) : ℤ := monthStart (k + 1) - monthStart k

/-- The month of a day. There are 146097 days in 4800 months, and the estimate is at most one month
off. -/
def monthOf (n : ℤ) : ℤ :=
  let k := 4800 * n / 146097 + 12
  if n < monthStart k then k - 1 else if n < monthStart (k + 1) then k else k + 1

attribute [local simp] daysBefore

/-- The extra day of a leap year. -/
theorem leap_day_cases (y : ℤ) :
    (if isLeap y then (1 : ℤ) else 0) = 1 ∧ y % 4 = 0 ∧ (y % 100 ≠ 0 ∨ y % 400 = 0) ∨
      (if isLeap y then (1 : ℤ) else 0) = 0 ∧ (y % 4 ≠ 0 ∨ y % 100 = 0 ∧ y % 400 ≠ 0) := by
  by_cases h : isLeap y
  · exact .inl ⟨if_pos h, h⟩
  · refine .inr ⟨if_neg h, ?_⟩
    rw [isLeap] at h
    omega

theorem daysBeforeYear_succ (y : ℤ) :
    daysBeforeYear (y + 1) = daysBeforeYear y + 365 + if isLeap y then 1 else 0 := by
  have hleap := leap_day_cases y
  rw [daysBeforeYear, daysBeforeYear]
  omega

/-- A month by its year and its place in it. -/
theorem monthStart_eq (y : ℤ) {r : ℤ} (hr : 0 ≤ r ∧ r < 12) :
    monthStart (12 * y + r) =
      daysBeforeYear y + daysBefore r + if 2 ≤ r then if isLeap y then 1 else 0 else 0 := by
  have hdiv : (12 * y + r) / 12 = y := by omega
  have hmod : (12 * y + r) % 12 = r := by omega
  rw [monthStart, hdiv, hmod, ite_and]

theorem exists_year (k : ℤ) : ∃ y r : ℤ, (0 ≤ r ∧ r < 12) ∧ k = 12 * y + r :=
  ⟨k / 12, k % 12, by omega, by omega⟩

theorem monthLength_bounds (k : ℤ) : 28 ≤ monthLength k ∧ monthLength k ≤ 31 := by
  obtain ⟨y, r, ⟨hlow, hhigh⟩, rfl⟩ := exists_year k
  have hleap := leap_day_cases y
  rw [monthLength, monthStart_eq y ⟨hlow, hhigh⟩]
  by_cases hdec : r = 11
  · subst hdec
    have hnext : 12 * y + 11 + 1 = 12 * (y + 1) + 0 := by omega
    rw [hnext, monthStart_eq (y + 1) (by omega), daysBeforeYear_succ]
    simp only [daysBefore]
    omega
  · rw [add_assoc, monthStart_eq y (by omega)]
    interval_cases r <;> simp [daysBefore] <;> omega

theorem monthStart_strictMono : StrictMono monthStart := by
  refine strictMono_int_of_lt_succ fun k => ?_
  have h := (monthLength_bounds k).1
  rw [monthLength] at h
  omega

/-- Months are 146097 / 4800 days long on average. -/
theorem monthStart_bounds (k : ℤ) :
    146097 * (k - 12) - 14922 ≤ 4800 * monthStart k ∧
      4800 * monthStart k ≤ 146097 * (k - 12) + 6159 := by
  obtain ⟨y, r, ⟨hlow, hhigh⟩, rfl⟩ := exists_year k
  have hleap := leap_day_cases y
  rw [monthStart_eq y ⟨hlow, hhigh⟩, daysBeforeYear]
  interval_cases r <;> simp [daysBefore] <;> omega

theorem monthOf_spec (n : ℤ) : monthStart (monthOf n) ≤ n ∧ n < monthStart (monthOf n + 1) := by
  have hbefore := monthStart_bounds (4800 * n / 146097 + 12 - 1)
  have hafter := monthStart_bounds (4800 * n / 146097 + 12 + 2)
  rw [monthOf]
  split_ifs with hlt hlt'
  · rw [sub_add_cancel]
    omega
  · omega
  · have hsucc : 4800 * n / 146097 + 12 + 1 + 1 = 4800 * n / 146097 + 12 + 2 := by omega
    rw [hsucc]
    omega

/-- A day lies in one month. -/
theorem monthOf_eq_iff {n k : ℤ} : monthOf n = k ↔ monthStart k ≤ n ∧ n < monthStart (k + 1) := by
  constructor
  · rintro rfl
    exact monthOf_spec n
  · rintro ⟨hle, hlt⟩
    obtain ⟨hle', hlt'⟩ := monthOf_spec n
    have h := monthStart_strictMono.lt_iff_lt.1 (lt_of_le_of_lt hle hlt')
    have h' := monthStart_strictMono.lt_iff_lt.1 (lt_of_le_of_lt hle' hlt)
    omega

example : monthOf 738000 = 12 * 2021 + 6 := by decide

end Lib.CivilDate
