import Mathlib.Tactic.Common

/-!
# The Gregorian calendar

Dates of the proleptic Gregorian calendar and the day that follows each of them, read off
the length of the month.
-/

set_option autoImplicit false

namespace LakeOS.Library

/-- A year with a 29th of February. -/
def LeapYear (year : ℕ) : Prop := year % 4 = 0 ∧ (year % 100 ≠ 0 ∨ year % 400 = 0)

instance (year : ℕ) : Decidable (LeapYear year) := inferInstanceAs (Decidable (_ ∧ _))

/-- The number of days of a month, `0` for a number that is no month. -/
def monthLength (year month : ℕ) : ℕ :=
  if month = 2 then if LeapYear year then 29 else 28
  else if month = 4 ∨ month = 6 ∨ month = 9 ∨ month = 11 then 30
  else if 1 ≤ month ∧ month ≤ 12 then 31
  else 0

/-- A day by its number, the number of its month and its year. -/
@[ext] structure Date where
  year : ℕ
  month : ℕ
  day : ℕ
deriving DecidableEq

namespace Date

/-- The date is one of the calendar. -/
def Valid (d : Date) : Prop := 1 ≤ d.day ∧ d.day ≤ monthLength d.year d.month

instance (d : Date) : Decidable d.Valid := inferInstanceAs (Decidable (_ ∧ _))

/-- The following day. -/
def next (d : Date) : Date :=
  if d.day < monthLength d.year d.month then { d with day := d.day + 1 }
  else if d.month < 12 then ⟨d.year, d.month + 1, 1⟩
  else ⟨d.year + 1, 1, 1⟩

end Date

theorem monthLength_le (year month : ℕ) : monthLength year month ≤ 31 := by
  unfold monthLength
  split_ifs
  all_goals omega

end LakeOS.Library
