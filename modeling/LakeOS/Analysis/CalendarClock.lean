import Mathlib.Logic.Function.Iterate
import LakeOS.Library.Calendar
import LakeOS.Model.Pit

/-!
# How long the clock is right

Within a day the five updates count the seconds on.  At midnight they never lead to the
next day: `inc_day_and_month` leaves `carry_over` set when the month does not end, so the
year goes on every day, and it starts months with day 0 and years with month 0, which
are no dates.
-/

set_option autoImplicit false

namespace LakeOS.Analysis

open LakeOS.Library LakeOS.Model

/-- The date of a time. -/
def dateOf (t : RtcTime) : Date := ⟨t.year, t.month, t.monthday⟩

/-- A time of the day on a date of the calendar, with a year that fits its field. -/
structure ValidTime (t : RtcTime) : Prop where
  seconds : t.seconds < 60
  minutes : t.minutes < 60
  hours : t.hours < 24
  year : t.year < 2 ^ 16
  date : (dateOf t).Valid

instance (t : RtcTime) : Decidable (ValidTime t) :=
  decidable_of_iff (t.seconds < 60 ∧ t.minutes < 60 ∧ t.hours < 24 ∧ t.year < 2 ^ 16 ∧
      (dateOf t).Valid)
    ⟨fun h => ⟨h.1, h.2.1, h.2.2.1, h.2.2.2.1, h.2.2.2.2⟩,
      fun h => ⟨h.seconds, h.minutes, h.hours, h.year, h.date⟩⟩

/-- The seconds since midnight. -/
def secondOfDay (t : RtcTime) : ℕ := (t.hours * 60 + t.minutes) * 60 + t.seconds

/-- The state after `n` timer interrupts. -/
def interrupts (s : Pit) (n : ℕ) : Pit := irqTimeHandler^[n] s

theorem interrupts_succ (s : Pit) (n : ℕ) :
    interrupts s (n + 1) = irqTimeHandler (interrupts s n) :=
  Function.iterate_succ_apply' irqTimeHandler n s

/-- The interrupt that comes next ends a second. -/
def EndsSecond (s : Pit) : Prop := (s.ticks + 1) % 2 ^ 32 % 1000 = 0

instance (s : Pit) : Decidable (EndsSecond s) := inferInstanceAs (Decidable (_ = _))

/-- The seconds that have passed after `n` timer interrupts. -/
def elapsed (s : Pit) : ℕ → ℕ
  | 0 => 0
  | n + 1 => elapsed s n + if EndsSecond (interrupts s n) then 1 else 0

/-- What the clock is for, over the first `n` interrupts. -/
structure KeepsCalendar (s : Pit) (n : ℕ) : Prop where
  valid : ∀ j ≤ n, ValidTime (interrupts s j).time
  days : ∀ i j, i ≤ j → j ≤ n → ∀ c, elapsed s j = elapsed s i + c * 86400 →
    dateOf (interrupts s j).time = Date.next^[c] (dateOf (interrupts s i).time)
  months : ∀ j < n, (interrupts s (j + 1)).time.month ≠ (interrupts s j).time.month →
    (interrupts s j).time.monthday =
      monthLength (interrupts s j).time.year (interrupts s j).time.month
  years : ∀ j < n, (interrupts s (j + 1)).time.year ≠ (interrupts s j).time.year →
    ((interrupts s j).time.month = 12 ∧ (interrupts s j).time.monthday = 31) ∧
      (interrupts s (j + 1)).time.month = 1 ∧ (interrupts s (j + 1)).time.monthday = 1

/-! ## One interrupt -/

theorem irqTimeHandler_running {s : Pit} (h : ¬ EndsSecond s) :
    (irqTimeHandler s).time = s.time := by
  unfold EndsSecond at h
  simp only [irqTimeHandler, ne_eq, h, not_false_eq_true, if_true]

theorem irqTimeHandler_second {s : Pit} (h : EndsSecond s) :
    (irqTimeHandler s).time = (incSeconds { s with ticks := (s.ticks + 1) % 2 ^ 32 }).time := by
  unfold EndsSecond at h
  simp only [irqTimeHandler, ne_eq, h, not_true_eq_false, if_false]

theorem incUnitOfTime_max {unit max : ℕ} (h : unit = max) : incUnitOfTime unit max = (0, true) :=
  if_pos h

theorem incUnitOfTime_lt {unit max : ℕ} (h : unit < max) (hmax : max < 2 ^ 16) :
    incUnitOfTime unit max = (unit + 1, false) := by
  unfold incUnitOfTime
  rw [if_neg (Nat.ne_of_lt h), Nat.mod_eq_of_lt (by omega)]

/-- A time of the day, whatever the date is. -/
structure ClockTime (t : RtcTime) : Prop where
  seconds : t.seconds < 60
  minutes : t.minutes < 60
  hours : t.hours < 24

theorem ValidTime.clockTime {t : RtcTime} (h : ValidTime t) : ClockTime t :=
  ⟨h.seconds, h.minutes, h.hours⟩

/-- INTERNAL: within a day a second is counted on, and the date stays, also if it is none.
SRCLINE: pit.c:63-65 -/
theorem incSeconds_sameDay {s : Pit} (h : ClockTime s.time)
    (hday : secondOfDay s.time + 1 < 86400) :
    ClockTime (incSeconds s).time ∧ dateOf (incSeconds s).time = dateOf s.time ∧
      secondOfDay (incSeconds s).time = secondOfDay s.time + 1 := by
  obtain ⟨hseconds, hminutes, hhours⟩ := h
  unfold secondOfDay at hday ⊢
  by_cases hsec : s.time.seconds < 59
  · have hs := incUnitOfTime_lt hsec (by decide)
    simp only [incSeconds, hs, Bool.false_eq_true, if_false]
    rw [Nat.mod_eq_of_lt (by omega)]
    exact ⟨⟨by simp only; omega, hminutes, hhours⟩, rfl, by omega⟩
  · have hs := incUnitOfTime_max (show s.time.seconds = 59 by omega)
    by_cases hmin : s.time.minutes < 59
    · have hm := incUnitOfTime_lt hmin (by decide)
      simp only [incSeconds, hs, hm, if_true, Bool.false_eq_true, if_false, Nat.zero_mod]
      rw [Nat.mod_eq_of_lt (by omega)]
      exact ⟨⟨by simp only; omega, by simp only; omega, hhours⟩, rfl, by omega⟩
    · have hm := incUnitOfTime_max (show s.time.minutes = 59 by omega)
      have hh := incUnitOfTime_lt (show s.time.hours < 23 by omega) (by decide)
      simp only [incSeconds, hs, hm, hh, if_true, Bool.false_eq_true, if_false, Nat.zero_mod]
      rw [Nat.mod_eq_of_lt (by omega)]
      exact ⟨⟨by simp only; omega, by simp only; omega, by simp only; omega⟩, rfl, by omega⟩

theorem ClockTime.validTime {t t' : RtcTime} (h' : ClockTime t') (h : ValidTime t)
    (hdate : dateOf t' = dateOf t) : ValidTime t' where
  seconds := h'.seconds
  minutes := h'.minutes
  hours := h'.hours
  year := by
    have hyear : t'.year = t.year := congrArg Date.year hdate
    rw [hyear]
    exact h.year
  date := by
    rw [hdate]
    exact h.date

/-- INTERNAL: within a day a second is counted on, and the date stays.
SRCLINE: pit.c:63-65 -/
theorem incSeconds_day {s : Pit} (h : ValidTime s.time) (hday : secondOfDay s.time + 1 < 86400) :
    ValidTime (incSeconds s).time ∧ dateOf (incSeconds s).time = dateOf s.time ∧
      secondOfDay (incSeconds s).time = secondOfDay s.time + 1 := by
  obtain ⟨hclock, hdate, hsecond⟩ := incSeconds_sameDay h.clockTime hday
  exact ⟨hclock.validTime h hdate, hdate, hsecond⟩

/-- INTERNAL: at midnight the day becomes 0, or the year changes with a day behind the
first.
SRCLINE: pit.c:43-67 -/
theorem incSeconds_midnight {s : Pit} (h : ValidTime s.time)
    (hday : secondOfDay s.time + 1 = 86400) :
    (incSeconds s).time.monthday = 0 ∨
      (incSeconds s).time.monthday = s.time.monthday + 1 ∧
        (incSeconds s).time.year ≠ s.time.year := by
  obtain ⟨hseconds, hminutes, hhours, hyear, hdate⟩ := h
  unfold secondOfDay at hday
  have hlength := monthLength_le s.time.year s.time.month
  have hmonthday : s.time.monthday ≤ 31 := Nat.le_trans hdate.2 hlength
  have hs := incUnitOfTime_max (show s.time.seconds = 59 by omega)
  have hm := incUnitOfTime_max (show s.time.minutes = 59 by omega)
  have hh := incUnitOfTime_max (show s.time.hours = 23 by omega)
  by_cases hlast : s.time.monthday = maxMonthday s.time.year s.time.month
  · left
    simp only [incSeconds, hs, hm, hh, incDayAndMonth, if_pos hlast, if_true]
    split_ifs <;> rfl
  · right
    simp only [incSeconds, hs, hm, hh, incDayAndMonth, if_neg hlast, if_true]
    refine ⟨Nat.mod_eq_of_lt (by omega), ?_⟩
    unfold incUnitOfTime
    split_ifs
    next hyear' =>
      simp only
      omega
    next hyear' =>
      simp only
      omega

/-! ## Runs -/

variable {s : Pit}

/-- INTERNAL: until midnight the date stays and the seconds are counted. -/
theorem interrupts_day (h : ValidTime s.time) {n : ℕ}
    (hday : secondOfDay s.time + elapsed s n < 86400) :
    ValidTime (interrupts s n).time ∧ dateOf (interrupts s n).time = dateOf s.time ∧
      secondOfDay (interrupts s n).time = secondOfDay s.time + elapsed s n := by
  induction n with
  | zero => exact ⟨h, rfl, rfl⟩
  | succ n ih =>
      rw [elapsed] at hday ⊢
      obtain ⟨hvalid, hdate, hsecond⟩ := ih (by omega)
      rw [interrupts_succ]
      by_cases hends : EndsSecond (interrupts s n)
      · rw [if_pos hends] at hday ⊢
        rw [irqTimeHandler_second hends]
        obtain ⟨hvalid', hdate', hsecond'⟩ := incSeconds_day
          (s := { interrupts s n with ticks := ((interrupts s n).ticks + 1) % 2 ^ 32 }) hvalid
          (by simp only; omega)
        refine ⟨hvalid', hdate'.trans hdate, hsecond'.trans ?_⟩
        simp only
        omega
      · rw [if_neg hends, irqTimeHandler_running hends]
        exact ⟨hvalid, hdate, hsecond⟩

theorem elapsed_mono {i j : ℕ} (h : i ≤ j) : elapsed s i ≤ elapsed s j := by
  induction h with
  | refl => exact Nat.le_refl _
  | step _ ih =>
      rw [elapsed]
      omega

/-- INTERNAL: a run that gets to midnight has an interrupt that gets there. -/
theorem exists_midnight (h : ValidTime s.time) {n : ℕ}
    (hday : 86400 ≤ secondOfDay s.time + elapsed s n) :
    ∃ j < n, EndsSecond (interrupts s j) ∧ secondOfDay s.time + elapsed s j + 1 = 86400 := by
  induction n with
  | zero =>
      obtain ⟨hseconds, hminutes, hhours, -, -⟩ := h
      unfold secondOfDay elapsed at hday
      omega
  | succ n ih =>
      by_cases hbefore : 86400 ≤ secondOfDay s.time + elapsed s n
      · obtain ⟨j, hj, hmidnight⟩ := ih hbefore
        exact ⟨j, by omega, hmidnight⟩
      · rw [elapsed] at hday
        split_ifs at hday with hends
        · exact ⟨n, by omega, hends, by omega⟩
        · omega

/-- **The calendar clock.**  From a valid time on the clock keeps to the calendar over `n`
interrupts if and only if it does not get to midnight.
SRCLINE: pit.c:23-68 -/
theorem keepsCalendar_iff (h : ValidTime s.time) (n : ℕ) :
    KeepsCalendar s n ↔ secondOfDay s.time + elapsed s n < 86400 := by
  constructor
  · intro hkeeps
    by_contra hday
    obtain ⟨j, hj, hends, hmidnight⟩ := exists_midnight h (Nat.not_lt.mp hday)
    obtain ⟨hvalid, -, hsecond⟩ := interrupts_day h (n := j) (by omega)
    have htime := irqTimeHandler_second hends
    rw [← interrupts_succ] at htime
    have hstep := incSeconds_midnight
      (s := { interrupts s j with ticks := ((interrupts s j).ticks + 1) % 2 ^ 32 }) hvalid
      (by simp only; omega)
    rw [← htime] at hstep
    obtain hzero | ⟨hday', hyear⟩ := hstep
    · have hpos := (hkeeps.valid (j + 1) hj).date.1
      rw [dateOf, hzero] at hpos
      exact Nat.not_succ_le_zero 0 hpos
    · obtain ⟨-, -, hfirst⟩ := hkeeps.years j hj hyear
      have hpos : 1 ≤ (interrupts s j).time.monthday := hvalid.date.1
      simp only at hday'
      omega
  · intro hday
    have hall : ∀ j ≤ n, ValidTime (interrupts s j).time ∧
        dateOf (interrupts s j).time = dateOf s.time := by
      intro j hj
      have hle := elapsed_mono (s := s) hj
      obtain ⟨hvalid, hdate, -⟩ := interrupts_day h (n := j) (by omega)
      exact ⟨hvalid, hdate⟩
    have hsame : ∀ j < n, dateOf (interrupts s (j + 1)).time = dateOf (interrupts s j).time :=
      fun j hj => (hall (j + 1) hj).2.trans (hall j (Nat.le_of_lt hj)).2.symm
    refine ⟨fun j hj => (hall j hj).1, fun i j hij hj c hc => ?_, fun j hj hne => ?_,
      fun j hj hne => ?_⟩
    · have hle := elapsed_mono (s := s) hj
      obtain rfl : c = 0 := by omega
      exact (hall j hj).2.trans (hall i (Nat.le_trans hij hj)).2.symm
    · exact absurd (congrArg Date.month (hsame j hj)) hne
    · exact absurd (congrArg Date.year (hsame j hj)) hne

/-- The last second of the 1st of March 2025. -/
def endOfMarchFirst : Pit where
  time := ⟨2025, 59, 59, 23, 1, 3⟩
  carryOver := false
  ticks := 999

theorem keepsCalendar_iff_second :
    KeepsCalendar endOfMarchFirst 0 ∧ ¬ KeepsCalendar endOfMarchFirst 1 :=
  ⟨(keepsCalendar_iff (by decide) 0).mpr (by decide),
    fun h => absurd ((keepsCalendar_iff (by decide) 1).mp h) (by decide)⟩

/-- A second later it is the 2nd of March 2026. -/
theorem march_first_into_next_year :
    ValidTime endOfMarchFirst.time ∧
      (irqTimeHandler endOfMarchFirst).time = ⟨2026, 0, 0, 0, 2, 3⟩ ∧
      ¬ KeepsCalendar endOfMarchFirst 1 := by
  refine ⟨by decide, by decide, fun h => ?_⟩
  have hyear := h.years 0 (by decide) (by decide)
  exact absurd hyear (by decide)

end LakeOS.Analysis
