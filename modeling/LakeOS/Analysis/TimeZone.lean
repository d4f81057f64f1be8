import LakeOS.Analysis.CalendarClock
import LakeOS.Model.Rtc

/-!
# Shifting the clock and running it on

A shift within a day is undone when the clock runs on for as long.  A shift to the day before
never is: the clock gets to midnight, and there it starts a month with day 0 or goes on to the
next year.
-/

set_option autoImplicit false

namespace LakeOS.Analysis

open LakeOS.Library LakeOS.Model

/-- The state after `n` seconds. -/
def secondsOn (s : Pit) (n : ℕ) : Pit := incSeconds^[n] s

theorem secondsOn_succ (s : Pit) (n : ℕ) : secondsOn s (n + 1) = incSeconds (secondsOn s n) :=
  Function.iterate_succ_apply' incSeconds n s

theorem secondsOn_add (s : Pit) (m n : ℕ) :
    secondsOn s (m + n) = secondsOn (secondsOn s m) n := by
  rw [Nat.add_comm]
  exact Function.iterate_add_apply incSeconds n m s

/-- The shifted time is a valid one, and the clock leads from it back to the time, whatever its
static variables hold. -/
structure ShiftInverse (t : RtcTime) (numHours : ℕ) : Prop where
  valid : ∀ carry, ValidTime (rtcSubHours t numHours carry).1
  inverse : ∀ (carry : Bool) (s : Pit), s.time = (rtcSubHours t numHours carry).1 →
    (secondsOn s (numHours * 3600)).time = t

/-! ## Seconds -/

theorem incDayAndMonth_ticks (time : RtcTime) (carryOver : Bool) (ticks ticks' : ℕ) :
    incDayAndMonth ⟨time, carryOver, ticks⟩ =
      { incDayAndMonth ⟨time, carryOver, ticks'⟩ with ticks := ticks } := by
  simp only [incDayAndMonth]
  split_ifs <;> rfl

/-- INTERNAL: the count of the interrupts is not looked at. -/
theorem incSeconds_ticks (s : Pit) (ticks : ℕ) :
    incSeconds { s with ticks := ticks } = { incSeconds s with ticks := ticks } := by
  obtain ⟨⟨seconds, carry⟩, hs⟩ : ∃ r, incUnitOfTime s.time.seconds 59 = r := ⟨_, rfl⟩
  obtain ⟨⟨minutes, carry'⟩, hm⟩ : ∃ r, incUnitOfTime s.time.minutes 59 = r := ⟨_, rfl⟩
  obtain ⟨⟨hours, carry''⟩, hh⟩ : ∃ r, incUnitOfTime s.time.hours 23 = r := ⟨_, rfl⟩
  cases carry with
  | false => simp only [incSeconds, hs, Bool.false_eq_true, if_false]
  | true =>
      cases carry' with
      | false => simp only [incSeconds, hs, hm, Bool.false_eq_true, if_false, if_true]
      | true =>
          cases carry'' with
          | false => simp only [incSeconds, hs, hm, hh, Bool.false_eq_true, if_false, if_true]
          | true =>
              simp only [incSeconds, hs, hm, hh, if_true]
              rw [incDayAndMonth_ticks _ _ ticks s.ticks]
              split_ifs <;> rfl

/-- **What the timer interrupts do to the time** is done by the seconds that pass.
SRCLINE: pit.c:57-68 -/
theorem interrupts_eq (s : Pit) (n : ℕ) :
    interrupts s n = { secondsOn s (elapsed s n) with ticks := (interrupts s n).ticks } := by
  induction n with
  | zero => rfl
  | succ n ih =>
      rw [interrupts_succ, elapsed]
      by_cases hends : EndsSecond (interrupts s n)
      · rw [if_pos hends, secondsOn_succ]
        unfold EndsSecond at hends
        simp only [irqTimeHandler, ne_eq, hends, not_true_eq_false, if_false]
        rw [ih]
        simp only [incSeconds_ticks]
      · rw [if_neg hends, Nat.add_zero]
        unfold EndsSecond at hends
        simp only [irqTimeHandler, ne_eq, hends, not_false_eq_true, if_true]
        rw [ih]

variable {s : Pit} {t : RtcTime} {n numHours : ℕ} {carry : Bool}

/-- INTERNAL: until midnight the date stays, also if it is none. -/
theorem secondsOn_sameDay (h : ClockTime s.time) (hday : secondOfDay s.time + n < 86400) :
    ClockTime (secondsOn s n).time ∧ dateOf (secondsOn s n).time = dateOf s.time ∧
      secondOfDay (secondsOn s n).time = secondOfDay s.time + n := by
  induction n with
  | zero => exact ⟨h, rfl, rfl⟩
  | succ n ih =>
      obtain ⟨hclock, hdate, hsecond⟩ := ih (by omega)
      obtain ⟨hclock', hdate', hsecond'⟩ := incSeconds_sameDay hclock (by omega)
      rw [secondsOn_succ]
      exact ⟨hclock', hdate'.trans hdate, by omega⟩

/-- INTERNAL: at midnight the time of the day starts again. -/
theorem incSeconds_newDay (h : ClockTime s.time) (hday : secondOfDay s.time + 1 = 86400) :
    ClockTime (incSeconds s).time ∧ secondOfDay (incSeconds s).time = 0 := by
  obtain ⟨hseconds, hminutes, hhours⟩ := h
  unfold secondOfDay at hday ⊢
  have hs := incUnitOfTime_max (show s.time.seconds = 59 by omega)
  have hm := incUnitOfTime_max (show s.time.minutes = 59 by omega)
  have hh := incUnitOfTime_max (show s.time.hours = 23 by omega)
  have hzero : (incSeconds s).time.seconds = 0 ∧ (incSeconds s).time.minutes = 0 ∧
      (incSeconds s).time.hours = 0 := by
    simp only [incSeconds, incDayAndMonth, hs, hm, hh, if_true, Nat.zero_mod]
    split_ifs <;> exact ⟨rfl, rfl, rfl⟩
  obtain ⟨hsec, hmin, hhour⟩ := hzero
  exact ⟨⟨by omega, by omega, by omega⟩, by omega⟩

/-- INTERNAL: a time is its date and its second. -/
theorem rtcTime_eq {t' : RtcTime} (h : ClockTime t) (h' : ClockTime t')
    (hdate : dateOf t' = dateOf t) (hsecond : secondOfDay t' = secondOfDay t) : t' = t := by
  obtain ⟨hs, hm, hh⟩ := h
  obtain ⟨hs', hm', hh'⟩ := h'
  obtain ⟨year, seconds, minutes, hours, monthday, month⟩ := t
  obtain ⟨year', seconds', minutes', hours', monthday', month'⟩ := t'
  simp only [dateOf, Date.mk.injEq] at hdate
  simp only [secondOfDay] at hsecond
  simp only at hs hm hh hs' hm' hh'
  obtain ⟨rfl, rfl, rfl⟩ := hdate
  simp only [RtcTime.mk.injEq, true_and, and_true]
  omega

/-! ## Shifts -/

/-- INTERNAL: a shift within the day.
SRCLINE: rtc.c:58-59 -/
theorem rtcSubHours_sameDay (hle : numHours ≤ t.hours) (carry : Bool) :
    (rtcSubHours t numHours carry).1 = { t with hours := t.hours - numHours } := by
  rw [rtcSubHours, if_pos hle]

/-- INTERNAL: a shift to the day before keeps the year, and takes the hours from those of two
days.
SRCLINE: rtc.c:60-64 -/
theorem rtcSubHours_dayBefore (h : ValidTime t) (hlt : t.hours < numHours) (hle : numHours ≤ 24)
    (carry : Bool) :
    (rtcSubHours t numHours carry).1.year = t.year ∧
      secondOfDay (rtcSubHours t numHours carry).1 + numHours * 3600 = secondOfDay t + 86400 := by
  have hhours := h.hours
  have hmod : (t.hours + 24 + 2 ^ 8 - numHours) % 2 ^ 8 = t.hours + 24 - numHours := by omega
  rw [rtcSubHours, if_neg (Nat.not_le_of_lt hlt)]
  simp only [Bool.false_eq_true, if_false, hmod, secondOfDay, true_and]
  omega

/-- INTERNAL: a shift within the day is undone. -/
theorem shiftInverse_of_le (h : ValidTime t) (hle : numHours ≤ t.hours) :
    ShiftInverse t numHours := by
  obtain ⟨hseconds, hminutes, hhours, hyear, hdate⟩ := h
  have hclock : ClockTime { t with hours := t.hours - numHours } :=
    ⟨hseconds, hminutes, by simp only; omega⟩
  refine ⟨fun carry => ?_, fun carry s hs => ?_⟩
  · rw [rtcSubHours_sameDay hle]
    exact ⟨hseconds, hminutes, hclock.hours, hyear, hdate⟩
  · rw [rtcSubHours_sameDay hle] at hs
    have hsecond : secondOfDay s.time + numHours * 3600 = secondOfDay t := by
      rw [hs]
      simp only [secondOfDay]
      omega
    have hday : secondOfDay t < 86400 := by
      unfold secondOfDay
      omega
    obtain ⟨hclock', hdate', hsecond'⟩ := secondsOn_sameDay (hs ▸ hclock) (hsecond ▸ hday)
    apply rtcTime_eq ⟨hseconds, hminutes, hhours⟩ hclock'
    · rw [hdate', hs]
      rfl
    · rw [hsecond', hsecond]

/-- INTERNAL: **a clock that gets to midnight** within a day does not come to a valid time of the
year that it started in.
SRCLINE: pit.c:43-67 -/
theorem secondsOn_midnight (h : ValidTime s.time) (hmidnight : 86400 ≤ secondOfDay s.time + n)
    (hday : secondOfDay s.time + n < 2 * 86400) :
    (secondsOn s n).time.monthday = 0 ∨ (secondsOn s n).time.year ≠ s.time.year := by
  have hclock := h.clockTime
  have hbefore : secondOfDay s.time < 86400 := by
    have hs := hclock.seconds
    have hm := hclock.minutes
    have hh := hclock.hours
    unfold secondOfDay
    omega
  -- the last second of the day, midnight, and the rest
  obtain ⟨k, hk⟩ : ∃ k, secondOfDay s.time + k + 1 = 86400 := ⟨86399 - secondOfDay s.time, by omega⟩
  obtain ⟨rest, rfl⟩ : ∃ rest, n = k + 1 + rest := ⟨n - (k + 1), by omega⟩
  obtain ⟨hclock₁, hdate₁, hsecond₁⟩ := secondsOn_sameDay hclock (n := k) (by omega)
  have hstep := incSeconds_midnight (hclock₁.validTime h hdate₁) (by omega)
  obtain ⟨hclock₂, hsecond₂⟩ := incSeconds_newDay hclock₁ (by omega)
  have hrest := secondsOn_sameDay hclock₂ (n := rest) (by omega)
  rw [secondsOn_add, secondsOn_succ]
  have hdate := hrest.2.1
  have hmonthday := congrArg Date.day hdate
  have hyear := congrArg Date.year hdate
  have hyear₁ := congrArg Date.year hdate₁
  simp only [dateOf] at hmonthday hyear hyear₁
  rw [hmonthday, hyear, ← hyear₁]
  exact hstep.imp_right And.right

/-- INTERNAL: a shift to the day before is not undone. -/
theorem not_shiftInverse (h : ValidTime t) (hlt : t.hours < numHours) (hle : numHours ≤ 24) :
    ¬ ShiftInverse t numHours := by
  intro hshift
  obtain ⟨hyear, hsecond⟩ := rtcSubHours_dayBefore h hlt hle false
  have hday : secondOfDay t < 86400 := by
    have hs := h.seconds
    have hm := h.minutes
    have hh := h.hours
    unfold secondOfDay
    omega
  have hback := hshift.inverse false ⟨(rtcSubHours t numHours false).1, false, 0⟩ rfl
  have hend := secondsOn_midnight (s := ⟨(rtcSubHours t numHours false).1, false, 0⟩)
    (n := numHours * 3600) (hshift.valid false) (by simp only; omega) (by simp only; omega)
  rw [hback] at hend
  rcases hend with hzero | hother
  · have hpos : 1 ≤ t.monthday := h.date.1
    omega
  · exact hother hyear.symm

/-- **A shift to another zone** is undone by the clock if and only if it stays within the day.
SRCLINE: rtc.c:31-65, pit.c:34-68 -/
theorem shiftInverse_iff {t : RtcTime} (h : ValidTime t) {numHours : ℕ} (hle : numHours ≤ 24) :
    ShiftInverse t numHours ↔ numHours ≤ t.hours := by
  constructor
  · intro hshift
    by_contra hlt
    exact not_shiftInverse h (Nat.lt_of_not_le hlt) hle hshift
  · exact shiftInverse_of_le h

theorem shiftInverse_morning : ShiftInverse ⟨2025, 59, 59, 6, 1, 3⟩ 4 :=
  (shiftInverse_iff (by decide) (by decide)).mpr (by decide)

/-- Four hours before the 15th of March 2025, 02:00, it is the 14th; four hours later it is the
15th of March 2026.  The 1st of March is shifted to a day 0. -/
theorem rtcSubHours_not_undone :
    ValidTime ⟨2025, 0, 0, 2, 15, 3⟩ ∧
      (rtcSubHours ⟨2025, 0, 0, 2, 15, 3⟩ 4 false).1 = ⟨2025, 0, 0, 22, 14, 3⟩ ∧
      ¬ ShiftInverse ⟨2025, 0, 0, 2, 15, 3⟩ 4 ∧
    ValidTime ⟨2025, 0, 0, 2, 1, 3⟩ ∧
      (rtcSubHours ⟨2025, 0, 0, 2, 1, 3⟩ 4 false).1 = ⟨2025, 0, 0, 22, 0, 3⟩ ∧
      ¬ ValidTime (rtcSubHours ⟨2025, 0, 0, 2, 1, 3⟩ 4 false).1 :=
  ⟨by decide, by decide, not_shiftInverse (by decide) (by decide) (by decide), by decide,
    by decide, by decide⟩

end LakeOS.Analysis
