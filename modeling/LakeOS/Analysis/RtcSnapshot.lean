import Mathlib.Data.Nat.Bitwise
import LakeOS.Library.ClockFace
import LakeOS.Library.SteadyReading
import LakeOS.Model.RtcInit
import LakeOS.Analysis.CalendarClock

/-!
# The time that is read at boot

A wait for an update takes at most `b` polls, and the registers of the time change at most once
while three waits and four readings go on.  Then `RTC_init` comes to an end, and the time that it
converts is the one that the clock had at a single access, although it has read six registers at
six accesses.  The second result says for which clocks the conversion is right.
-/

set_option autoImplicit false

namespace LakeOS.Analysis

open LakeOS.Library LakeOS.Model

/-- The registers of the time, in the order in which they are read. -/
def timeRegisters : List RtcRegister := [.seconds, .minutes, .hours, .monthday, .month, .year]

@[simp] theorem timeRegisters_length : timeRegisters.length = 6 := rfl

/-- The time that the clock shows at an access. -/
def timeAt (clock : ℕ → RtcRegister → ℕ) (t : ℕ) : RtcTime where
  year := clock t .year
  seconds := clock t .seconds
  minutes := clock t .minutes
  hours := clock t .hours
  monthday := clock t .monthday
  month := clock t .month

/-- What is assumed of the clock: the flag for an update is clear at one of any `b` accesses, and
the time changes at most once while three waits and four readings go on. -/
structure RunsSlowly (b : ℕ) (clock : ℕ → RtcRegister → ℕ) : Prop where
  ready (t : ℕ) : ∃ k < b, clock (t + k) .statusA &&& 0x40 = 0
  once (t : ℕ) : ChangesOnce clock timeRegisters t (t + (3 * b + 24))

section reading

variable {clock : ℕ → RtcRegister → ℕ} {b : ℕ}

@[simp] theorem rtcReadTime_snd (t : ℕ) : (rtcReadTime clock t).2 = t + 6 := rfl

/-- INTERNAL: two times are taken for the same when the registers were. -/
theorem compTime_rtcReadTime (s u : ℕ) :
    compTime (rtcReadTime clock s).1 (rtcReadTime clock u).1 = true ↔
      reading clock timeRegisters s = reading clock timeRegisters u := by
  rw [compTime, decide_eq_true_iff]
  simp [rtcReadTime, cmosRead, reading, timeRegisters]

/-- INTERNAL: a reading with the registers of one access is the time of that access. -/
theorem rtcReadTime_eq_timeAt {u m : ℕ}
    (h : reading clock timeRegisters u = timeRegisters.map (clock m)) :
    (rtcReadTime clock u).1 = timeAt clock m := by
  simpa [rtcReadTime, cmosRead, reading, timeRegisters, timeAt, and_assoc, and_comm,
    and_left_comm] using h

/-- INTERNAL: a wait ends after the polls that it takes until the flag is clear. -/
theorem rtcWaitUpdate_ends {k : ℕ} :
    ∀ {fuel t : ℕ}, clock (t + k) .statusA &&& 0x40 = 0 → k < fuel →
      ∃ u, rtcWaitUpdate clock fuel t = some u ∧ t ≤ u ∧ u ≤ t + k + 1 := by
  induction k with
  | zero =>
    intro fuel t hclear hfuel
    obtain ⟨fuel, rfl⟩ := Nat.exists_eq_succ_of_ne_zero (by omega : fuel ≠ 0)
    rw [Nat.add_zero] at hclear
    exact ⟨t + 1, by simp [rtcWaitUpdate, cmosRead, hclear], by omega, by omega⟩
  | succ k ih =>
    intro fuel t hclear hfuel
    obtain ⟨fuel, rfl⟩ := Nat.exists_eq_succ_of_ne_zero (by omega : fuel ≠ 0)
    by_cases hnow : clock t .statusA &&& 0x40 = 0
    · exact ⟨t + 1, by simp [rtcWaitUpdate, cmosRead, hnow], by omega, by omega⟩
    · have hlater : clock (t + 1 + k) .statusA &&& 0x40 = 0 := by
        rwa [show t + 1 + k = t + (k + 1) by omega]
      obtain ⟨u, hu, htu, hut⟩ := ih hlater (by omega : k < fuel)
      exact ⟨u, by simpa [rtcWaitUpdate, cmosRead, hnow] using hu, by omega, by omega⟩

theorem RunsSlowly.rtcWaitUpdate_ends (h : RunsSlowly b clock) {fuel : ℕ} (hfuel : b ≤ fuel)
    (t : ℕ) : ∃ u, rtcWaitUpdate clock fuel t = some u ∧ t ≤ u ∧ u ≤ t + b := by
  obtain ⟨k, hk, hclear⟩ := h.ready t
  obtain ⟨u, hu, htu, hut⟩ := Analysis.rtcWaitUpdate_ends hclear (hk.trans_le hfuel)
  exact ⟨u, hu, htu, by omega⟩

/-- One round of the loop: a wait and a reading at `u`, and the end of the loop if it agrees with
the reading before at `s`. -/
theorem RunsSlowly.rtcReadLoop_step (h : RunsSlowly b clock) (fuel s : ℕ)
    (hfuel : b ≤ fuel + 1) : ∃ u, s + 6 ≤ u ∧ u ≤ s + 6 + b ∧
      rtcReadLoop clock (fuel + 1) (rtcReadTime clock s).1 (s + 6) =
        if reading clock timeRegisters s = reading clock timeRegisters u then
          some ((rtcReadTime clock u).1, u + 6)
        else rtcReadLoop clock fuel (rtcReadTime clock u).1 (u + 6) := by
  obtain ⟨u, hu, hsu, hub⟩ := h.rtcWaitUpdate_ends hfuel (s + 6)
  refine ⟨u, hsu, hub, ?_⟩
  rw [rtcReadLoop, hu, Option.bind_some]
  simp only [compTime_rtcReadTime, rtcReadTime_snd]

/-- The loop ends after three rounds at most, with two readings that agree. -/
theorem RunsSlowly.rtcReadLoop_ends (h : RunsSlowly b clock) {fuel : ℕ} (hfuel : b + 2 ≤ fuel)
    (s : ℕ) : ∃ s' u, s ≤ s' ∧ s' + 6 ≤ u ∧ u ≤ s + 18 + 3 * b ∧
      reading clock timeRegisters s' = reading clock timeRegisters u ∧
      rtcReadLoop clock (fuel + 1) (rtcReadTime clock s).1 (s + 6) =
        some ((rtcReadTime clock u).1, u + 6) := by
  obtain ⟨fuel, rfl⟩ := Nat.exists_eq_add_of_le' (by omega : 2 ≤ fuel)
  obtain ⟨u₁, h₁, hb₁, hstep₁⟩ := h.rtcReadLoop_step (fuel + 2) s (by omega)
  obtain ⟨u₂, h₂, hb₂, hstep₂⟩ := h.rtcReadLoop_step (fuel + 1) u₁ (by omega)
  obtain ⟨u₃, h₃, hb₃, hstep₃⟩ := h.rtcReadLoop_step fuel u₂ (by omega)
  rw [hstep₁, hstep₂, hstep₃]
  by_cases heq₁ : reading clock timeRegisters s = reading clock timeRegisters u₁
  · exact ⟨s, u₁, le_rfl, h₁, by omega, heq₁, if_pos heq₁⟩
  rw [if_neg heq₁]
  by_cases heq₂ : reading clock timeRegisters u₁ = reading clock timeRegisters u₂
  · exact ⟨u₁, u₂, by omega, h₂, by omega, heq₂, if_pos heq₂⟩
  rw [if_neg heq₂]
  -- the change was before the third reading
  have hagree := reading_agrees (by simpa using h₁) (by simpa using h₂) (by simpa using h₃)
    ((h.once s).mono le_rfl (by simp only [timeRegisters_length]; omega))
  have heq₃ := hagree.resolve_left heq₁
  exact ⟨u₂, u₃, by omega, h₃, by omega, heq₃, if_pos heq₃⟩

/-- **The time at boot is that of one moment.**  On a clock that runs slowly `RTC_init` ends, and
there is a single access at which the clock had the time that it converts. -/
theorem rtcInit_snapshot (b fuel : ℕ) (clock : ℕ → RtcRegister → ℕ) (staticCarry : Bool)
    (h : RunsSlowly b clock) (hfuel : b + 3 ≤ fuel) :
    ∃ m e, m < e ∧ e ≤ 4 * b + 24 ∧ rtcInit clock fuel staticCarry =
      some (rtcSubHours (rtcConvert (clock e .statusB) (timeAt clock m)) 4 staticCarry) := by
  obtain ⟨fuel, rfl⟩ := Nat.exists_eq_succ_of_ne_zero (by omega : fuel ≠ 0)
  obtain ⟨s, hs, -, hsb⟩ := h.rtcWaitUpdate_ends (by omega : b ≤ fuel + 1) 0
  obtain ⟨s', u, hs', hu, hub, heq, hloop⟩ := h.rtcReadLoop_ends (by omega : b + 2 ≤ fuel) s
  have honce := (h.once s).mono hs' (by omega : u + 6 ≤ s + (3 * b + 24))
  obtain ⟨m, -, hm, hsnap⟩ := reading_snapshot (by simpa using hu) honce heq
  refine ⟨m, u + 6, by omega, by omega, ?_⟩
  rw [rtcInit, hs, Option.bind_some]
  simp only [rtcReadTime_snd, hloop, Option.map_some, rtcReadTime_eq_timeAt hsnap]
  rfl

end reading

/-- A clock that goes from 10:04:59 to 10:05:00 while the second reading is going on. -/
def minuteClock (t : ℕ) : RtcRegister → ℕ
  | .seconds => if t < 9 then 59 else 0
  | .minutes => if t < 9 then 4 else 5
  | .hours => 10
  | .monthday => 3
  | .month => 7
  | .year => 25
  | .statusA => 0
  | .statusB => 6

theorem runsSlowly_minuteClock : RunsSlowly 1 minuteClock where
  ready _ := ⟨0, Nat.one_pos, Nat.zero_and 0x40⟩
  once t := by
    refine ⟨9, fun t' ht ht' r _ => ?_, fun t' ht _ r _ => ?_⟩
    · have hlt : t < 9 := by omega
      cases r <;> simp [minuteClock, hlt, ht']
    · cases r <;> simp [minuteClock, Nat.not_lt.mpr ht]

theorem rtcInit_snapshot_minuteClock :
    ∃ m e, m < e ∧ e ≤ 4 * 1 + 24 ∧ rtcInit minuteClock 4 false =
      some (rtcSubHours (rtcConvert (minuteClock e .statusB) (timeAt minuteClock m)) 4 false) :=
  rtcInit_snapshot 1 4 minuteClock false runsSlowly_minuteClock le_rfl

/-! ## The conversion -/

/-- A time on the registers of a clock with register B, which has two digits for the year. -/
def timeFace (regb : ℕ) (time : RtcTime) : RtcTime where
  year := registerFace (regb.testBit 2) (time.year % 100)
  seconds := registerFace (regb.testBit 2) time.seconds
  minutes := registerFace (regb.testBit 2) time.minutes
  hours := hourFace (regb.testBit 2) (regb.testBit 1) time.hours
  monthday := registerFace (regb.testBit 2) time.monthday
  month := registerFace (regb.testBit 2) time.month

/-- A register as `RTC_init` reads it. -/
def unface (binary : Bool) (x : ℕ) : ℕ := if binary then x else bcdToBin x

/-- The hour as `RTC_init` reads it. -/
def unfaceHour (binary twentyFour : Bool) (x : ℕ) : ℕ :=
  if twentyFour = false ∧ unface binary x &&& 0x80 ≠ 0 then
    ((unface binary x &&& 0x7F) + 12) % 24
  else unface binary x

/-- The year as `RTC_init` completes it. -/
def fullYear (x : ℕ) : ℕ :=
  if (x + 2000) % 2 ^ 16 < 2025 then ((x + 2000) % 2 ^ 16 + 100) % 2 ^ 16
  else (x + 2000) % 2 ^ 16

section face

variable {regb : ℕ} {time : RtcTime}

theorem and_eq_zero_iff (regb i : ℕ) : regb &&& 2 ^ i = 0 ↔ regb.testBit i = false := by
  rw [Nat.and_two_pow]
  cases regb.testBit i <;> simp

/-- The conversion register by register. -/
theorem rtcConvert_eq (hyear : time.year < 2 ^ 8) : rtcConvert regb time =
    { year := fullYear (unface (regb.testBit 2) time.year)
      seconds := unface (regb.testBit 2) time.seconds
      minutes := unface (regb.testBit 2) time.minutes
      hours := unfaceHour (regb.testBit 2) (regb.testBit 1) time.hours
      monthday := unface (regb.testBit 2) time.monthday
      month := unface (regb.testBit 2) time.month } := by
  have hbinary := and_eq_zero_iff regb 2
  have hhours := and_eq_zero_iff regb 1
  simp only [Nat.reducePow] at hbinary hhours
  simp only [rtcConvert, hbinary, hhours, Nat.mod_eq_of_lt hyear]
  cases regb.testBit 2 <;> cases regb.testBit 1 <;>
    simp [unface, unfaceHour, fullYear, apply_ite]

theorem bcdToBin_packedDecimal : ∀ n < 100, bcdToBin (packedDecimal n) = n := by decide

theorem registerFace_lt {binary : Bool} {n : ℕ} (hn : n < 100) :
    registerFace binary n < 2 ^ 8 := by
  cases binary
  · simp only [registerFace, packedDecimal, Bool.false_eq_true, if_false]
    omega
  · simp only [registerFace, if_true]
    omega

theorem unface_registerFace (binary : Bool) {n : ℕ} (hn : n < 100) :
    unface binary (registerFace binary n) = n := by
  cases binary
  · exact bcdToBin_packedDecimal n hn
  · rfl

/-- The hours that come back from their registers: all of a clock with 24 hours, and otherwise those
of the morning but the first, and with binary registers those of the afternoon but the first. -/
theorem unfaceHour_hourFace : ∀ binary twentyFour, ∀ h < 24,
    unfaceHour binary twentyFour (hourFace binary twentyFour h) = h ↔
      twentyFour = true ∨ (1 ≤ h ∧ h < 12) ∨ (binary = true ∧ 13 ≤ h) := by decide

/-- Two digits are completed to a year of the hundred from 2025 on. -/
theorem fullYear_mod (y : ℕ) : fullYear (y % 100) = y ↔ 2025 ≤ y ∧ y < 2125 := by
  have hy : y % 100 < 100 := Nat.mod_lt y (by decide)
  have hfirst : (y % 100 + 2000) % 2 ^ 16 = y % 100 + 2000 := by omega
  have hnext : (y % 100 + 2000 + 100) % 2 ^ 16 = y % 100 + 2000 + 100 := by omega
  rw [fullYear, hfirst, hnext]
  split <;> omega

/-- INTERNAL: a valid date has a month up to 12 and a day up to 31. -/
theorem ValidTime.month_and_day (h : ValidTime time) : time.month ≤ 12 ∧ time.monthday ≤ 31 := by
  obtain ⟨hpos, hle⟩ := h.date
  simp only [dateOf] at hpos hle
  refine ⟨?_, hle.trans (monthLength_le _ _)⟩
  by_contra hmonth
  have hzero : monthLength time.year time.month = 0 := by
    unfold monthLength
    split_ifs <;> omega
  omega

/-- **When the time at boot is right.**  `RTC_init` makes the time of the registers that show it in
exactly the hundred years from 2025 on, and on a clock with 12 hours not in the first hour of either
half, nor in the afternoon when the registers are not binary. -/
theorem rtcConvert_timeFace (regb : ℕ) (time : RtcTime) (h : ValidTime time) :
    rtcConvert regb (timeFace regb time) = time ↔
      (2025 ≤ time.year ∧ time.year < 2125) ∧
        (regb.testBit 1 = true ∨ (1 ≤ time.hours ∧ time.hours < 12) ∨
          (regb.testBit 2 = true ∧ 13 ≤ time.hours)) := by
  obtain ⟨hmonth, hday⟩ := h.month_and_day
  have hseconds := h.seconds
  have hminutes := h.minutes
  have hyear : (timeFace regb time).year < 2 ^ 8 := registerFace_lt (Nat.mod_lt _ (by decide))
  rw [rtcConvert_eq hyear, RtcTime.mk.injEq]
  simp only [timeFace, unface_registerFace _ (Nat.mod_lt _ (by decide : 0 < 100)),
    unface_registerFace _ (by omega : time.seconds < 100),
    unface_registerFace _ (by omega : time.minutes < 100),
    unface_registerFace _ (by omega : time.monthday < 100),
    unface_registerFace _ (by omega : time.month < 100), fullYear_mod,
    unfaceHour_hourFace _ _ _ h.hours, true_and, and_true]

theorem rtcConvert_timeFace_afternoon :
    rtcConvert 4 (timeFace 4 ⟨2030, 7, 30, 15, 21, 6⟩) = ⟨2030, 7, 30, 15, 21, 6⟩ :=
  (rtcConvert_timeFace 4 ⟨2030, 7, 30, 15, 21, 6⟩ (by decide)).mpr (by decide)

end face

end LakeOS.Analysis
