import LakeOS.Model.Rtc

/-!
# Reading the time at boot

`RTC_init` reads the registers of the clock one after the other, over and over until it has read the
same time twice.  The clock runs on meanwhile: `clock t` has its registers at the `t`-th access.
The wait for an update carries fuel, as does the loop around it, and answers `none` without it.
-/

set_option autoImplicit false

namespace LakeOS.Model

/-- `e_RTCRegisters`, with the registers that are read.
SRCLINE: rtc.h:27-47 -/
inductive RtcRegister where
  | seconds | minutes | hours | monthday | month | year | statusA | statusB
deriving DecidableEq

/-- A register at the access that is made now, and the number of the next one.
SRCLINE: rtc.c:15-18 -/
def cmosRead (clock : ℕ → RtcRegister → ℕ) (r : RtcRegister) (t : ℕ) : ℕ × ℕ := (clock t r, t + 1)

/-- SRCLINE: rtc.c:20-29 -/
def compTime (a b : RtcTime) : Bool :=
  a.seconds = b.seconds ∧ a.minutes = b.minutes ∧ a.hours = b.hours ∧ a.monthday = b.monthday ∧
    a.month = b.month ∧ a.year = b.year

/-- SRCLINE: rtc.c:67-76 -/
def rtcReadTime (clock : ℕ → RtcRegister → ℕ) (t : ℕ) : RtcTime × ℕ :=
  let (seconds, t) := cmosRead clock .seconds t
  let (minutes, t) := cmosRead clock .minutes t
  let (hours, t) := cmosRead clock .hours t
  let (monthday, t) := cmosRead clock .monthday t
  let (month, t) := cmosRead clock .month t
  let (year, t) := cmosRead clock .year t
  ({ year, seconds, minutes, hours, monthday, month }, t)

/-- SRCLINE: rtc.c:78-80 -/
def rtcWaitUpdate (clock : ℕ → RtcRegister → ℕ) : ℕ → ℕ → Option ℕ
  | 0, _ => none
  | fuel + 1, t =>
    let (statusA, t) := cmosRead clock .statusA t
    if statusA &&& 0x40 ≠ 0 then rtcWaitUpdate clock fuel t else some t

/-- The loop, with the time that was read last.
SRCLINE: rtc.c:91-95 -/
def rtcReadLoop (clock : ℕ → RtcRegister → ℕ) : ℕ → RtcTime → ℕ → Option (RtcTime × ℕ)
  | 0, _, _ => none
  | fuel + 1, tmpTime, t =>
    (rtcWaitUpdate clock (fuel + 1) t).bind fun t =>
      let (time, t) := rtcReadTime clock t
      if compTime tmpTime time then some (time, t) else rtcReadLoop clock fuel time t

/-- SRCLINE: rtc.c:82-84 -/
def bcdToBin (x : ℕ) : ℕ := ((x &&& 0x0F) + x / 16 * 10) % 2 ^ 8

/-- What is made of the registers, with register B.
SRCLINE: rtc.c:97-116 -/
def rtcConvert (regb : ℕ) (time : RtcTime) : RtcTime :=
  let time := if regb &&& 0x04 = 0 then
      { year := bcdToBin (time.year % 2 ^ 8)
        seconds := bcdToBin time.seconds
        minutes := bcdToBin time.minutes
        hours := bcdToBin time.hours
        monthday := bcdToBin time.monthday
        month := bcdToBin time.month }
    else time
  let time := if regb &&& 0x02 = 0 ∧ time.hours &&& 0x80 ≠ 0 then
      { time with hours := ((time.hours &&& 0x7F) + 12) % 24 }
    else time
  let year := (time.year + 2025 / 100 * 100) % 2 ^ 16
  { time with year := if year < 2025 then (year + 100) % 2 ^ 16 else year }

/-- SRCLINE: rtc.c:86-120 -/
def rtcInit (clock : ℕ → RtcRegister → ℕ) (fuel : ℕ) (staticCarry : Bool) :
    Option (RtcTime × Bool) :=
  (rtcWaitUpdate clock fuel 0).bind fun t =>
    let (time, t) := rtcReadTime clock t
    (rtcReadLoop clock fuel time t).map fun (time, t) =>
      let (regb, _) := cmosRead clock .statusB t
      rtcSubHours (rtcConvert regb time) 4 staticCarry

end LakeOS.Model
