import LakeOS.Model.Pit

/-!
# Shifting a time to another zone

`RTC_sub_hours` takes hours from a time.  When this leads to the day before, it counts the date
back with months and days from 0 on, as `pit.c` counts it on.  Its variable `carry` is its own,
not the static one that `RTC_sub_month_and_day` sets.
-/

set_option autoImplicit false

namespace LakeOS.Model

/-- What `RTC_sub_month_and_day` leaves behind its two pointers and in the static `carry`. -/
structure RtcSubDate where
  month : ℕ
  monthday : ℕ
  carry : Bool

/-- SRCLINE: rtc.c:39-54 -/
def rtcSubMonthAndDay (year month monthday : ℕ) (carry : Bool) : RtcSubDate :=
  if monthday ≠ 0 then ⟨month, monthday - 1, carry⟩
  else if month ≠ 0 then ⟨month - 1, maxMonthday year (month - 1), carry⟩
  else ⟨12, maxMonthday year 12, true⟩

/-- The time and the static `carry`.
SRCLINE: rtc.c:56-65 -/
def rtcSubHours (time : RtcTime) (numHours : ℕ) (staticCarry : Bool) : RtcTime × Bool :=
  let carry := false
  if numHours ≤ time.hours then ({ time with hours := time.hours - numHours }, staticCarry)
  else
    let time := { time with hours := (time.hours + 24 + 2 ^ 8 - numHours) % 2 ^ 8 }
    let date := rtcSubMonthAndDay time.year time.month time.monthday staticCarry
    let time := { time with month := date.month, monthday := date.monthday }
    (if carry then { time with year := (time.year + 2 ^ 16 - 1) % 2 ^ 16 } else time, date.carry)

end LakeOS.Model
