import Mathlib.Algebra.Group.Nat.Defs
import Mathlib.Tactic.Common

/-!
# The clock

`IRQ_time_handler` runs a thousand times a second and counts the time on, with the static
`carry_over` as what its five updates tell each other.  The fields of `time` are bytes,
its year has 16 bits.  The weekday is not counted.  `ticks` is an `unsigned long`, of 32 bits.
-/

set_option autoImplicit false

namespace LakeOS.Model

/-- `t_RTCTime`.
SRCLINE: rtc.h:9-17 -/
structure RtcTime where
  year : ℕ
  seconds : ℕ
  minutes : ℕ
  hours : ℕ
  monthday : ℕ
  month : ℕ
deriving DecidableEq

/-- `time` and the static variables of `pit.c`. -/
structure Pit where
  time : RtcTime
  carryOver : Bool
  ticks : ℕ

/-- The unit and `carry_over`.
SRCLINE: pit.c:23-32 -/
def incUnitOfTime (unit max : ℕ) : ℕ × Bool :=
  if unit = max then (0, true) else ((unit + 1) % 2 ^ 16, false)

/-- SRCLINE: pit.c:34-41 -/
def maxMonthday (year month : ℕ) : ℕ :=
  if month = 2 then if year % 4 ≠ 0 then 28 else 29
  else if month % 2 ≠ 0 then 30
  else 31

/-- SRCLINE: pit.c:43-55 -/
def incDayAndMonth (s : Pit) : Pit :=
  if s.time.monthday = maxMonthday s.time.year s.time.month then
    let s := { s with time := { s.time with monthday := 0 } }
    if s.time.month = 12 then
      { s with time := { s.time with month := 0 }, carryOver := true }
    else { s with time := { s.time with month := (s.time.month + 1) % 2 ^ 8 } }
  else { s with time := { s.time with monthday := (s.time.monthday + 1) % 2 ^ 8 } }

/-- The updates of one second.
SRCLINE: pit.c:63-67 -/
def incSeconds (s : Pit) : Pit :=
  let seconds := incUnitOfTime s.time.seconds 59
  let s := { s with time := { s.time with seconds := seconds.1 % 2 ^ 8 }, carryOver := seconds.2 }
  let minutes := incUnitOfTime s.time.minutes 59
  let s := if s.carryOver then
      { s with time := { s.time with minutes := minutes.1 % 2 ^ 8 }, carryOver := minutes.2 }
    else s
  let hours := incUnitOfTime s.time.hours 23
  let s := if s.carryOver then
      { s with time := { s.time with hours := hours.1 % 2 ^ 8 }, carryOver := hours.2 }
    else s
  let s := if s.carryOver then incDayAndMonth s else s
  let year := incUnitOfTime s.time.year 0xFFFF
  if s.carryOver then { s with time := { s.time with year := year.1 }, carryOver := year.2 } else s

/-- SRCLINE: pit.c:57-68 -/
def irqTimeHandler (s : Pit) : Pit :=
  let s := { s with ticks := (s.ticks + 1) % 2 ^ 32 }
  if s.ticks % 1000 ≠ 0 then s else incSeconds s

end LakeOS.Model
