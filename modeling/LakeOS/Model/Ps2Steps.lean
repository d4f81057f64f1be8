import LakeOS.Model.Ps2

/-!
# The keyboard between interrupts

The interrupt of the keyboard stores to `keycode` at any time, and the loop of `PS2_read` reads it
five times.  Here each of these reads is a step of its own.  What `PS2_read` does with `ps2_stdin`
is one step together with the `keycode = 0` behind it, since no interrupt reads either of them.

`lookups` and `writes` remember the places of `KEYBOARD_MAP` and `ps2_stdin` that were used.
-/

set_option autoImplicit false

namespace LakeOS.Model

open LakeOS.Library

/-- `PS2_ENTER`. -/
abbrev ps2Enter : ℕ := 0x1C

/-- Where `PS2_read` is: before one of its reads of `keycode`, or behind the last one with the
character. -/
inductive Ps2Pc where
  | enter
  | above
  | below
  | backspace
  | lookup
  | store (c : Byte)
deriving DecidableEq

/-- The static variables, and what was done to them. -/
structure Ps2State where
  pc : Ps2Pc
  keycode : Byte
  stdin : Store Byte
  lookups : List ℕ
  writes : List ℕ

/-- Something happens: the keyboard interrupts, with its status and its data, or `PS2_read` goes
on. -/
inductive KeyboardEvent where
  | irq (status code : Byte)
  | step
deriving DecidableEq

/-- SRCLINE: ps2.c:94-100 -/
def irqKeyboardHandler (status code : Byte) (s : Ps2State) : Ps2State :=
  if status &&& 0x1 ≠ 0 then { s with keycode := code } else s

/-- `(size_t)keycode`, where `char` has a sign. -/
def keyIndex (keycode : Byte) : ℕ := (keycode.toInt % 2 ^ 32).toNat

/-- `KEYBOARD_MAP` and the bytes behind it. -/
def keyboardMapAt (behind : ℕ → Byte) (i : ℕ) : Byte := if i < 0x58 then keyChar i else behind i

/-- What `strncat` stores behind a string.
SRCLINE: strncat.c:7-13 -/
def strncatBytes (s2 : Store Byte) (n : ℕ) : List Byte := s2.read 0 (min n (strlen s2 0)) ++ [0]

/-- A write to `ps2_stdin`, behind which the loop begins again. -/
def Ps2State.put (s : Ps2State) (i : ℕ) (bytes : List Byte) : Ps2State :=
  { s with
    pc := .enter
    keycode := 0
    stdin := s.stdin.write i bytes
    writes := s.writes ++ (List.range bytes.length).map (i + ·) }

section

variable (behind : ℕ → Byte) (stack : Store Byte)

/-- One step of `PS2_read`; `stack` is the memory from the local `c` on.  With `ENTER` it returns,
and the next call begins.
SRCLINE: ps2.c:102-132 -/
def ps2Step (s : Ps2State) : Ps2State :=
  match s.pc with
  | .enter =>
      if s.keycode.toNat = ps2Enter then { s with keycode := 0 } else { s with pc := .above }
  | .above => if 0 < s.keycode.toInt then { s with pc := .below } else { s with pc := .enter }
  | .below =>
      if s.keycode.toInt ≤ 0x58 then { s with pc := .backspace } else { s with pc := .enter }
  | .backspace =>
      if s.keycode.toNat = ps2Backspace then
        if s.stdin 0 ≠ 0 then s.put (strlen s.stdin 0 - 1) [0] else { s with pc := .enter }
      else { s with pc := .lookup }
  | .lookup =>
      { s with
        pc := .store (keyboardMapAt behind (keyIndex s.keycode))
        lookups := s.lookups ++ [keyIndex s.keycode] }
  | .store c =>
      if c ≠ 0 ∧ strlen s.stdin 0 < ps2StdinSize then
        s.put (strlen s.stdin 0) (strncatBytes (stack.write 0 [c]) 1)
      else { s with pc := .enter }

/-- What happens next. -/
def keyboardStep : KeyboardEvent → Ps2State → Ps2State
  | .irq status code, s => irqKeyboardHandler status code s
  | .step, s => ps2Step behind stack s

end

/-- The state at the start, with `rest` as the memory behind the buffer. -/
def ps2Start (rest : Store Byte) : Ps2State where
  pc := .enter
  keycode := 0
  stdin i := if i < ps2StdinSize then 0 else rest i
  lookups := []
  writes := []

end LakeOS.Model
