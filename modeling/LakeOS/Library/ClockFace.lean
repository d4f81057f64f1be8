import Mathlib.Data.Nat.Notation

/-!
# How the registers of a clock show a number

A register shows a number in binary or with a decimal digit in each nibble, and the hour as one of 24
or as one of 12 with a bit for the afternoon.
-/

set_option autoImplicit false

namespace LakeOS.Library

/-- A number below 100 with its decimal digits in the nibbles. -/
def packedDecimal (n : ℕ) : ℕ := n / 10 * 16 + n % 10

/-- A number in a register. -/
def registerFace (binary : Bool) (n : ℕ) : ℕ := if binary then n else packedDecimal n

/-- An hour in a register.  On a clock with 12 hours the first one of each half is shown as the
twelfth, and bit 7 is set in the afternoon. -/
def hourFace (binary twentyFour : Bool) (h : ℕ) : ℕ :=
  if twentyFour then registerFace binary h
  else registerFace binary ((h + 11) % 12 + 1) + if 12 ≤ h then 0x80 else 0

end LakeOS.Library
