import LakeOS.Library.StringAt
import LakeOS.Model.Ps2

/-!
# Comparing strings in memory

`strcmp` compares as many bytes as the shorter string has; its terminator is not one of them.
-/

set_option autoImplicit false

namespace LakeOS.Model

open LakeOS.Library

/-- The loop of `memcmp`, with `size` bytes to go.
SRCLINE: memcmp.c:4-13 -/
def memcmpAt (m : Store Byte) (a b : ℕ) : (size : ℕ) → ℤ
  | 0 => 0
  | size + 1 =>
      if (m a).toNat < (m b).toNat then -1
      else if (m b).toNat < (m a).toNat then 1
      else memcmpAt m (a + 1) (b + 1) size

/-- SRCLINE: strcmp.c:3-7 -/
def strcmpAt (m : Store Byte) (a b : ℕ) : ℤ :=
  let alen := strlen m a
  let blen := strlen m b
  memcmpAt m a b (if alen < blen then alen else blen)

end LakeOS.Model
