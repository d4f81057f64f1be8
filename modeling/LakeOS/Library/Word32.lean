import Mathlib.Algebra.Group.Nat.Defs
import Mathlib.Tactic.Common

/-!
# Unsigned 32-bit arithmetic

`size_t`, `uint32_t` and pointers are numbers below `2 ^ 32`; these are the operations
with their wrap-around, and the rules that remove it where it cannot happen.
-/

set_option autoImplicit false

namespace LakeOS.Library

/-- `a + b` on 32 bits. -/
def add32 (a b : ℕ) : ℕ := (a + b) % 2 ^ 32

/-- `a - b` on 32 bits. -/
def sub32 (a b : ℕ) : ℕ := (a + 2 ^ 32 - b) % 2 ^ 32

/-- `a * b` on 32 bits. -/
def mul32 (a b : ℕ) : ℕ := a * b % 2 ^ 32

theorem add32_lt (a b : ℕ) : add32 a b < 2 ^ 32 := Nat.mod_lt _ (Nat.two_pow_pos 32)

theorem add32_eq {a b : ℕ} (h : a + b < 2 ^ 32) : add32 a b = a + b := Nat.mod_eq_of_lt h

theorem mul32_eq {a b : ℕ} (h : a * b < 2 ^ 32) : mul32 a b = a * b := Nat.mod_eq_of_lt h

theorem sub32_eq {a b : ℕ} (h : b ≤ a) (ha : a < 2 ^ 32) : sub32 a b = a - b := by
  unfold sub32
  omega

@[simp] theorem sub32_zero {a : ℕ} (ha : a < 2 ^ 32) : sub32 a 0 = a := sub32_eq a.zero_le ha

end LakeOS.Library
