import LakeOS.Library.Overlap
import LakeOS.Model.Kmm

/-!
# `memmove`

The library's `memmove` copies words, upwards when the destination is below the source
and downwards otherwise, and then what is left of the size.  Downwards it starts at the
first byte behind each block and not at its last word.
-/

set_option autoImplicit false

namespace LakeOS.Model

open LakeOS.Library

/-- The word loop upwards, `n` words to go.
SRCLINE: memmove.c:6-11 -/
def copyUp (m : Memory) (dst src : ℕ) : ℕ → Memory
  | 0 => m
  | n + 1 => copyUp (m.save 4 dst (m.load 4 src)) (dst + 4) (src + 4) n
termination_by structural n => n

/-- The word loop downwards, `n` words to go.
SRCLINE: memmove.c:28-33 -/
def copyDown (m : Memory) (dst src : ℕ) : ℕ → Memory
  | 0 => m
  | n + 1 => copyDown (m.save 4 dst (m.load 4 src)) (dst - 4) (src - 4) n
termination_by structural n => n

/-- SRCLINE: memmove.c:4-47 -/
def memmove (m : Memory) (dst src size : ℕ) : Memory :=
  if dst < src then
    let m := copyUp m dst src (size / 4)
    let dst := dst + 4 * (size / 4)
    let src := src + 4 * (size / 4)
    let m₁ := if 2 ≤ size % 4 then m.save 2 dst (m.load 2 src) else m
    let done := if 2 ≤ size % 4 then 2 else 0
    if size % 2 = 1 then m₁.save 1 (dst + done) (m₁.load 1 (src + done)) else m₁
  else
    let m := copyDown m (dst + size) (src + size) (size / 4)
    let dst := dst + size - 4 * (size / 4)
    let src := src + size - 4 * (size / 4)
    let m₁ := if 2 ≤ size % 4 then m.save 2 dst (m.load 2 src) else m
    let done := if 2 ≤ size % 4 then 2 else 0
    if size % 2 = 1 then m₁.save 1 (dst - done) (m₁.load 1 (src - done)) else m₁

/-- The pointer that `memmove` returns, `dst` as the copy has left it.
SRCLINE: memmove.c:9, memmove.c:16, memmove.c:25, memmove.c:31, memmove.c:38, memmove.c:46 -/
def memmoveResult (dst src size : ℕ) : ℕ :=
  if dst < src then
    let dst := dst + 4 * (size / 4)
    if 2 ≤ size % 4 then dst + 2 else dst
  else
    let dst := dst + size - 4 * (size / 4)
    if 2 ≤ size % 4 then dst - 2 else dst

/-- INTERNAL: the word loop upwards goes on with a copy.
SRCLINE: memmove.c:6-11 -/
theorem copyUp_copied (m : Memory) {dst src lo hi : ℕ} (hle : dst ≤ src) (hlo : lo ≤ hi) (n : ℕ) :
    copyUp (m.copied dst src lo hi) (dst + hi) (src + hi) n = m.copied dst src lo (hi + 4 * n) := by
  induction n generalizing hi with
  | zero => rfl
  | succ n ih =>
      rw [copyUp, Store.save_load, Store.copied_up hle hlo, Nat.add_assoc dst, Nat.add_assoc src,
        ih (by omega)]
      congr 1
      omega

/-- INTERNAL: so does the loop downwards, from the word that begins where its pointer is.
SRCLINE: memmove.c:28-33 -/
theorem copyDown_copied (m : Memory) {dst src lo hi n : ℕ} (hle : src ≤ dst)
    (hhi : lo + 4 * n + 4 ≤ hi) :
    copyDown (m.copied dst src (lo + 4 * n + 4) hi) (dst + (lo + 4 * n)) (src + (lo + 4 * n)) n =
      m.copied dst src (lo + 4) hi := by
  induction n with
  | zero => rfl
  | succ n ih =>
      have hdst : dst + (lo + 4 * (n + 1)) - 4 = dst + (lo + 4 * n) := by omega
      have hsrc : src + (lo + 4 * (n + 1)) - 4 = src + (lo + 4 * n) := by omega
      have hstart : lo + 4 * (n + 1) = lo + 4 * n + 4 := by omega
      rw [copyDown, Store.save_load, Store.copied_down hle hhi, hdst, hsrc, hstart]
      exact ih (by omega)

/-- INTERNAL: the word loop upwards copies all its bytes, also to a place that overlaps the
source.
SRCLINE: memmove.c:6-11 -/
theorem copyUp_apply {m : Memory} {dst src : ℕ} (hlt : dst < src) (n x : ℕ) :
    copyUp m dst src n x = if dst ≤ x ∧ x < dst + 4 * n then m (src + (x - dst)) else m x := by
  have hrun := copyUp_copied m hlt.le (Nat.le_refl 0) n
  rw [Store.copied_self, Nat.zero_add] at hrun
  exact congrFun hrun x

theorem copyUp_moved {m : Memory} {dst gap n x : ℕ} (hgap : 0 < gap) (hx : x < 4 * n) :
    copyUp m dst (dst + gap) n (dst + x) = m (dst + gap + x) := by
  rw [copyUp_apply (Nat.lt_add_of_pos_right hgap), if_pos ⟨Nat.le_add_right _ _, by omega⟩,
    Nat.add_sub_cancel_left]

theorem copyUp_of_ge {m : Memory} {dst gap n x : ℕ} (hgap : 0 < gap) (hx : dst + 4 * n ≤ x) :
    copyUp m dst (dst + gap) n x = m x := by
  rw [copyUp_apply (Nat.lt_add_of_pos_right hgap), if_neg fun hin => absurd hin.2 (by omega)]

/-- A size that is a multiple of four leaves nothing to copy after the words. -/
theorem memmove_words {m : Memory} {dst src n : ℕ} (hlt : dst < src) :
    memmove m dst src (4 * n) = copyUp m dst src n := by
  have hdiv : 4 * n / 4 = n := Nat.mul_div_cancel_left n (by norm_num)
  have hmod : 4 * n % 4 = 0 := Nat.mul_mod_right 4 n
  unfold memmove
  rw [if_pos hlt, hdiv, hmod]
  dsimp only
  rw [if_neg (show ¬ 2 ≤ 0 by norm_num), if_neg (by omega)]

/-- The node that `krealloc` moves is moved by `memmove`. -/
theorem memmove_node (m : Memory) (dst src : ℕ) :
    memmove m dst src sizeofFreeBlock = memmoveNode m dst src := by
  unfold memmove memmoveNode sizeofFreeBlock
  split
  · rfl
  · rfl

end LakeOS.Model
