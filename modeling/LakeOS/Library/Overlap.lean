import LakeOS.Library.Store

/-!
# Copies of overlapping runs

`m.copied dst src lo hi` is the store with the cells from `dst + lo` to `dst + hi` copied from the
same places behind `src`, as they were before.  Such a copy can be made piece by piece, however the
runs overlap: upwards if the copy lies below its source (`copied_up`), downwards if it lies above
(`copied_down`).
-/

set_option autoImplicit false

namespace LakeOS.Library.Store

variable {β : Type} {m : Store β} {dst src lo hi n x : ℕ}

/-- A part of a run, copied all at once. -/
def copied (m : Store β) (dst src lo hi : ℕ) : Store β := fun x =>
  if dst + lo ≤ x ∧ x < dst + hi then m (src + (x - dst)) else m x

theorem copied_of_mem (hlo : dst + lo ≤ x) (hhi : x < dst + hi) :
    m.copied dst src lo hi x = m (src + (x - dst)) := if_pos ⟨hlo, hhi⟩

theorem copied_of_notMem (h : x < dst + lo ∨ dst + hi ≤ x) : m.copied dst src lo hi x = m x :=
  if_neg (by omega)

@[simp] theorem copied_self (m : Store β) (dst src lo : ℕ) : m.copied dst src lo lo = m := by
  funext x
  exact copied_of_notMem (by omega)

/-- INTERNAL: **a piece behind the copy**; what is copied lies below the cells that are read. -/
theorem copied_up (hle : dst ≤ src) (hlo : lo ≤ hi) :
    (m.copied dst src lo hi).write (dst + hi) ((m.copied dst src lo hi).read (src + hi) n) =
      m.copied dst src lo (hi + n) := by
  funext x
  by_cases hx : dst + hi ≤ x ∧ x < dst + hi + n
  · rw [write_of_mem _ _ hx.1 (by rw [length_read]; omega), getElem_read,
      copied_of_notMem (by omega), copied_of_mem (by omega) (by omega)]
    congr 1
    omega
  · rw [write_of_notMem _ _ (by rw [length_read]; omega)]
    by_cases hcopied : dst + lo ≤ x ∧ x < dst + hi
    · rw [copied_of_mem hcopied.1 hcopied.2, copied_of_mem hcopied.1 (by omega)]
    · rw [copied_of_notMem (by omega), copied_of_notMem (by omega)]

/-- INTERNAL: **a piece in front of the copy**; what is copied lies above the cells that are
read. -/
theorem copied_down (hle : src ≤ dst) (hlo : lo + n ≤ hi) :
    (m.copied dst src (lo + n) hi).write (dst + lo)
        ((m.copied dst src (lo + n) hi).read (src + lo) n) = m.copied dst src lo hi := by
  funext x
  by_cases hx : dst + lo ≤ x ∧ x < dst + lo + n
  · rw [write_of_mem _ _ hx.1 (by rw [length_read]; omega), getElem_read,
      copied_of_notMem (by omega), copied_of_mem hx.1 (by omega)]
    congr 1
    omega
  · rw [write_of_notMem _ _ (by rw [length_read]; omega)]
    by_cases hcopied : dst + (lo + n) ≤ x ∧ x < dst + hi
    · rw [copied_of_mem hcopied.1 hcopied.2, copied_of_mem (by omega) hcopied.2]
    · rw [copied_of_notMem (by omega), copied_of_notMem (by omega)]

end LakeOS.Library.Store
