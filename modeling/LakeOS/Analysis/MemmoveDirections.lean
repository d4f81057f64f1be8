import LakeOS.Model.Memmove

/-!
# The two directions of `memmove`

Upwards all bytes are moved, and the pointer behind the last word is returned.  Downwards the copy
begins at the first byte behind the blocks: the first bytes of the block are left out, and as many
bytes behind it are written.
-/

set_option autoImplicit false

namespace LakeOS.Analysis

open LakeOS.Library LakeOS.Model

/-- The block is moved, no other byte changes, and its destination is returned. -/
structure MovesBlock (m : Memory) (dst src size : ℕ) : Prop where
  moved : ∀ i < size, memmove m dst src size (dst + i) = m (src + i)
  kept : ∀ x, x < dst ∨ dst + size ≤ x → memmove m dst src size x = m x
  result : memmoveResult dst src size = dst

/-- The offsets of the bytes that are copied downwards, if the size is even. -/
def CopiedDown (size i : ℕ) : Prop :=
  size % 4 = 0 ∧ 4 ≤ i ∧ i < size + 4 ∨ size % 4 ≠ 0 ∧ (2 ≤ i ∧ i < 4 ∨ 6 ≤ i ∧ i < size + 4)

instance (size i : ℕ) : Decidable (CopiedDown size i) := inferInstanceAs (Decidable (_ ∨ _))

/-- An offset in the block that the copy downwards leaves out, or one behind it that it writes. -/
def Misplaced (size i : ℕ) : Prop :=
  i < size ∧ ¬ CopiedDown size i ∨ size ≤ i ∧ CopiedDown size i

/-- At most one byte is moved upwards; or an even number downwards, where the bytes that are left
out and those behind the block are the same at both places already. -/
def MovesRight (m : Memory) (dst src size : ℕ) : Prop :=
  size = 0 ∨ dst < src ∧ size = 1 ∨
    src ≤ dst ∧ size % 2 = 0 ∧ ∀ i, Misplaced size i → m (dst + i) = m (src + i)

section

variable {m : Memory} {dst src size : ℕ}

/-! ## Upwards -/

/-- **Upwards the block is moved**, whatever the two overlap in.
SRCLINE: memmove.c:5-23 -/
theorem memmove_up (m : Memory) (hlt : dst < src) (size : ℕ) :
    memmove m dst src size = m.copied dst src 0 size := by
  have hle := hlt.le
  have hwords := copyUp_copied m hle (Nat.le_refl 0) (size / 4)
  rw [Store.copied_self, Nat.add_zero, Nat.add_zero, Nat.zero_add] at hwords
  have hsize := Nat.div_add_mod size 4
  have hlast := Nat.mod_lt size (show 0 < 4 by decide)
  unfold memmove
  rw [if_pos hlt]
  dsimp only
  rw [hwords, Store.save_load, Store.save_load]
  by_cases htwo : 2 ≤ size % 4
  · have hmod : size % 2 = size % 4 - 2 := by omega
    rw [if_pos htwo, if_pos htwo, Store.copied_up hle (Nat.zero_le _), hmod]
    by_cases hone : size % 4 - 2 = 1
    · rw [if_pos hone, Nat.add_assoc dst, Nat.add_assoc src,
        Store.copied_up hle (Nat.zero_le _)]
      congr 1
      omega
    · rw [if_neg hone]
      congr 1
      omega
  · have hmod : size % 2 = size % 4 := by omega
    rw [if_neg htwo, if_neg htwo, Nat.add_zero, Nat.add_zero, hmod]
    by_cases hone : size % 4 = 1
    · rw [if_pos hone, Store.copied_up hle (Nat.zero_le _)]
      congr 1
      omega
    · rw [if_neg hone]
      congr 1
      omega

/-- INTERNAL: the pointer that is returned lies behind the words.
SRCLINE: memmove.c:9, memmove.c:16 -/
theorem memmoveResult_up (hlt : dst < src) (size : ℕ) :
    memmoveResult dst src size = dst + (size - size % 2) := by
  unfold memmoveResult
  rw [if_pos hlt]
  dsimp only
  split <;> omega

/-! ## Downwards -/

/-- INTERNAL: the pointer that is returned lies one byte further if the size is odd.
SRCLINE: memmove.c:25, memmove.c:31, memmove.c:38 -/
theorem memmoveResult_down (hle : src ≤ dst) (size : ℕ) :
    memmoveResult dst src size = dst + size % 2 := by
  unfold memmoveResult
  rw [if_neg (Nat.not_lt_of_le hle)]
  dsimp only
  split <;> omega

/-- INTERNAL: **what an even size downwards copies**, from the word behind the block on.
SRCLINE: memmove.c:24-45 -/
theorem memmove_down (m : Memory) (hle : src ≤ dst) (heven : size % 2 = 0) (x : ℕ) :
    memmove m dst src size x =
      if dst ≤ x ∧ CopiedDown size (x - dst) then m (src + (x - dst)) else m x := by
  have hsize := Nat.div_add_mod size 4
  have hfit : size % 4 + 4 * (size / 4) + 4 ≤ size + 4 := by omega
  have hwords := copyDown_copied m hle hfit
  have htop : size % 4 + 4 * (size / 4) = size := by omega
  rw [htop, Store.copied_self] at hwords
  have hdst : dst + size - 4 * (size / 4) = dst + size % 4 := by omega
  have hsrc : src + size - 4 * (size / 4) = src + size % 4 := by omega
  have hone : ¬ size % 2 = 1 := by omega
  unfold memmove
  rw [if_neg (Nat.not_lt_of_le hle)]
  rw [hwords, hdst, hsrc, if_neg hone, Store.save_load]
  by_cases hzero : size % 4 = 0
  · rw [if_neg (by omega), hzero, Store.copied]
    by_cases hx : dst + (0 + 4) ≤ x ∧ x < dst + (size + 4)
    · rw [if_pos hx, if_pos (by unfold CopiedDown; omega)]
    · rw [if_neg hx, if_neg (by unfold CopiedDown; omega)]
  · -- the two bytes that are copied last do not reach the words
    have htwo : size % 4 = 2 := by omega
    rw [if_pos (by omega), htwo]
    by_cases hlast : dst + 2 ≤ x ∧ x < dst + 4
    · rw [Store.write_of_mem _ _ hlast.1 (by rw [Store.length_read]; omega), Store.getElem_read,
        Store.copied_of_notMem (by omega), if_pos (by unfold CopiedDown; omega)]
      congr 1
      omega
    · rw [Store.write_of_notMem _ _ (by rw [Store.length_read]; omega), Store.copied]
      by_cases hx : dst + (2 + 4) ≤ x ∧ x < dst + (size + 4)
      · rw [if_pos hx, if_pos (by unfold CopiedDown; omega)]
      · rw [if_neg hx, if_neg (by unfold CopiedDown; omega)]

/-- INTERNAL: a block is moved downwards if nothing that is misplaced makes a difference. -/
theorem movesBlock_down_iff (hle : src ≤ dst) (heven : size % 2 = 0) :
    MovesBlock m dst src size ↔ ∀ i, Misplaced size i → m (dst + i) = m (src + i) := by
  have hcell : ∀ i, memmove m dst src size (dst + i) =
      if CopiedDown size i then m (src + i) else m (dst + i) := by
    intro i
    rw [memmove_down m hle heven, Nat.add_sub_cancel_left]
    simp
  constructor
  · rintro ⟨hmoved, hkept, -⟩ i (⟨hin, hnot⟩ | ⟨hout, hcopied⟩)
    · have hbyte := hmoved i hin
      rw [hcell, if_neg hnot] at hbyte
      exact hbyte
    · have hbyte := hkept (dst + i) (.inr (Nat.add_le_add_left hout dst))
      rw [hcell, if_pos hcopied] at hbyte
      exact hbyte.symm
  · intro hsame
    refine ⟨fun i hi => ?_, fun x hx => ?_, ?_⟩
    · rw [hcell]
      split
      next => rfl
      next hnot => exact hsame i (.inl ⟨hi, hnot⟩)
    · rcases hx with hlt | hge
      · rw [memmove_down m hle heven, if_neg (by omega)]
      · obtain ⟨i, rfl⟩ := Nat.exists_eq_add_of_le (show dst ≤ x by omega)
        rw [hcell]
        split
        next hcopied => exact (hsame i (.inr ⟨by omega, hcopied⟩)).symm
        next => rfl
    · rw [memmoveResult_down hle, heven, Nat.add_zero]

end

/-- **`memmove`** moves a block and returns its destination exactly if it has at most one byte and
moves upwards, or if the copy downwards happens not to matter where it goes wrong.
SRCLINE: memmove.c:4-47 -/
theorem movesBlock_iff (m : Memory) (dst src size : ℕ) :
    MovesBlock m dst src size ↔ MovesRight m dst src size := by
  unfold MovesRight
  rcases Nat.lt_or_ge dst src with hlt | hle
  · have hup := memmove_up m hlt size
    have hres := memmoveResult_up hlt size
    constructor
    · intro hmoves
      have hsame := hmoves.result
      omega
    · intro hsize
      refine ⟨fun i hi => ?_, fun x hx => ?_, by omega⟩
      · rw [hup, Store.copied_of_mem (by omega) (by omega), Nat.add_sub_cancel_left]
      · rw [hup, Store.copied_of_notMem (by omega)]
  · have hres := memmoveResult_down hle size
    by_cases heven : size % 2 = 0
    · rw [movesBlock_down_iff hle heven]
      constructor
      · exact fun hsame => .inr (.inr ⟨hle, heven, hsame⟩)
      · rintro (rfl | ⟨hlt, -⟩ | ⟨-, -, hsame⟩)
        · intro i hi
          unfold Misplaced CopiedDown at hi
          omega
        · omega
        · exact hsame
    · apply iff_of_false
      · intro hmoves
        have hsame := hmoves.result
        omega
      · omega

/-- A block that is moved onto itself with an even size is one of the cases. -/
theorem movesBlock_self (m : Memory) (dst size : ℕ) (heven : size % 2 = 0) :
    MovesBlock m dst dst size :=
  (movesBlock_down_iff (Nat.le_refl dst) heven).mpr fun _ _ => rfl

/-- The bytes 1 to 12. -/
def twelveBytes : Memory := fun x => BitVec.ofNat 8 (x + 1)

/-- Four bytes are moved to an address above: the bytes behind them are copied instead, behind
their place.  Moved to an address below, they arrive, and the pointer behind them is returned. -/
theorem memmove_fails :
    (memmove twelveBytes 4 0 4).read 0 12 = [1, 2, 3, 4, 5, 6, 7, 8, 5, 6, 7, 8] ∧
      ¬ MovesBlock twelveBytes 4 0 4 ∧
    (memmove twelveBytes 0 4 4).read 0 12 = [5, 6, 7, 8, 5, 6, 7, 8, 9, 10, 11, 12] ∧
      memmoveResult 0 4 4 = 4 ∧ ¬ MovesBlock twelveBytes 0 4 4 := by
  refine ⟨by decide, fun hmoves => ?_, by decide, rfl, fun hmoves => ?_⟩
  · have hfirst := hmoves.moved 0 (by decide)
    exact absurd hfirst (by decide)
  · have hres := hmoves.result
    exact absurd hres (by decide)

end LakeOS.Analysis
