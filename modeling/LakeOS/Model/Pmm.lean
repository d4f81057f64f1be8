import LakeOS.Library.Store

/-!
# The physical memory manager

`pmm.c` keeps one bit per 4 KiB block in a byte array `bitmap` of `bitmap_len` bits
and a hint `last_freed_block` from which every search starts.  The definitions below
follow the source function by function; the loops carry the number of iterations they
can still make as a structural argument, which is exact (`alloc_page` runs at most
once per block below `bitmap_len`, the inner loop of `alloc_pages` at most `n + 1`
times).

The bits at or beyond `bitmap_len` belong to memory the manager does not own; the
code reads them (the inner loop of `alloc_pages` is not bounded by `bitmap_len`), so
`bitmap` is a store over all byte indices.
-/

set_option autoImplicit false

namespace LakeOS.Model

open LakeOS.Library

/-- `MEMORY_BLOCK_SIZE`. -/
abbrev memoryBlockSize : ℕ := 0x1000

/-- `BITMAP_BLOCK_FREE`. -/
def bitmapBlockFree : Byte := 0x0

/-- `BITMAP_BLOCK_USED`. -/
def bitmapBlockUsed : Byte := 0x1

/-- The manager's globals.  `bitmap_len` is a 32-bit byte count divided by the block
size (`PMM_init`), hence the bound.
SRCLINE: pmm.c:3-5, 56-57, 103 -/
structure Pmm where
  bitmap : Store Byte
  bitmapLen : ℕ
  lastFreedBlock : ℕ
  bitmapLen_lt : bitmapLen < 2 ^ 20

namespace Pmm

/-- SRCLINE: pmm.c:9 -/
def bitmapGetblockstate (s : Pmm) (num : ℕ) : Byte :=
  (s.bitmap (num / 8) >>> (num % 8)) &&& 0x1

/-- SRCLINE: pmm.c:11-16 -/
def bitmapSetblockstate (s : Pmm) (blockNum : ℕ) (state : Byte) : Pmm :=
  let byte := s.bitmap (blockNum / 8)
  let byte' :=
    if state ≠ 0 then byte ||| (1#8 <<< (blockNum % 8)) else byte &&& ~~~(1#8 <<< (blockNum % 8))
  { s with bitmap := Function.update s.bitmap (blockNum / 8) byte' }

/-- The search loop of `alloc_page`: the first free block from `blockNum` on, `fuel`
iterations before the bound `bitmap_len`.
SRCLINE: pmm.c:106-113 -/
def allocPageScan (s : Pmm) : ℕ → ℕ → Option ℕ
  | 0, _ => none
  | fuel + 1, blockNum =>
      if s.bitmapGetblockstate blockNum = bitmapBlockFree then some blockNum
      else allocPageScan s fuel (blockNum + 1)

/-- The block `alloc_page` takes, if any. -/
def allocPageBlock (s : Pmm) : Option ℕ :=
  s.allocPageScan (s.bitmapLen - s.lastFreedBlock) s.lastFreedBlock

/-- `alloc_page`: the address returned (`0` is `NULL`) and the manager afterwards.
SRCLINE: pmm.c:105-114 -/
def allocPage (s : Pmm) : ℕ × Pmm :=
  match s.allocPageBlock with
  | some blockNum =>
      (memoryBlockSize * blockNum % 2 ^ 32, s.bitmapSetblockstate blockNum bitmapBlockUsed)
  | none => (0, s)

/-- SRCLINE: pmm.c:116-119 -/
def freePage (s : Pmm) (page : ℕ) : Pmm :=
  { s with lastFreedBlock := page / memoryBlockSize }.bitmapSetblockstate
    (page / memoryBlockSize) bitmapBlockFree

/-- The inner loop of `alloc_pages`: `free_block_size` on exit, and whether the loop
was left by the `return` (`true`) or by its condition (`false`).
SRCLINE: pmm.c:124-127 -/
def allocPagesRun (s : Pmm) (blockNum n : ℕ) : ℕ → ℕ → ℕ × Bool
  | 0, freeBlockSize => (freeBlockSize, false)
  | fuel + 1, freeBlockSize =>
      if s.bitmapGetblockstate (blockNum + freeBlockSize) = bitmapBlockFree then
        if freeBlockSize = n then (freeBlockSize, true)
        else allocPagesRun s blockNum n fuel (freeBlockSize + 1)
      else (freeBlockSize, false)

/-- The marking loop of `alloc_pages`, downwards to `blockNum + 1`.
SRCLINE: pmm.c:128-129 -/
def allocPagesMark (s : Pmm) (blockNum : ℕ) : ℕ → Pmm
  | 0 => s
  | freeBlockSize + 1 =>
      allocPagesMark (s.bitmapSetblockstate (blockNum + (freeBlockSize + 1)) bitmapBlockUsed)
        blockNum freeBlockSize

/-- The outer loop of `alloc_pages`: the first block of the run taken and its last
offset `free_block_size`.
SRCLINE: pmm.c:122-138 -/
def allocPagesScan (s : Pmm) (n : ℕ) : ℕ → ℕ → Option (ℕ × ℕ)
  | 0, _ => none
  | fuel + 1, blockNum =>
      if blockNum < s.bitmapLen then
        match s.allocPagesRun blockNum n (n + 1) 0 with
        | (freeBlockSize, true) => some (blockNum, freeBlockSize)
        | (freeBlockSize, false) => allocPagesScan s n fuel (blockNum + freeBlockSize + 1)
      else none

/-- The run `alloc_pages` takes, if any. -/
def allocPagesBlocks (s : Pmm) (n : ℕ) : Option (ℕ × ℕ) :=
  s.allocPagesScan n (s.bitmapLen - s.lastFreedBlock) s.lastFreedBlock

/-- `alloc_pages`.
SRCLINE: pmm.c:121-141 -/
def allocPages (s : Pmm) (n : ℕ) : ℕ × Pmm :=
  match s.allocPagesBlocks n with
  | some (blockNum, freeBlockSize) =>
      (blockNum * memoryBlockSize % 2 ^ 32,
        (s.allocPagesMark blockNum freeBlockSize).bitmapSetblockstate blockNum bitmapBlockUsed)
  | none => (0, s)

/-- The loop of `free_pages` after `i` iterations: the bound is `i <= n`.
SRCLINE: pmm.c:145-146 -/
def freePagesLoop (s : Pmm) (blockNum : ℕ) : ℕ → Pmm
  | 0 => s
  | i + 1 => (freePagesLoop s blockNum i).bitmapSetblockstate (blockNum + i) bitmapBlockFree

/-- `free_pages`.
SRCLINE: pmm.c:143-147 -/
def freePages (s : Pmm) (page n : ℕ) : Pmm :=
  { s with lastFreedBlock := page / memoryBlockSize }.freePagesLoop
    (page / memoryBlockSize) (n + 1)

/-! ## Reading the bitmap

Everything later is stated through `used`; no proof outside this section unfolds the
bit operations. -/

/-- Block `num` is marked used. -/
def used (s : Pmm) (num : ℕ) : Prop := s.bitmapGetblockstate num ≠ bitmapBlockFree

instance (s : Pmm) (num : ℕ) : Decidable (s.used num) :=
  inferInstanceAs (Decidable (_ ≠ _))

theorem not_used {s : Pmm} {num : ℕ} :
    ¬ s.used num ↔ s.bitmapGetblockstate num = bitmapBlockFree := not_not

/-- INTERNAL: the state of a block is one bit of its byte. -/
theorem used_iff (s : Pmm) (num : ℕ) :
    s.used num ↔ (s.bitmap (num / 8)).getLsbD (num % 8) = true := by
  generalize hb : s.bitmap (num / 8) = b
  rw [used, bitmapGetblockstate, bitmapBlockFree, hb, ← not_iff_not, not_not, Bool.not_eq_true]
  constructor
  · intro h
    have := congrArg (·.getLsbD 0) h
    simpa using this
  · intro h
    ext k hk
    simp
    grind

/-- INTERNAL: a one-bit mask has that bit only. -/
theorem getLsbD_oneBit {i j : ℕ} (hj : j < 8) : (1#8 <<< i).getLsbD j = decide (j = i) := by
  rw [BitVec.getLsbD_shiftLeft, BitVec.getLsbD_one]
  grind

/-- INTERNAL: marking a block changes the state of that block only. -/
theorem used_bitmapSetblockstate (s : Pmm) (blockNum : ℕ) (state : Byte) (num : ℕ) :
    (s.bitmapSetblockstate blockNum state).used num ↔
      if num = blockNum then state ≠ 0 else s.used num := by
  rw [used_iff, used_iff]
  by_cases hbyte : num / 8 = blockNum / 8
  · have hj : num % 8 < 8 := Nat.mod_lt _ (by norm_num)
    have heq : num % 8 = blockNum % 8 ↔ num = blockNum := by omega
    simp only [bitmapSetblockstate, hbyte, Function.update_self]
    by_cases hstate : state ≠ 0
    · rw [if_pos hstate, BitVec.getLsbD_or, getLsbD_oneBit hj]
      by_cases hnum : num = blockNum
      · simpa [heq, hnum] using hstate
      · simp [heq, hnum]
    · rw [if_neg hstate, BitVec.getLsbD_and, BitVec.getLsbD_not, getLsbD_oneBit hj]
      by_cases hnum : num = blockNum
      · simpa [heq, hnum] using hstate
      · simp [heq, hnum, hj]
  · have hne : num ≠ blockNum := by rintro rfl; exact hbyte rfl
    simp [bitmapSetblockstate, hne, Function.update_of_ne hbyte]

@[simp] theorem bitmapSetblockstate_bitmapLen (s : Pmm) (b : ℕ) (st : Byte) :
    (s.bitmapSetblockstate b st).bitmapLen = s.bitmapLen := rfl

@[simp] theorem bitmapSetblockstate_lastFreedBlock (s : Pmm) (b : ℕ) (st : Byte) :
    (s.bitmapSetblockstate b st).lastFreedBlock = s.lastFreedBlock := rfl

theorem used_setUsed (s : Pmm) (b num : ℕ) :
    (s.bitmapSetblockstate b bitmapBlockUsed).used num ↔ num = b ∨ s.used num := by
  rw [used_bitmapSetblockstate]
  split <;> simp_all [bitmapBlockUsed]

theorem used_setFree (s : Pmm) (b num : ℕ) :
    (s.bitmapSetblockstate b bitmapBlockFree).used num ↔ num ≠ b ∧ s.used num := by
  rw [used_bitmapSetblockstate]
  split <;> simp_all [bitmapBlockFree]

end Pmm

end LakeOS.Model
