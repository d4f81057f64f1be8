import LakeOS.Library.Ownership
import LakeOS.Model.Pmm
import Mathlib.Logic.Relation
import Mathlib.Order.Interval.Set.Basic

/-!
# Ownership of physical pages

Every run of `alloc_page`, `alloc_pages`, `free_page` and `free_pages` keeps the
ownership ledger of the blocks sound (`Library.Sound`): the used bits of the bitmap
are the taken items, the blocks used at the start are the reserved ones, and each
call either grants blocks that were free or releases what its caller holds.

`alloc_pages(n)` searches for, marks and hands over `n + 1` blocks, and
`free_pages(p, n)` clears `n + 1`, so a run of `n` pages is held together with one
hidden block behind it; `Holder.blocks` counts it.
-/

set_option autoImplicit false

namespace LakeOS.Model.Pmm

/-! ## What the loops find -/

/-- INTERNAL: the block the search returns is free and lies in the range searched.
SRCLINE: pmm.c:106-113 -/
theorem allocPageScan_some {s : Pmm} {fuel start b : ℕ}
    (h : s.allocPageScan fuel start = some b) :
    start ≤ b ∧ b < start + fuel ∧ ¬ s.used b := by
  induction fuel generalizing start with
  | zero => simp [allocPageScan] at h
  | succ fuel ih =>
      rw [allocPageScan] at h
      split at h
      · next hfree =>
          obtain rfl := Option.some.inj h
          exact ⟨le_rfl, by omega, not_used.mpr hfree⟩
      · obtain ⟨h₁, h₂, h₃⟩ := ih h
        exact ⟨by omega, by omega, h₃⟩

/-- INTERNAL: a block found by `alloc_page` is free and below `bitmap_len`. -/
theorem allocPageBlock_some {s : Pmm} {b : ℕ} (h : s.allocPageBlock = some b) :
    b < s.bitmapLen ∧ ¬ s.used b := by
  obtain ⟨h₁, h₂, h₃⟩ := allocPageScan_some h
  exact ⟨by omega, h₃⟩

/-- INTERNAL: the inner loop of `alloc_pages` returns only after `n + 1` free blocks.
SRCLINE: pmm.c:124-127 -/
theorem allocPagesRun_found {s : Pmm} {b n fuel k size : ℕ} (hk : k ≤ n)
    (h : s.allocPagesRun b n fuel k = (size, true)) :
    size = n ∧ ∀ i, k ≤ i → i ≤ n → ¬ s.used (b + i) := by
  induction fuel generalizing k with
  | zero => simp [allocPagesRun] at h
  | succ fuel ih =>
      rw [allocPagesRun] at h
      split at h
      · next hfree =>
          split at h
          · next hkn =>
              refine ⟨by simp_all, fun i hi hin => ?_⟩
              obtain rfl : i = k := by omega
              exact not_used.mpr hfree
          · next hkn =>
              obtain ⟨hsize, hrest⟩ := ih (by omega) h
              refine ⟨hsize, fun i hi hin => ?_⟩
              obtain rfl | hlt := Nat.eq_or_lt_of_le hi
              · exact not_used.mpr hfree
              · exact hrest i hlt hin
      · simp at h

/-- INTERNAL: a run found by `alloc_pages` is `n + 1` free blocks.
SRCLINE: pmm.c:122-138 -/
theorem allocPagesScan_some {s : Pmm} {n fuel start b size : ℕ}
    (h : s.allocPagesScan n fuel start = some (b, size)) :
    size = n ∧ ∀ i, i ≤ n → ¬ s.used (b + i) := by
  induction fuel generalizing start with
  | zero => simp [allocPagesScan] at h
  | succ fuel ih =>
      rw [allocPagesScan] at h
      split at h
      · split at h
        · next heq =>
            simp only [Option.some.injEq, Prod.mk.injEq] at h
            obtain ⟨rfl, rfl⟩ := h
            obtain ⟨hsize, hfree⟩ := allocPagesRun_found (Nat.zero_le n) heq
            exact ⟨hsize, fun i hi => hfree i (Nat.zero_le i) hi⟩
        · exact ih h
      · simp at h

/-- INTERNAL: a run found by `alloc_pages` starts below `bitmap_len`. -/
theorem allocPagesScan_lt {s : Pmm} {n fuel start b size : ℕ}
    (h : s.allocPagesScan n fuel start = some (b, size)) : b < s.bitmapLen := by
  induction fuel generalizing start with
  | zero => simp [allocPagesScan] at h
  | succ fuel ih =>
      rw [allocPagesScan] at h
      split at h
      · next hlt =>
          split at h
          · simp only [Option.some.injEq, Prod.mk.injEq] at h
            exact h.1 ▸ hlt
          · exact ih h
      · simp at h

/-- INTERNAL: the marking loop marks the blocks `b + 1, ..., b + size`.
SRCLINE: pmm.c:128-129 -/
theorem used_allocPagesMark (s : Pmm) (b size num : ℕ) :
    (s.allocPagesMark b size).used num ↔ (b < num ∧ num ≤ b + size) ∨ s.used num := by
  induction size generalizing s with
  | zero =>
      rw [allocPagesMark, or_iff_right]
      omega
  | succ size ih =>
      rw [allocPagesMark, ih, used_setUsed]
      constructor
      · rintro (h | h | h)
        · exact .inl ⟨h.1, by omega⟩
        · exact .inl ⟨by omega, by omega⟩
        · exact .inr h
      · rintro (h | h)
        · by_cases hlast : num = b + (size + 1)
          · exact .inr (.inl hlast)
          · exact .inl ⟨h.1, by omega⟩
        · exact .inr (.inr h)

/-- INTERNAL: `free_page` clears the page's block and keeps all others. -/
theorem used_freePage (s : Pmm) (page num : ℕ) :
    (s.freePage page).used num ↔ num ≠ page / memoryBlockSize ∧ s.used num :=
  used_setFree _ _ _

/-- INTERNAL: the freeing loop clears the blocks `b, ..., b + k - 1`.
SRCLINE: pmm.c:145-146 -/
theorem used_freePagesLoop (s : Pmm) (b k num : ℕ) :
    (s.freePagesLoop b k).used num ↔ ¬ (b ≤ num ∧ num < b + k) ∧ s.used num := by
  induction k with
  | zero =>
      rw [freePagesLoop, and_iff_right]
      omega
  | succ k ih =>
      rw [freePagesLoop, used_setFree, ih, ← and_assoc]
      exact and_congr_left fun _ => by omega

/-! ## What one call does to the set of used blocks -/

/-- The blocks marked used. -/
def usedSet (s : Pmm) : Set ℕ := {b | s.used b}

/-- INTERNAL: `alloc_page` takes exactly the block it found. -/
theorem usedSet_allocPage {s : Pmm} {b : ℕ} (h : s.allocPageBlock = some b) :
    s.allocPage.2.usedSet = s.usedSet ∪ {b} := by
  ext num
  simp [allocPage, h, usedSet, used_setUsed]

/-- INTERNAL: `alloc_pages` takes the `n + 1` blocks it found. -/
theorem usedSet_allocPages {s : Pmm} {n b size : ℕ}
    (h : s.allocPagesBlocks n = some (b, size)) :
    (s.allocPages n).2.usedSet = s.usedSet ∪ Set.Icc b (b + n) := by
  obtain ⟨rfl, -⟩ := allocPagesScan_some h
  ext num
  simp only [allocPages, h, usedSet, Set.mem_ofPred_eq, used_setUsed, used_allocPagesMark,
    Set.mem_union, Set.mem_Icc]
  constructor
  · rintro (rfl | h | h)
    · exact .inr ⟨le_rfl, by omega⟩
    · exact .inr ⟨by omega, h.2⟩
    · exact .inl h
  · rintro (h | h)
    · exact .inr (.inr h)
    · obtain rfl | hlt := Nat.eq_or_lt_of_le h.1
      · exact .inl rfl
      · exact .inr (.inl ⟨hlt, h.2⟩)

/-- INTERNAL: `free_page` clears the page's block only. -/
theorem usedSet_freePage (s : Pmm) (page : ℕ) :
    (s.freePage page).usedSet = s.usedSet \ {page / memoryBlockSize} := by
  ext num
  rw [usedSet, Set.mem_ofPred_eq, used_freePage, and_comm]
  rfl

/-- INTERNAL: `free_pages` clears `n + 1` blocks. -/
theorem usedSet_freePages (s : Pmm) (page n : ℕ) :
    (s.freePages page n).usedSet =
      s.usedSet \ Set.Icc (page / memoryBlockSize) (page / memoryBlockSize + n) := by
  ext num
  rw [usedSet, Set.mem_ofPred_eq, freePages, used_freePagesLoop, and_comm, Set.mem_sdiff,
    Set.mem_Icc]
  exact and_congr_right fun _ => by omega

/-- INTERNAL: an address of a block below `bitmap_len` fits 32 bits and gives the block
back. -/
theorem blockAddress_div {b : ℕ} (h : b < 2 ^ 20) :
    memoryBlockSize * b % 2 ^ 32 / memoryBlockSize = b := by
  rw [memoryBlockSize]
  omega

/-- INTERNAL: the address `alloc_page` returns names the block it took. -/
theorem allocPage_address {s : Pmm} {b : ℕ} (h : s.allocPageBlock = some b) :
    s.allocPage.1 / memoryBlockSize = b := by
  have hlt := (allocPageBlock_some h).1
  have hmax := s.bitmapLen_lt
  simp only [allocPage, h]
  exact blockAddress_div (by omega)

/-- INTERNAL: the address `alloc_pages` returns names the first block it took. -/
theorem allocPages_address {s : Pmm} {n b size : ℕ}
    (h : s.allocPagesBlocks n = some (b, size)) :
    (s.allocPages n).1 / memoryBlockSize = b := by
  have hlt := allocPagesScan_lt h
  have hmax := s.bitmapLen_lt
  simp only [allocPages, h, Nat.mul_comm b]
  exact blockAddress_div (by omega)

end LakeOS.Model.Pmm

namespace LakeOS.Analysis

open LakeOS.Library LakeOS.Model

/-! ## Runs of the manager -/

/-- A live allocation: the address a call returned, and for `alloc_pages` its `n`. -/
inductive Holder where
  | page (p : ℕ)
  | run (p n : ℕ)
  deriving DecidableEq

/-- The blocks an allocation holds, the hidden one of a run included. -/
def Holder.blocks : Holder → Set ℕ
  | .page p => {p / memoryBlockSize}
  | .run p n => Set.Icc (p / memoryBlockSize) (p / memoryBlockSize + n)

/-- Giving an allocation back. -/
def Holder.free (pmm : Pmm) : Holder → Pmm
  | .page p => pmm.freePage p
  | .run p n => pmm.freePages p n

/-- The manager together with its live allocations. -/
structure PmmState where
  pmm : Pmm
  holders : List Holder

/-- One call.  An allocation is held once its search has found blocks, whatever the
address is: block 0 is handed out as address 0, which its caller cannot tell from
`NULL`.  A search that finds nothing returns `NULL` and nobody holds anything. -/
inductive PmmStep : PmmState → PmmState → Prop
  | allocPage (s : PmmState) (found : s.pmm.allocPageBlock.isSome) :
      PmmStep s ⟨s.pmm.allocPage.2, .page s.pmm.allocPage.1 :: s.holders⟩
  | allocPageNull (s : PmmState) (none : s.pmm.allocPageBlock = none) :
      PmmStep s ⟨s.pmm.allocPage.2, s.holders⟩
  | allocPages (s : PmmState) (n : ℕ) (pos : 1 ≤ n) (found : (s.pmm.allocPagesBlocks n).isSome) :
      PmmStep s ⟨(s.pmm.allocPages n).2, .run (s.pmm.allocPages n).1 n :: s.holders⟩
  | allocPagesNull (s : PmmState) (n : ℕ) (pos : 1 ≤ n) (none : s.pmm.allocPagesBlocks n = none) :
      PmmStep s ⟨(s.pmm.allocPages n).2, s.holders⟩
  | free (s : PmmState) (h : Holder) (held : h ∈ s.holders) :
      PmmStep s ⟨h.free s.pmm, s.holders.erase h⟩

/-- The ledger of a state: the blocks used in `init` are reserved. -/
def PmmLedger (init : Pmm) (s : PmmState) : Prop :=
  Sound init.usedSet s.pmm.usedSet (s.holders.map Holder.blocks)

/-- INTERNAL: freeing clears exactly the blocks held. -/
theorem usedSet_free (pmm : Pmm) (h : Holder) :
    (h.free pmm).usedSet = pmm.usedSet \ h.blocks := by
  cases h with
  | page p => exact pmm.usedSet_freePage p
  | run p n => exact pmm.usedSet_freePages p n

/-- INTERNAL: every call keeps the ledger. -/
theorem pmmLedger_step {init : Pmm} {s s' : PmmState} (hs : PmmLedger init s)
    (hstep : PmmStep s s') : PmmLedger init s' := by
  cases hstep with
  | allocPage found =>
      obtain ⟨b, hb⟩ := Option.isSome_iff_exists.mp found
      have haddr : Holder.blocks (.page s.pmm.allocPage.1) = {b} := by
        rw [Holder.blocks, Pmm.allocPage_address hb]
      rw [PmmLedger, Pmm.usedSet_allocPage hb, List.map_cons, haddr]
      exact hs.grant (Set.disjoint_singleton_left.mpr (Pmm.allocPageBlock_some hb).2)
  | allocPageNull none => simpa [PmmLedger, Pmm.allocPage, none] using hs
  | allocPages n pos found =>
      obtain ⟨⟨b, size⟩, hb⟩ := Option.isSome_iff_exists.mp found
      have haddr : Holder.blocks (.run (s.pmm.allocPages n).1 n) = Set.Icc b (b + n) := by
        rw [Holder.blocks, Pmm.allocPages_address hb]
      rw [PmmLedger, Pmm.usedSet_allocPages hb, List.map_cons, haddr]
      refine hs.grant (Set.disjoint_left.mpr fun num hnum => ?_)
      have hfree := (Pmm.allocPagesScan_some hb).2 (num - b) (by have := hnum.2; omega)
      rwa [Nat.add_sub_cancel' hnum.1] at hfree
  | allocPagesNull n pos none => simpa [PmmLedger, Pmm.allocPages, none] using hs
  | free h held =>
      rw [PmmLedger, usedSet_free]
      exact (hs.perm ((List.perm_cons_erase held).map Holder.blocks)).release

/-- **Physical page ownership.**  Start from any bitmap whose bits at or beyond
`bitmap_len` read as used.  In every state a run of calls reaches, no block has two
holders, no held block was used at the start, every held block is marked used, and
freeing one allocation leaves every block of every other allocation marked used.
SRCLINE: pmm.c:103-147 -/
theorem pmm_blocks_have_one_holder (init : Pmm) (hbeyond : ∀ b, init.bitmapLen ≤ b → init.used b)
    (s : PmmState) (hrun : Relation.ReflTransGen PmmStep ⟨init, []⟩ s) :
    s.holders.Pairwise (fun h h' => Disjoint h.blocks h'.blocks) ∧
    (∀ h ∈ s.holders, ∀ b ∈ h.blocks, b < init.bitmapLen ∧ ¬ init.used b) ∧
    (∀ h ∈ s.holders, ∀ b ∈ h.blocks, s.pmm.used b) ∧
    (∀ h ∈ s.holders, ∀ h' ∈ s.holders.erase h, ∀ b ∈ h'.blocks, (h.free s.pmm).used b) := by
  have hinv : PmmLedger init s := by
    induction hrun with
    | refl => exact Sound.nil le_rfl
    | tail _ hstep ih => exact pmmLedger_step ih hstep
  refine ⟨List.pairwise_map.mp hinv.exclusive, fun h hh b hb => ?_, fun h hh b hb => ?_,
    fun h hh h' hh' b hb => ?_⟩
  · have hfresh : ¬ init.used b :=
      Set.disjoint_left.mp (hinv.owned_fresh _ (List.mem_map_of_mem hh)) hb
    exact ⟨Nat.lt_of_not_le fun hle => hfresh (hbeyond b hle), hfresh⟩
  · exact hinv.owned_taken _ (List.mem_map_of_mem hh) hb
  · have hafter := pmmLedger_step hinv (.free s h hh)
    exact hafter.owned_taken _ (List.mem_map_of_mem hh') hb

/-- Eight blocks, all free, before memory that reads as used. -/
def eightFreeBlocks : Pmm where
  bitmap := fun i => if i = 0 then 0x00 else 0xFF
  bitmapLen := 8
  lastFreedBlock := 0
  bitmapLen_lt := by norm_num

/-- A page, then a run of two pages: blocks 0 and 1, 2, 3. -/
theorem pmm_blocks_have_one_holder_eight :
    ∃ s, Relation.ReflTransGen PmmStep ⟨eightFreeBlocks, []⟩ s ∧
      s.holders = [.run 0x1000 2, .page 0] ∧
      s.holders.Pairwise (fun h h' => Disjoint h.blocks h'.blocks) := by
  have hbeyond : ∀ b, eightFreeBlocks.bitmapLen ≤ b → eightFreeBlocks.used b := by
    intro b hb
    have hbyte : b / 8 ≠ 0 := by
      simp only [eightFreeBlocks] at hb
      omega
    have hbits : ∀ i : Fin 8, (0xFF : Byte).getLsbD i = true := by decide
    rw [Pmm.used_iff]
    simpa [eightFreeBlocks, hbyte] using hbits ⟨b % 8, Nat.mod_lt _ (by norm_num)⟩
  let s₁ : PmmState := ⟨eightFreeBlocks.allocPage.2, [.page eightFreeBlocks.allocPage.1]⟩
  have hstep₁ : PmmStep ⟨eightFreeBlocks, []⟩ s₁ := .allocPage _ (by decide)
  have hstep₂ := PmmStep.allocPages s₁ 2 (by norm_num) (by decide)
  have hrun := (Relation.ReflTransGen.single hstep₁).tail hstep₂
  exact ⟨_, hrun, by decide, (pmm_blocks_have_one_holder eightFreeBlocks hbeyond _ hrun).1⟩

end LakeOS.Analysis
