import LakeOS.Analysis.PageExhaustion

/-!
# What `alloc_pages` takes

The inner loop of `alloc_pages` stops on `free_block_size == n` after it has looked at
the block `n` behind the first, so it asks for `n + 1` free blocks, marks `n + 1`, passes
over a run of exactly `n`, and looks at the blocks behind `bitmap_len` whenever the last
block of the bitmap is free.  A call that finds anything takes one block too many; only a
call that rightly finds nothing does what it should.
-/

set_option autoImplicit false

namespace LakeOS.Model.Pmm

/-! ## The blocks a call looks at -/

/-- The blocks whose state the inner loop reads.
SRCLINE: pmm.c:124-127 -/
def allocPagesRunReads (s : Pmm) (blockNum n : ℕ) : ℕ → ℕ → List ℕ
  | 0, _ => []
  | fuel + 1, freeBlockSize =>
      (blockNum + freeBlockSize) ::
        if s.bitmapGetblockstate (blockNum + freeBlockSize) = bitmapBlockFree then
          if freeBlockSize = n then []
          else allocPagesRunReads s blockNum n fuel (freeBlockSize + 1)
        else []

/-- The blocks whose state the outer loop reads.
SRCLINE: pmm.c:122-138 -/
def allocPagesScanReads (s : Pmm) (n : ℕ) : ℕ → ℕ → List ℕ
  | 0, _ => []
  | fuel + 1, blockNum =>
      if blockNum < s.bitmapLen then
        s.allocPagesRunReads blockNum n (n + 1) 0 ++
          match s.allocPagesRun blockNum n (n + 1) 0 with
          | (_, true) => []
          | (freeBlockSize, false) =>
              allocPagesScanReads s n fuel (blockNum + freeBlockSize + 1)
      else []

/-- The blocks whose state `alloc_pages` reads or writes.
SRCLINE: pmm.c:121-141 -/
def allocPagesAccesses (s : Pmm) (n : ℕ) : List ℕ :=
  s.allocPagesScanReads n (s.bitmapLen - s.lastFreedBlock) s.lastFreedBlock ++
    match s.allocPagesBlocks n with
    | some (blockNum, freeBlockSize) => (List.range (freeBlockSize + 1)).map (blockNum + ·)
    | none => []

/-- INTERNAL: the inner loop is left without a run at the first used block.
SRCLINE: pmm.c:124-127 -/
theorem allocPagesRun_stopped {s : Pmm} {b n fuel k size : ℕ} (hfuel : k + fuel = n + 1)
    (hk : k ≤ n) (h : s.allocPagesRun b n fuel k = (size, false)) :
    k ≤ size ∧ s.used (b + size) ∧ ∀ i, k ≤ i → i < size → ¬ s.used (b + i) := by
  induction fuel generalizing k with
  | zero => omega
  | succ fuel ih =>
      rw [allocPagesRun] at h
      split at h
      · next hfree =>
          split at h
          · simp at h
          · next hkn =>
              obtain ⟨hle, hused, hrest⟩ := ih (by omega) (by omega) h
              refine ⟨by omega, hused, fun i hi hlt => ?_⟩
              by_cases hik : i = k
              · rw [hik]
                exact not_used.mpr hfree
              · exact hrest i (by omega) hlt
      · next hused =>
          simp only [Prod.mk.injEq, and_true] at h
          subst h
          exact ⟨le_rfl, hused, fun i hi hlt => absurd hlt (by omega)⟩

/-- INTERNAL: the inner loop reads every block up to the one that stops it, and no other.
SRCLINE: pmm.c:124-127 -/
theorem mem_allocPagesRunReads {s : Pmm} {b n fuel k size : ℕ} (hfuel : k + fuel = n + 1)
    (hk : k ≤ n) (h : s.allocPagesRun b n fuel k = (size, false)) (num : ℕ) :
    num ∈ s.allocPagesRunReads b n fuel k ↔ b + k ≤ num ∧ num ≤ b + size := by
  induction fuel generalizing k with
  | zero => omega
  | succ fuel ih =>
      have hle := (allocPagesRun_stopped hfuel hk h).1
      rw [allocPagesRun] at h
      rw [allocPagesRunReads, List.mem_cons]
      split at h
      · next hfree =>
          rw [if_pos hfree]
          split at h
          · simp at h
          · next hkn =>
              have hnext := (allocPagesRun_stopped (by omega) (by omega) h).1
              rw [if_neg hkn, ih (by omega) (by omega) h]
              omega
      · next hused =>
          simp only [Prod.mk.injEq, and_true] at h
          rw [if_neg hused, List.mem_nil_iff, or_false]
          omega

/-- INTERNAL: **a search that finds nothing reads the block at `bitmap_len`** if the last
block of the bitmap is free.
SRCLINE: pmm.c:122-138 -/
theorem bitmapLen_mem_scanReads {s : Pmm} {n fuel start : ℕ}
    (hfuel : s.bitmapLen ≤ start + fuel) (hlt : start < s.bitmapLen)
    (hlast : ¬ s.used (s.bitmapLen - 1)) (h : s.allocPagesScan n fuel start = none) :
    s.bitmapLen ∈ s.allocPagesScanReads n fuel start := by
  induction fuel generalizing start with
  | zero => omega
  | succ fuel ih =>
      rw [allocPagesScan, if_pos hlt] at h
      rw [allocPagesScanReads, if_pos hlt, List.mem_append]
      rcases hrun : s.allocPagesRun start n (n + 1) 0 with ⟨size, found⟩
      rw [hrun] at h
      cases found with
      | true => simp at h
      | false =>
          have hstop := allocPagesRun_stopped (Nat.zero_add _) (Nat.zero_le n) hrun
          by_cases hend : s.bitmapLen ≤ start + size
          · apply Or.inl
            rw [mem_allocPagesRunReads (Nat.zero_add _) (Nat.zero_le n) hrun]
            omega
          · apply Or.inr
            have hne : start + size ≠ s.bitmapLen - 1 := by
              intro heq
              rw [← heq] at hlast
              exact hlast hstop.2.1
            exact ih (by omega) (by omega) h

/-- INTERNAL: a search that finds nothing stays within the bitmap if its last block is
used.
SRCLINE: pmm.c:122-138 -/
theorem scanReads_lt {s : Pmm} {n fuel start : ℕ}
    (hlast : start < s.bitmapLen → s.used (s.bitmapLen - 1))
    (h : s.allocPagesScan n fuel start = none) :
    ∀ num ∈ s.allocPagesScanReads n fuel start, num < s.bitmapLen := by
  induction fuel generalizing start with
  | zero => simp [allocPagesScanReads]
  | succ fuel ih =>
      rw [allocPagesScan] at h
      rw [allocPagesScanReads]
      by_cases hlt : start < s.bitmapLen
      · rw [if_pos hlt] at h ⊢
        rcases hrun : s.allocPagesRun start n (n + 1) 0 with ⟨size, found⟩
        rw [hrun] at h
        cases found with
        | true => simp at h
        | false =>
            have hstop := allocPagesRun_stopped (Nat.zero_add _) (Nat.zero_le n) hrun
            have hsize : start + size ≤ s.bitmapLen - 1 := by
              by_contra hcontra
              refine hstop.2.2 (s.bitmapLen - 1 - start) (Nat.zero_le _) (by omega) ?_
              rw [Nat.add_sub_cancel' (by omega)]
              exact hlast hlt
            intro num hnum
            rw [List.mem_append, mem_allocPagesRunReads (Nat.zero_add _) (Nat.zero_le n) hrun] at hnum
            obtain hhere | hlater := hnum
            · omega
            · exact ih (fun _ => hlast hlt) h num hlater
      · rw [if_neg hlt]
        simp

/-- INTERNAL: a search does not go back behind its start. -/
theorem allocPagesScan_start_le {s : Pmm} {n fuel start b size : ℕ}
    (h : s.allocPagesScan n fuel start = some (b, size)) : start ≤ b := by
  induction fuel generalizing start with
  | zero => simp [allocPagesScan] at h
  | succ fuel ih =>
      rw [allocPagesScan] at h
      split at h
      · split at h
        · simp only [Option.some.injEq, Prod.mk.injEq] at h
          omega
        · have := ih h
          omega
      · simp at h

end LakeOS.Model.Pmm

namespace LakeOS.Analysis

open LakeOS.Model

/-- A run of `n` free blocks at `b` that lies between the hint and `bitmap_len`. -/
structure FreeRun (s : Pmm) (n b : ℕ) : Prop where
  hint_le : s.lastFreedBlock ≤ b
  end_le : b + n ≤ s.bitmapLen
  free : ∀ i, i < n → ¬ s.used (b + i)

/-- `alloc_pages(n)` takes exactly `n`: the start of a run is returned and the run marked
if there is one, `NULL` returned and nothing changed if there is none, and no bit behind
the bitmap is touched. -/
structure TakesExactly (s : Pmm) (n : ℕ) : Prop where
  found : (∃ b, FreeRun s n b) → ∃ b, FreeRun s n b ∧
    (s.allocPages n).1 = memoryBlockSize * b ∧
    (s.allocPages n).2.usedSet = s.usedSet ∪ Set.Ico b (b + n)
  notFound : (¬ ∃ b, FreeRun s n b) → s.allocPages n = (0, s)
  inBitmap : ∀ num ∈ s.allocPagesAccesses n, num < s.bitmapLen

/-- INTERNAL: a call that finds a run marks `n + 1` blocks, and so not exactly `n`. -/
theorem not_takesExactly_of_found {s : Pmm} {n b size : ℕ}
    (h : s.allocPagesBlocks n = some (b, size)) : ¬ TakesExactly s n := by
  intro hexact
  have hafter := Pmm.usedSet_allocPages h
  have hfree := (Pmm.allocPagesScan_some h).2
  have hmarked : ∀ i, i ≤ n → b + i ∈ (s.allocPages n).2.usedSet := by
    intro i hi
    rw [hafter]
    exact .inr ⟨Nat.le_add_right b i, Nat.add_le_add_left hi b⟩
  by_cases hrun : ∃ b, FreeRun s n b
  · obtain ⟨b', hrun', -, hset⟩ := hexact.found hrun
    have hwithin : ∀ i, i ≤ n → b' ≤ b + i ∧ b + i < b' + n := by
      intro i hi
      have hmem := hmarked i hi
      rw [hset] at hmem
      exact hmem.resolve_left (hfree i hi)
    have hfirst := hwithin 0 (Nat.zero_le n)
    have hlast := hwithin n le_rfl
    omega
  · have hsame := hexact.notFound hrun
    have hmem := hmarked 0 (Nat.zero_le n)
    rw [hsame] at hmem
    exact hfree 0 (Nat.zero_le n) hmem

/-- **`alloc_pages` takes exactly `n` blocks** of the bitmap, or none where there are none,
exactly if no run of `n` free blocks lies between the hint and `bitmap_len` and the last
block there is used.
SRCLINE: pmm.c:121-141 -/
theorem allocPages_exact_iff (s : Pmm) (n : ℕ) (pos : 1 ≤ n) :
    TakesExactly s n ↔
      (¬ ∃ b, FreeRun s n b) ∧ (s.lastFreedBlock < s.bitmapLen → s.used (s.bitmapLen - 1)) := by
  constructor
  · intro hexact
    have hnone : s.allocPagesBlocks n = none := by
      cases hb : s.allocPagesBlocks n with
      | none => rfl
      | some run => exact absurd hexact (not_takesExactly_of_found hb)
    refine ⟨fun hrun => ?_, fun hlt => ?_⟩
    · -- nothing was marked, although a run of at least one free block exists
      obtain ⟨b, hrun', -, hset⟩ := hexact.found hrun
      have hmem : b ∈ (s.allocPages n).2.usedSet := by
        rw [hset]
        exact .inr ⟨le_rfl, by omega⟩
      rw [Pmm.allocPages, hnone] at hmem
      exact hrun'.free 0 (by omega) hmem
    · by_contra hlast
      have hread := Pmm.bitmapLen_mem_scanReads (by omega) hlt hlast hnone
      have hin := hexact.inBitmap s.bitmapLen (List.mem_append_left _ hread)
      omega
  · rintro ⟨hrun, hlast⟩
    have hnone : s.allocPagesBlocks n = none := by
      cases hb : s.allocPagesBlocks n with
      | none => rfl
      | some run =>
          obtain ⟨b, size⟩ := run
          have hle := Pmm.allocPagesScan_start_le hb
          have hlt := Pmm.allocPagesScan_lt hb
          have hfree := (Pmm.allocPagesScan_some hb).2
          have hlong : ¬ b + n ≤ s.bitmapLen := fun hend =>
            hrun ⟨b, hle, hend, fun i hi => hfree i hi.le⟩
          -- a run that does not end before `bitmap_len` holds the last block
          refine absurd (hlast (by omega)) ?_
          have hlastFree := hfree (s.bitmapLen - 1 - b) (by omega)
          rwa [Nat.add_sub_cancel' (by omega)] at hlastFree
    constructor
    · exact fun h => absurd h hrun
    · intro _
      rw [Pmm.allocPages, hnone]
    · intro num hnum
      rw [Pmm.allocPagesAccesses, hnone, List.append_nil] at hnum
      exact Pmm.scanReads_lt hlast hnone num hnum

/-- Where two blocks in a row are free, three are not to be had. -/
theorem allocPages_exact_iff_three : TakesExactly twoFreeBlocks 3 := by
  apply (allocPages_exact_iff twoFreeBlocks 3 (by norm_num)).mpr
  refine ⟨?_, fun _ => by decide⟩
  rintro ⟨b, hrun⟩
  have hthree : ∀ b, b < 6 → twoFreeBlocks.used b ∨ twoFreeBlocks.used (b + 1) ∨
      twoFreeBlocks.used (b + 2) := by decide
  have hend : b + 3 ≤ 8 := hrun.end_le
  have hused := hthree b (by omega)
  have hfree := hrun.free
  have hfirst := hfree 0 (by norm_num)
  have hsecond := hfree 1 (by norm_num)
  have hthird := hfree 2 (by norm_num)
  tauto

/-- One page asked for: blocks 1 and 2 are taken.  Two pages asked for: the run of exactly
two free blocks is passed over. -/
theorem allocPages_takes_one_more :
    ¬ TakesExactly twoFreeBlocks 1 ∧ (twoFreeBlocks.allocPages 1).2.used 2 ∧
      FreeRun twoFreeBlocks 2 1 ∧ (twoFreeBlocks.allocPages 2).1 = 0 := by
  have hfound : twoFreeBlocks.allocPagesBlocks 1 = some (1, 1) := by decide
  refine ⟨not_takesExactly_of_found hfound, by decide, ?_, by decide⟩
  constructor
  · decide
  · decide
  · decide

end LakeOS.Analysis
