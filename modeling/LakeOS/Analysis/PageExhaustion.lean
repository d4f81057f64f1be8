import LakeOS.Analysis.PmmOwnership
import LakeOS.Library.Runs

/-!
# When `alloc_page` reports exhaustion

`alloc_page` searches from the hint `last_freed_block`, which every `free_page`
overwrites.  A block below the hint is out of reach until a block at or below it is
freed, so exhaustion is reported while it is free; and block 0 is handed out as address
0, which reads as `NULL`.  Both happen in no state of a run exactly if block 0 is not a
free block at the start and every page freed has no free block below it.
-/

set_option autoImplicit false

namespace LakeOS.Model.Pmm

/-! ## What the search of `alloc_page` leaves out -/

/-- INTERNAL: the search takes the first free block.
SRCLINE: pmm.c:106-113 -/
theorem allocPageScan_first {s : Pmm} {fuel start b : ℕ}
    (h : s.allocPageScan fuel start = some b) {num : ℕ} (hstart : start ≤ num) (hlt : num < b) :
    s.used num := by
  induction fuel generalizing start with
  | zero => simp [allocPageScan] at h
  | succ fuel ih =>
      rw [allocPageScan] at h
      split at h
      · have heq := Option.some.inj h
        omega
      · next hused =>
          by_cases hnum : num = start
          · rw [hnum]
            exact hused
          · exact ih h (by omega)

/-- INTERNAL: a search that finds nothing has seen used blocks only. -/
theorem allocPageScan_none {s : Pmm} {fuel start : ℕ} (h : s.allocPageScan fuel start = none)
    {num : ℕ} (hstart : start ≤ num) (hlt : num < start + fuel) : s.used num := by
  induction fuel generalizing start with
  | zero => omega
  | succ fuel ih =>
      rw [allocPageScan] at h
      split at h
      · simp at h
      · next hused =>
          by_cases hnum : num = start
          · rw [hnum]
            exact hused
          · exact ih h (by omega) (by omega)

/-- INTERNAL: `alloc_page` finds nothing only when all blocks from the hint on are used. -/
theorem allocPageBlock_none {s : Pmm} (h : s.allocPageBlock = none) {num : ℕ}
    (hhint : s.lastFreedBlock ≤ num) (hlt : num < s.bitmapLen) : s.used num := by
  apply allocPageScan_none h hhint
  omega

/-- INTERNAL: the block `alloc_page` finds is not below the hint. -/
theorem lastFreedBlock_le {s : Pmm} {b : ℕ} (h : s.allocPageBlock = some b) :
    s.lastFreedBlock ≤ b := (allocPageScan_some h).1

@[simp] theorem allocPage_bitmapLen (s : Pmm) : s.allocPage.2.bitmapLen = s.bitmapLen := by
  rw [allocPage]
  split <;> rfl

@[simp] theorem allocPage_lastFreedBlock (s : Pmm) :
    s.allocPage.2.lastFreedBlock = s.lastFreedBlock := by
  rw [allocPage]
  split <;> rfl

@[simp] theorem freePage_bitmapLen (s : Pmm) (page : ℕ) :
    (s.freePage page).bitmapLen = s.bitmapLen := rfl

@[simp] theorem freePage_lastFreedBlock (s : Pmm) (page : ℕ) :
    (s.freePage page).lastFreedBlock = page / memoryBlockSize := rfl

/-- INTERNAL: `alloc_page` marks the block it found and keeps all others. -/
theorem used_allocPage (s : Pmm) (num : ℕ) :
    s.allocPage.2.used num ↔ s.allocPageBlock = some num ∨ s.used num := by
  rw [allocPage]
  split
  · next b hb =>
      rw [used_setUsed, hb, Option.some_inj, eq_comm]
  · next hb => simp [hb]

end LakeOS.Model.Pmm

namespace LakeOS.Analysis

open LakeOS.Library LakeOS.Model

/-! ## Runs of `alloc_page` and `free_page` -/

/-- A call of the run. -/
inductive PmmCall where
  | alloc
  | free (page : ℕ)
  deriving DecidableEq

/-- The manager with the pages held: those that `alloc_page` returned and that are not
freed yet.  A caller that gets `NULL` holds nothing. -/
structure PageUse where
  pmm : Pmm
  held : List ℕ

namespace PageUse

/-- One call. -/
def step : PmmCall → PageUse → PageUse
  | .alloc, s =>
      ⟨s.pmm.allocPage.2,
        if s.pmm.allocPage.1 = 0 then s.held else s.pmm.allocPage.1 :: s.held⟩
  | .free page, s => ⟨s.pmm.freePage page, s.held.erase page⟩

/-- A page that is freed is held. -/
def Legal : PmmCall → PageUse → Prop
  | .alloc, _ => True
  | .free page, s => page ∈ s.held

/-- A page that is freed has no free block below it. -/
def FreesLowest : PmmCall → PageUse → Prop
  | .alloc, _ => True
  | .free page, s => ∀ num, num < page / memoryBlockSize → s.pmm.used num

/-- `alloc_page` would return `NULL` only when no block below `bitmap_len` is free. -/
def AllocComplete (s : PageUse) : Prop :=
  s.pmm.allocPage.1 = 0 → ∀ num, num < s.pmm.bitmapLen → s.pmm.used num

/-- So would the next `alloc_page` and all that follow it. -/
def AllocsComplete (s : PageUse) : Prop :=
  ∀ k, AllocComplete (after step (List.replicate k PmmCall.alloc) s)

/-- What all calls keep: the hint lies within the bitmap, block 0 is not free, and the
pages held are blocks above it. -/
structure InBitmap (s : PageUse) : Prop where
  hint_le : s.pmm.lastFreedBlock ≤ s.pmm.bitmapLen
  zero_used : 0 < s.pmm.bitmapLen → s.pmm.used 0
  held_pos : ∀ page ∈ s.held, 0 < page / memoryBlockSize
  held_lt : ∀ page ∈ s.held, page / memoryBlockSize < s.pmm.bitmapLen

/-- No block below the hint is free. -/
def NoneBelowHint (s : PageUse) : Prop := ∀ num, num < s.pmm.lastFreedBlock → s.pmm.used num

/-- INTERNAL: `alloc_page` keeps the bounds. -/
theorem inBitmap_alloc {s : PageUse} (hs : InBitmap s) : InBitmap (step .alloc s) := by
  have hheld : ∀ page ∈ (step .alloc s).held, page ∈ s.held ∨
      page = s.pmm.allocPage.1 ∧ s.pmm.allocPage.1 ≠ 0 := by
    intro page hpage
    unfold step at hpage
    dsimp only at hpage
    split at hpage
    · exact .inl hpage
    · next hne =>
        simp only [List.mem_cons] at hpage
        exact hpage.symm.imp_right fun heq => ⟨heq, hne⟩
  have hnew : s.pmm.allocPage.1 ≠ 0 → 0 < s.pmm.allocPage.1 / memoryBlockSize ∧
      s.pmm.allocPage.1 / memoryBlockSize < s.pmm.bitmapLen := by
    intro hne
    cases hb : s.pmm.allocPageBlock with
    | none => simp [Pmm.allocPage, hb] at hne
    | some b =>
        rw [Pmm.allocPage_address hb]
        refine ⟨Nat.pos_of_ne_zero fun hzero => hne ?_, (Pmm.allocPageBlock_some hb).1⟩
        simp [Pmm.allocPage, hb, hzero]
  constructor
  · simpa [step] using hs.hint_le
  · intro hlen
    rw [step, Pmm.allocPage_bitmapLen] at hlen
    exact (Pmm.used_allocPage _ _).mpr (.inr (hs.zero_used hlen))
  · intro page hpage
    obtain hold | ⟨rfl, hne⟩ := hheld page hpage
    · exact hs.held_pos page hold
    · exact (hnew hne).1
  · intro page hpage
    rw [step, Pmm.allocPage_bitmapLen]
    obtain hold | ⟨rfl, hne⟩ := hheld page hpage
    · exact hs.held_lt page hold
    · exact (hnew hne).2

/-- INTERNAL: `free_page` of a page held keeps the bounds. -/
theorem inBitmap_free {s : PageUse} {page : ℕ} (hs : InBitmap s) (hpage : page ∈ s.held) :
    InBitmap (step (.free page) s) := by
  constructor
  · exact (hs.held_lt page hpage).le
  · intro hlen
    have hpos := hs.held_pos page hpage
    refine (Pmm.used_freePage _ _ _).mpr ⟨by omega, hs.zero_used hlen⟩
  · intro other hother
    exact hs.held_pos other (List.mem_of_mem_erase hother)
  · intro other hother
    exact hs.held_lt other (List.mem_of_mem_erase hother)

/-- INTERNAL: every legal call keeps the bounds. -/
theorem inBitmap_step (c : PmmCall) (s : PageUse) (hs : InBitmap s) (hlegal : Legal c s) :
    InBitmap (step c s) := by
  cases c with
  | alloc => exact inBitmap_alloc hs
  | free page => exact inBitmap_free hs hlegal

/-- INTERNAL: `alloc_page` keeps the blocks below the hint used. -/
theorem noneBelowHint_alloc {s : PageUse} (hs : NoneBelowHint s) :
    NoneBelowHint (step .alloc s) := by
  intro num hnum
  rw [step, Pmm.allocPage_lastFreedBlock] at hnum
  exact (Pmm.used_allocPage _ _).mpr (.inr (hs num hnum))

/-- INTERNAL: with no free block below the hint, the search misses none. -/
theorem allocComplete_of_noneBelowHint {s : PageUse} (hs : InBitmap s) (hnone : NoneBelowHint s) :
    AllocComplete s := by
  intro hnull num hlt
  cases hb : s.pmm.allocPageBlock with
  | none =>
      by_cases hhint : num < s.pmm.lastFreedBlock
      · exact hnone num hhint
      · exact Pmm.allocPageBlock_none hb (by omega) hlt
  | some b =>
      have hfound := Pmm.allocPageBlock_some hb
      have haddr := Pmm.allocPage_address hb
      rw [hnull, Nat.zero_div] at haddr
      rw [← haddr] at hfound
      exact absurd (hs.zero_used hfound.1) hfound.2

/-- INTERNAL: with no free block below the hint, no later search misses one either. -/
theorem allocsComplete_of_noneBelowHint {s : PageUse} (hs : InBitmap s)
    (hnone : NoneBelowHint s) : AllocsComplete s := by
  intro k
  induction k generalizing s with
  | zero => exact allocComplete_of_noneBelowHint hs hnone
  | succ k ih => exact ih (inBitmap_alloc hs) (noneBelowHint_alloc hnone)

/-- INTERNAL: **the blocks from the hint on run out**, and a free block below the hint is
still free then.  The induction is on the blocks behind `top`, up to which the search has
seen used blocks only. -/
theorem exists_exhausted {s : PageUse} {low : ℕ} (hlow : low < s.pmm.lastFreedBlock)
    (hfree : ¬ s.pmm.used low) {d top : ℕ} (hd : s.pmm.bitmapLen ≤ top + d)
    (htop : ∀ num, s.pmm.lastFreedBlock ≤ num → num < top → s.pmm.used num) :
    ∃ k, (after step (List.replicate k PmmCall.alloc) s).pmm.allocPageBlock = none ∧
      ¬ (after step (List.replicate k PmmCall.alloc) s).pmm.used low ∧
      (after step (List.replicate k PmmCall.alloc) s).pmm.bitmapLen = s.pmm.bitmapLen := by
  induction d generalizing s top with
  | zero =>
      refine ⟨0, ?_, hfree, rfl⟩
      cases hb : s.pmm.allocPageBlock with
      | none => simpa [after] using hb
      | some b =>
          have hfound := Pmm.allocPageBlock_some hb
          exact absurd (htop b (Pmm.lastFreedBlock_le hb) (by omega)) hfound.2
  | succ d ih =>
      cases hb : s.pmm.allocPageBlock with
      | none => exact ⟨0, hb, hfree, rfl⟩
      | some b =>
          have hhint := Pmm.lastFreedBlock_le hb
          have hfree' : ¬ (step .alloc s).pmm.used low := by
            rw [step, Pmm.used_allocPage, hb, Option.some_inj]
            rintro (heq | hused)
            · omega
            · exact hfree hused
          have htop' : ∀ num, (step .alloc s).pmm.lastFreedBlock ≤ num → num < top + 1 →
              (step .alloc s).pmm.used num := by
            intro num hle hlt
            rw [step, Pmm.allocPage_lastFreedBlock] at hle
            rw [step, Pmm.used_allocPage, hb, Option.some_inj]
            by_cases hnum : num < top
            · exact .inr (htop num hle hnum)
            · -- the block found is not among those seen, so `top` is at or before it
              have hbtop : top ≤ b := by
                by_contra hcontra
                exact (Pmm.allocPageBlock_some hb).2 (htop b hhint (by omega))
              obtain heq | hlt' : b = num ∨ num < b := by omega
              · exact .inl heq
              · exact .inr (Pmm.allocPageScan_first hb hle hlt')
          have hlen' : (step .alloc s).pmm.bitmapLen = s.pmm.bitmapLen :=
            Pmm.allocPage_bitmapLen s.pmm
          have hlow' : low < (step .alloc s).pmm.lastFreedBlock := by
            rw [step, Pmm.allocPage_lastFreedBlock]
            exact hlow
          obtain ⟨k, hnone, hstill, hlen⟩ := ih hlow' hfree' (by omega) htop'
          exact ⟨k + 1, hnone, hstill, hlen.trans hlen'⟩

/-- INTERNAL: no `alloc_page` from here on misses a free block exactly if none lies below
the hint. -/
theorem allocsComplete_iff {s : PageUse} (hs : InBitmap s) :
    AllocsComplete s ↔ NoneBelowHint s := by
  refine ⟨fun hall low hlow => ?_, allocsComplete_of_noneBelowHint hs⟩
  by_contra hfree
  obtain ⟨k, hnone, hstill, hlen⟩ :=
    exists_exhausted hlow hfree (Nat.le_add_left s.pmm.bitmapLen 0) (by simp)
  refine hstill (hall k ?_ low ?_)
  · rw [Pmm.allocPage, hnone]
  · rw [hlen]
    exact hlow.trans_le hs.hint_le

/-- INTERNAL: a legal call keeps later searches complete exactly if a page it frees has no
free block below it. -/
theorem allocsComplete_step (c : PmmCall) (s : PageUse) (hs : InBitmap s) (hlegal : Legal c s)
    (hall : AllocsComplete s) : AllocsComplete (step c s) ↔ FreesLowest c s := by
  cases c with
  | alloc => exact iff_of_true (fun k => hall (k + 1)) trivial
  | free page =>
      rw [allocsComplete_iff (inBitmap_free hs hlegal)]
      refine forall_congr' fun num => ?_
      rw [step, Pmm.freePage_lastFreedBlock, Pmm.used_freePage]
      refine imp_congr_right fun hlt => and_iff_right ?_
      omega

instance : ∀ (c : PmmCall) (s : PageUse), Decidable (Legal c s)
  | .alloc, _ => inferInstanceAs (Decidable True)
  | .free page, s => inferInstanceAs (Decidable (page ∈ s.held))

instance : ∀ (c : PmmCall) (s : PageUse), Decidable (FreesLowest c s)
  | .alloc, _ => inferInstanceAs (Decidable True)
  | .free page, s =>
      inferInstanceAs (Decidable (∀ num, num < page / memoryBlockSize → s.pmm.used num))

/-- The manager at boot: the hint is 0 and nobody holds a page. -/
def boot (bitmap : Pmm) : PageUse := ⟨{ bitmap with lastFreedBlock := 0 }, []⟩

end PageUse

open PageUse

/-- **Exhaustion is reported only when nothing is free** (`alloc_page` returns `NULL` only
when no block below `bitmap_len` is free), in every state of a run and of the runs that go
on from there with `alloc_page` alone, exactly if block 0 is not a free block at the start
and every page that the run frees has no free block below it.
SRCLINE: pmm.c:103-119 -/
theorem exhaustion_complete_iff (bitmap : Pmm) (calls : List PmmCall)
    (hlegal : EachCall step Legal calls (boot bitmap)) :
    Throughout step AllocsComplete calls (boot bitmap) ↔
      (0 < bitmap.bitmapLen → bitmap.used 0) ∧ EachCall step FreesLowest calls (boot bitmap) := by
  have hbounds : (0 < bitmap.bitmapLen → bitmap.used 0) → InBitmap (boot bitmap) := fun hzero =>
    ⟨Nat.zero_le _, hzero, by simp [boot], by simp [boot]⟩
  have hrun : InBitmap (boot bitmap) → (Throughout step AllocsComplete calls (boot bitmap) ↔
      EachCall step FreesLowest calls (boot bitmap)) := fun hs =>
    throughout_iff_eachCall inBitmap_step allocsComplete_step hs
      (allocsComplete_of_noneBelowHint hs fun num hnum => absurd hnum (Nat.not_lt_zero num)) hlegal
  constructor
  · intro hall
    have hzero : 0 < bitmap.bitmapLen → bitmap.used 0 := by
      intro hlen
      by_contra hfree
      -- `alloc_page` hands block 0 out as address 0
      have hfound : (boot bitmap).pmm.allocPageBlock = some 0 := by
        obtain ⟨fuel, hfuel⟩ := Nat.exists_eq_add_of_lt hlen
        rw [Pmm.allocPageBlock, show (boot bitmap).pmm.bitmapLen - (boot bitmap).pmm.lastFreedBlock
          = fuel + 1 by simp only [boot]; omega, Pmm.allocPageScan]
        exact if_pos (Pmm.not_used.mp hfree)
      have hnull : (boot bitmap).pmm.allocPage.1 = 0 := by
        rw [Pmm.allocPage, hfound]
        rfl
      exact hfree (hall.first 0 hnull 0 hlen)
    exact ⟨hzero, (hrun (hbounds hzero)).mp hall⟩
  · rintro ⟨hzero, hcalls⟩
    exact (hrun (hbounds hzero)).mpr hcalls

/-- Eight blocks, of which 1 and 2 are free. -/
def twoFreeBlocks : Pmm where
  bitmap := fun _ => 0xF9
  bitmapLen := 8
  lastFreedBlock := 0
  bitmapLen_lt := eightFreeBlocks.bitmapLen_lt

/-- Two pages taken and freed again, the higher one first. -/
theorem exhaustion_complete_iff_two :
    Throughout step AllocsComplete [.alloc, .alloc, .free 0x2000, .free 0x1000]
      (boot twoFreeBlocks) := by
  apply (exhaustion_complete_iff twoFreeBlocks _ (by decide)).mpr
  decide

/-- Freed the other way round, the lower page is lost: the second `alloc_page` after the
frees returns `NULL` while block 1 is free. -/
theorem freed_page_is_not_found :
    EachCall step Legal [.alloc, .alloc, .free 0x1000, .free 0x2000, .alloc, .alloc]
      (boot twoFreeBlocks) ∧
    ¬ AllocComplete (after step [.alloc, .alloc, .free 0x1000, .free 0x2000, .alloc]
      (boot twoFreeBlocks)) := by
  refine ⟨by decide, fun hcomplete => ?_⟩
  have hfree := hcomplete (by decide) 1 (by decide)
  revert hfree
  decide

end LakeOS.Analysis
