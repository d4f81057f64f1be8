import Mathlib.Data.List.Induction
import LakeOS.Library.Word32
import LakeOS.Model.Pmm

/-!
# The start of the physical memory manager

`PMM_init` reads the memory map of the boot loader, takes the bitmap out of the first
region that can hold it, marks every block used and then the blocks of the available
regions free.  The result keeps the list of the blocks that are marked free, in their
order, next to the bitmap that the marking leaves.
-/

set_option autoImplicit false

namespace LakeOS.Model

open LakeOS.Library

/-- `mmap_entry_t`, as far as `PMM_init` reads it. -/
structure MmapEntry where
  addressLow : ℕ
  lengthLow : ℕ
  type : ℕ
deriving DecidableEq

/-- `MULTIBOOT_MEMORY_AVAILABLE`. -/
abbrev multibootMemoryAvailable : ℕ := 1

/-- The addresses of `_begin` and `_end`. -/
structure KernelImage where
  imageBegin : ℕ
  imageEnd : ℕ
  begin_le : imageBegin ≤ imageEnd
  end_lt : imageEnd < 2 ^ 32

variable (k : KernelImage)

/-- SRCLINE: pmm.c:20-25 -/
def regionInKernel (region : MmapEntry) : Bool :=
  let regionBegin := region.addressLow
  let regionEnd := add32 region.addressLow region.lengthLow
  !(decide (regionEnd < k.imageBegin) || decide (regionBegin > k.imageEnd))

/-- SRCLINE: pmm.c:28-40 -/
def shrinkRegionAroundKernel (region : MmapEntry) : MmapEntry :=
  let regionBegin := region.addressLow
  let regionEnd := add32 region.addressLow region.lengthLow
  if regionBegin > k.imageBegin ∧ regionEnd < k.imageEnd then region
  else if regionBegin < k.imageBegin ∧ regionEnd ≤ k.imageEnd then
    { region with
      lengthLow := sub32 region.lengthLow (add32 (sub32 regionEnd k.imageBegin) 1) }
  else if regionBegin ≥ k.imageBegin ∧ regionEnd > k.imageEnd then
    { region with addressLow := add32 k.imageEnd 1 }
  else region

/-- `if (region_in_kernel(region)) shrink_region_around_kernel(region)`. -/
def cutRegion (region : MmapEntry) : MmapEntry :=
  if regionInKernel k region then shrinkRegionAroundKernel k region else region

/-- `div_round_up`. -/
def divRoundUp (a b : ℕ) : ℕ := if a % b ≠ 0 then a / b + 1 else a / b

/-- The address and the regions after the search for a region that can fit the bitmap,
`0` if there is none.
SRCLINE: pmm.c:55-71 -/
def chooseBitmap (bitmapSize : ℕ) : List MmapEntry → ℕ × List MmapEntry
  | [] => (0, [])
  | region :: regions =>
      if region.type = multibootMemoryAvailable ∧ bitmapSize ≤ region.lengthLow then
        let cut := cutRegion k region
        if regionInKernel k region ∧ cut.lengthLow < bitmapSize then
          let rest := chooseBitmap bitmapSize regions
          (rest.1, cut :: rest.2)
        else
          (cut.addressLow, { cut with
            addressLow := add32 cut.addressLow bitmapSize
            lengthLow := sub32 cut.lengthLow bitmapSize } :: regions)
      else
        let rest := chooseBitmap bitmapSize regions
        (rest.1, region :: rest.2)

/-- The blocks that the loop over a free region marks.
SRCLINE: pmm.c:90-92 -/
def markFreeLoop : ℕ → ℕ → ℕ → List ℕ
  | 0, _, _ => []
  | fuel + 1, lengthLow, blockNum =>
      if memoryBlockSize ≤ lengthLow then
        blockNum :: markFreeLoop fuel (lengthLow - memoryBlockSize) (blockNum + 1)
      else []

/-- The blocks of a region that are marked free.  The loop over a reserved region only
counts.
SRCLINE: pmm.c:79-100 -/
def markRegion (region : MmapEntry) : List ℕ :=
  let region := cutRegion k region
  if regionInKernel k region then []
  else if region.type = multibootMemoryAvailable then
    markFreeLoop region.lengthLow region.lengthLow (divRoundUp region.addressLow memoryBlockSize)
  else []

/-- What `PMM_init` leaves: where the bitmap lies and how many bytes are reserved for it,
the blocks that were marked free, and the manager. -/
structure PmmInit where
  bitmap : ℕ
  bitmapSize : ℕ
  marked : List ℕ
  pmm : Pmm

/-- The sum of the lengths, in blocks.
SRCLINE: pmm.c:46-51 -/
def bitmapLenOf (regions : List MmapEntry) : ℕ :=
  (regions.foldl (fun len region => add32 len region.lengthLow) 0) / memoryBlockSize

theorem bitmapLenOf_lt (regions : List MmapEntry) : bitmapLenOf regions < 2 ^ 20 := by
  have hsum : regions.foldl (fun len region => add32 len region.lengthLow) 0 < 2 ^ 32 := by
    induction regions using List.reverseRecOn with
    | nil => decide
    | append_singleton regions region ih =>
        rw [List.foldl_append]
        exact add32_lt _ _
  unfold bitmapLenOf memoryBlockSize
  omega

/-- The bitmap after `memset`: the bytes behind it are those of `memory`.
SRCLINE: pmm.c:74 -/
def reservedBitmap (memory : Store Byte) (bitmap bitmapSize : ℕ) : Store Byte :=
  fun i => if i < bitmapSize then 0xFF else memory (bitmap + i)

/-- SRCLINE: pmm.c:42-101 -/
def pmmInit (regions : List MmapEntry) (memory : Store Byte) : PmmInit :=
  let bitmapLen := bitmapLenOf regions
  let bitmapSize := divRoundUp bitmapLen 8
  let chosen := chooseBitmap k bitmapSize regions
  let marked := chosen.2.flatMap (markRegion k)
  let reserved : Pmm :=
    ⟨reservedBitmap memory chosen.1 bitmapSize, bitmapLen, 0, bitmapLenOf_lt regions⟩
  { bitmap := chosen.1
    bitmapSize := bitmapSize
    marked := marked
    pmm := marked.foldl (fun s b => s.bitmapSetblockstate b bitmapBlockFree) reserved }

end LakeOS.Model
