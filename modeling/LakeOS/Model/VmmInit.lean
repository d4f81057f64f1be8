import LakeOS.Library.Word32
import LakeOS.Model.Vmm

/-!
# The start of the page tables, and changing permissions

`VMM_init` makes the bitmap of the physical memory manager reachable through the higher
half and drops the identity mapping.  `vmm_new_permissions` gives a page other
permissions.
-/

set_option autoImplicit false

namespace LakeOS.Model

open LakeOS.Library

/-- `ENTRY_SET_ATTRIBUTE`, given a `bool`. -/
def entrySetAttribute (entry attrib : BitVec 32) (value : Bool) : BitVec 32 :=
  (entry &&& ~~~attrib) ||| ((if value then 1 else 0) &&& attrib)

/-- `bitmap_size`: the bytes of the bitmap.
SRCLINE: vmm.c:174 -/
def bitmapSize (bitmapLen : ℕ) : ℕ := bitmapLen / 8 + if bitmapLen % 8 = 0 then 0 else 1

/-- `num_pages`: the pages of the bitmap.
SRCLINE: vmm.c:175 -/
def bitmapPages (bitmapLen : ℕ) : ℕ :=
  bitmapSize bitmapLen / 4096 + if bitmapSize bitmapLen % 4096 = 0 then 0 else 1

/-- The address of page `i` of the bitmap in the higher half. -/
def bitmapPage (bitmap i : ℕ) : ℕ := add32 (add32 bitmap 0xC0000000) (mul32 i 4096)

namespace Vmm

variable {α : Type} (k : KernelLayout) (A : FrameAllocator α)

/-- The loop of `VMM_init`.
SRCLINE: vmm.c:186-187 -/
def mapBitmap (bitmap : ℕ) : ℕ → Vmm α → Vmm α
  | 0, s => s
  | n + 1, s => vmmMapPage k A bitmap (bitmapPage bitmap n) true false (mapBitmap bitmap n s)

/-- `bitmap` and the page tables afterwards, `none` where it loops forever.  With
`kernel_page_directory` behind `curr_page_directory`.
SRCLINE: vmm.c:170-195 -/
def vmmInit (bitmap bitmapLen : ℕ) (s : Vmm α) : Option (ℕ × Vmm α) :=
  if bitmap % 4096 ≠ 0 then none
  else
    let s := mapBitmap k A bitmap (bitmapPages bitmapLen) s
    some (add32 bitmap 0xC0000000, s.setDirectoryEntry k 0 0)

/-- SRCLINE: vmm.c:342-370 -/
def vmmNewPermissions (vaddr : ℕ) (write ring3 : Bool) (s : Vmm α) : Vmm α :=
  let s := s.setDirectoryEntry k vaddr
    (entrySetAttribute (s.directoryEntry k vaddr) pageStructEntryUserAccess ring3)
  if !entryPresent (s.directoryEntry k vaddr) then s
  else
    let s := s.mapWindow k (entryFrame (s.directoryEntry k vaddr))
    let s := s.setWindowEntry k (pageTableIndex vaddr)
      (entrySetAttribute (s.windowEntry k (pageTableIndex vaddr)) pageStructEntryWriteable write)
    s.setWindowEntry k (pageTableIndex vaddr)
      (entrySetAttribute (s.windowEntry k (pageTableIndex vaddr)) pageStructEntryUserAccess ring3)

end Vmm

end LakeOS.Model
