import Mathlib.Tactic.Common
import LakeOS.Model.Pmm
import LakeOS.Model.Umm

/-!
# Page tables

Physical memory is seen as frames of 1024 words, named by their addresses.  The kernel
reaches two of them through fixed virtual addresses: the page directory through
`curr_page_directory`, and a page table through `0xC03FF000`, the window that every
function here moves by editing `higher_half_page_table`.  Both addresses lie in the
region of directory slot 768, which `higher_half_page_table` maps in every address
space, so the frames behind them are read from that table.

Physical frames come from a `FrameAllocator`.  The translation caches are not modelled:
the functions flush an entry after they change it.
-/

set_option autoImplicit false

namespace LakeOS.Model

open LakeOS.Library

/-- The contents of physical memory: the words of every frame. -/
abbrev PhysMemory := ℕ → ℕ → BitVec 32

/-- Physical memory with one word replaced. -/
def PhysMemory.setWord (m : PhysMemory) (frame i : ℕ) (w : BitVec 32) : PhysMemory :=
  Function.update m frame (Function.update (m frame) i w)

/-- Physical memory with one frame cleared. -/
def PhysMemory.clear (m : PhysMemory) (frame : ℕ) : PhysMemory :=
  Function.update m frame fun _ => 0

theorem PhysMemory.setWord_self (m : PhysMemory) (frame i : ℕ) (w : BitVec 32) :
    m.setWord frame i w frame i = w := by
  simp [setWord]

theorem PhysMemory.setWord_of_ne (m : PhysMemory) {frame i frame' i' : ℕ} (w : BitVec 32)
    (h : frame' ≠ frame ∨ i' ≠ i) : m.setWord frame i w frame' i' = m frame' i' := by
  unfold setWord
  by_cases hframe : frame' = frame
  · rw [hframe, Function.update_self, Function.update_of_ne (h.resolve_left (not_not.mpr hframe))]
  · rw [Function.update_of_ne hframe]

theorem PhysMemory.clear_self (m : PhysMemory) (frame i : ℕ) : m.clear frame frame i = 0 := by
  simp [clear]

theorem PhysMemory.clear_of_ne (m : PhysMemory) {frame frame' : ℕ} (i : ℕ)
    (h : frame' ≠ frame) : m.clear frame frame' i = m frame' i := by
  rw [clear, Function.update_of_ne h]

/-! ## Entries -/

/-- `PAGE_STRUCT_ENTRY_PRESENT`. -/
abbrev pageStructEntryPresent : BitVec 32 := 0b1

/-- `PAGE_STRUCT_ENTRY_WRITEABLE`. -/
abbrev pageStructEntryWriteable : BitVec 32 := 0b10

/-- `PAGE_STRUCT_ENTRY_USER_ACCESS`. -/
abbrev pageStructEntryUserAccess : BitVec 32 := 0b100

/-- `PAGE_STRUCT_PAGE_FRAME`. -/
abbrev pageStructPageFrame : BitVec 32 := 0xFFFFF000

/-- `ENTRY_ADD_ATTRIBUTE`. -/
def entryAddAttribute (entry attrib : BitVec 32) : BitVec 32 := entry ||| attrib

/-- `ENTRY_DEL_ATTRIBUTE`. -/
def entryDelAttribute (entry attrib : BitVec 32) : BitVec 32 := entry &&& ~~~attrib

/-- `ENTRY_GET_ATTRIBUTE`. -/
def entryGetAttribute (entry attrib : BitVec 32) : BitVec 32 := entry &&& attrib

/-- `ENTRY_SET_FRAME`. -/
def entrySetFrame (entry : BitVec 32) (frame : ℕ) : BitVec 32 :=
  (entry &&& ~~~pageStructPageFrame) ||| (BitVec.ofNat 32 frame &&& pageStructPageFrame)

/-- `PTE_FROM_PDIR`, and the frame of any entry. -/
def entryFrame (entry : BitVec 32) : ℕ := (entryGetAttribute entry pageStructPageFrame).toNat

/-- An entry is present. -/
def entryPresent (entry : BitVec 32) : Bool := entryGetAttribute entry pageStructEntryPresent != 0

theorem pageFrame_bit : ∀ i < 32, pageStructPageFrame.getLsbD i = decide (12 ≤ i) := by decide

theorem entryPresent_eq (e : BitVec 32) : entryPresent e = e.getLsbD 0 := by
  unfold entryPresent entryGetAttribute
  rw [show pageStructEntryPresent = 1#32 from rfl, BitVec.and_one_eq_setWidth_ofBool_getLsbD]
  cases e.getLsbD 0 <;> rfl

theorem entryPresent_addPresent (e : BitVec 32) :
    entryPresent (entryAddAttribute e pageStructEntryPresent) = true := by
  rw [entryPresent_eq, entryAddAttribute, BitVec.getLsbD_or]
  exact Bool.or_true _

theorem entryPresent_delPresent (e : BitVec 32) :
    entryPresent (entryDelAttribute e pageStructEntryPresent) = false := by
  rw [entryPresent_eq, entryDelAttribute, BitVec.getLsbD_and]
  exact Bool.and_false _

theorem entryPresent_addAttribute (e : BitVec 32) {a : BitVec 32} (h : a.getLsbD 0 = false) :
    entryPresent (entryAddAttribute e a) = entryPresent e := by
  rw [entryPresent_eq, entryPresent_eq, entryAddAttribute, BitVec.getLsbD_or, h, Bool.or_false]

theorem entryPresent_setFrame (e : BitVec 32) (frame : ℕ) :
    entryPresent (entrySetFrame e frame) = entryPresent e := by
  have hbit : pageStructPageFrame.getLsbD 0 = false := rfl
  have hnot : (~~~pageStructPageFrame).getLsbD 0 = true := rfl
  rw [entryPresent_eq, entryPresent_eq, entrySetFrame, BitVec.getLsbD_or, BitVec.getLsbD_and,
    BitVec.getLsbD_and, hbit, hnot, Bool.and_true, Bool.and_false, Bool.or_false]

theorem entryFrame_addAttribute (e : BitVec 32) {a : BitVec 32} (h : a &&& pageStructPageFrame = 0) :
    entryFrame (entryAddAttribute e a) = entryFrame e := by
  unfold entryFrame entryGetAttribute entryAddAttribute
  rw [BitVec.and_comm, BitVec.and_or_distrib_left, BitVec.and_comm _ a, h, BitVec.and_comm]
  exact congrArg BitVec.toNat (BitVec.or_zero)

theorem entryFrame_setFrame (e : BitVec 32) {frame : ℕ} (hpage : 0x1000 ∣ frame)
    (hlt : frame < 2 ^ 32) : entryFrame (entrySetFrame e frame) = frame := by
  have hbits : entrySetFrame e frame &&& pageStructPageFrame = BitVec.ofNat 32 frame := by
    obtain ⟨c, rfl⟩ := hpage
    apply BitVec.eq_of_getLsbD_eq
    intro i hi
    unfold entrySetFrame
    rw [BitVec.getLsbD_and, BitVec.getLsbD_or, BitVec.getLsbD_and, BitVec.getLsbD_and,
      BitVec.getLsbD_not, pageFrame_bit i hi, BitVec.getLsbD_ofNat,
      show 0x1000 * c = 2 ^ 12 * c from rfl, Nat.testBit_two_pow_mul]
    by_cases h : 12 ≤ i
    · simp [h, hi]
    · simp [h]
  rw [entryFrame, entryGetAttribute, hbits, BitVec.toNat_ofNat, Nat.mod_eq_of_lt hlt]

theorem entryFrame_lt (e : BitVec 32) : entryFrame e < 2 ^ 32 := BitVec.isLt _

theorem dvd_entryFrame (e : BitVec 32) : 0x1000 ∣ entryFrame e := by
  apply Nat.dvd_of_mod_eq_zero
  rw [show (0x1000 : ℕ) = 2 ^ 12 from rfl]
  apply Nat.eq_of_testBit_eq
  intro i
  rw [Nat.testBit_mod_two_pow, Nat.zero_testBit]
  by_cases h : i < 12
  · have hbit := pageFrame_bit i (by omega)
    have : (entryFrame e).testBit i = false := by
      show (e &&& pageStructPageFrame).getLsbD i = false
      rw [BitVec.getLsbD_and, hbit]
      simp
      omega
    rw [this, Bool.and_false]
  · simp [h]

/-- `PAGE_DIR_INDEX`. -/
def pageDirIndex (vaddr : ℕ) : ℕ := vaddr / 2 ^ 22 % 1024

/-- `PAGE_TABLE_INDEX`. -/
def pageTableIndex (vaddr : ℕ) : ℕ := vaddr / 2 ^ 12 % 1024

/-! ## The state -/

/-- `alloc_page` and `free_page` on the state `α` of a physical memory manager. -/
structure FrameAllocator (α : Type) where
  allocPage : α → ℕ × α
  freePage : ℕ → α → α

/-- The frames of `pmm.c`. -/
def pmmFrames : FrameAllocator Pmm where
  allocPage := Pmm.allocPage
  freePage page s := s.freePage page

/-- Where the kernel image puts the objects of the page tables. -/
structure KernelLayout where
  /-- The frame of `higher_half_page_table`. -/
  higherHalf : ℕ
  /-- `PAGE_TABLE_INDEX(curr_page_directory)`. -/
  directorySlot : ℕ

/-- `PAGE_TABLE_INDEX(0xC03FF000)`. -/
abbrev windowSlot : ℕ := 1023

/-- Physical memory and its manager. -/
structure Vmm (α : Type) where
  phys : PhysMemory
  alloc : α

namespace Vmm

section

variable {α : Type} (k : KernelLayout) (A : FrameAllocator α)

/-- The frame behind `curr_page_directory`. -/
def directory (s : Vmm α) : ℕ := entryFrame (s.phys k.higherHalf k.directorySlot)

/-- The frame behind `0xC03FF000`. -/
def window (s : Vmm α) : ℕ := entryFrame (s.phys k.higherHalf windowSlot)

/-- The directory entry of a virtual address. -/
def directoryEntry (s : Vmm α) (vaddr : ℕ) : BitVec 32 :=
  s.phys (s.directory k) (pageDirIndex vaddr)

/-- `*pdir_entry = entry`. -/
def setDirectoryEntry (s : Vmm α) (vaddr : ℕ) (entry : BitVec 32) : Vmm α :=
  { s with phys := s.phys.setWord (s.directory k) (pageDirIndex vaddr) entry }

/-- `ENTRY_SET_FRAME(*map_ptable_entry, frame)`: the window shows a frame. -/
def mapWindow (s : Vmm α) (frame : ℕ) : Vmm α :=
  let entry := entrySetFrame (s.phys k.higherHalf windowSlot) frame
  { s with phys := s.phys.setWord k.higherHalf windowSlot entry }

/-- `ptable->entries[i]`. -/
def windowEntry (s : Vmm α) (i : ℕ) : BitVec 32 := s.phys (s.window k) i

/-- `ptable->entries[i] = entry`. -/
def setWindowEntry (s : Vmm α) (i : ℕ) (entry : BitVec 32) : Vmm α :=
  { s with phys := s.phys.setWord (s.window k) i entry }

/-- The address that a page is mapped to, `0` where it is not mapped.
SRCLINE: vmm.c:28-50 -/
def virtToPhys (vaddr : ℕ) (s : Vmm α) : ℕ × Vmm α :=
  let pde := s.directoryEntry k vaddr
  if !entryPresent pde then (0, s)
  else
    let s := s.mapWindow k (entryFrame pde)
    let pte := s.windowEntry k (pageTableIndex vaddr)
    if !entryPresent pte then (0, s) else (entryFrame pte, s)

/-- The page table of an address is made or found, and shown by the window.
SRCLINE: vmm.c:81-103 -/
def openTable (vaddr : ℕ) (ring3 : Bool) (s : Vmm α) : Vmm α :=
  let s :=
    if ring3 then
      s.setDirectoryEntry k vaddr
        (entryAddAttribute (s.directoryEntry k vaddr) pageStructEntryUserAccess)
    else s
  if !entryPresent (s.directoryEntry k vaddr) then
    let page := A.allocPage s.alloc
    let s := { s with alloc := page.2 }
    let s := s.mapWindow k page.1
    let s := { s with phys := s.phys.clear (s.window k) }
    let pde := entryAddAttribute (s.directoryEntry k vaddr) pageStructEntryPresent
    let pde := entryAddAttribute pde pageStructEntryWriteable
    s.setDirectoryEntry k vaddr (entrySetFrame pde (s.window k))
  else s.mapWindow k (entryFrame (s.directoryEntry k vaddr))

/-- The entry that `vmm_map_page` makes of an old one.
SRCLINE: vmm.c:109-113 -/
def mapEntry (paddr : ℕ) (write ring3 : Bool) (pte : BitVec 32) : BitVec 32 :=
  let pte := entryAddAttribute pte pageStructEntryPresent
  let pte := if write then entryAddAttribute pte pageStructEntryWriteable else pte
  let pte := if ring3 then entryAddAttribute pte pageStructEntryUserAccess else pte
  entrySetFrame pte paddr

/-- SRCLINE: vmm.c:70-118 -/
def vmmMapPage (paddr vaddr : ℕ) (write ring3 : Bool) (s : Vmm α) : Vmm α :=
  let s := s.openTable k A vaddr ring3
  s.setWindowEntry k (pageTableIndex vaddr)
    (mapEntry paddr write ring3 (s.windowEntry k (pageTableIndex vaddr)))

/-- SRCLINE: vmm.c:120-149 -/
def vmmUnmapPage (vaddr : ℕ) (s : Vmm α) : Vmm α :=
  let s := s.mapWindow k (entryFrame (s.directoryEntry k vaddr))
  let s := s.setWindowEntry k (pageTableIndex vaddr)
    (entryDelAttribute (s.windowEntry k (pageTableIndex vaddr)) pageStructEntryPresent)
  if (List.range 1024).any fun i => entryPresent (s.windowEntry k i) then s
  else
    let s := { s with alloc := A.freePage (entryFrame (s.directoryEntry k vaddr)) s.alloc }
    s.setDirectoryEntry k vaddr
      (entryDelAttribute (s.directoryEntry k vaddr) pageStructEntryPresent)

/-- SRCLINE: vmm.c:156-163 -/
def vfreePage (vaddr : ℕ) (s : Vmm α) : Vmm α :=
  let paddr := s.virtToPhys k vaddr
  if paddr.1 ≠ 0 then
    vmmUnmapPage k A vaddr { paddr.2 with alloc := A.freePage paddr.1 paddr.2.alloc }
  else paddr.2

/-- `vmm_map_page(alloc_page(), vaddr, write, true)`.
SRCLINE: umm.c:43-46 -/
def mapFresh (vaddr : ℕ) (write : Bool) (s : Vmm α) : Vmm α :=
  let paddr := A.allocPage s.alloc
  vmmMapPage k A paddr.1 vaddr write true { s with alloc := paddr.2 }

/-- The operations that `umm.c` uses. -/
def pageOps : PageOps (Vmm α) where
  mapFresh := mapFresh k A
  vmmUnmapPage := vmmUnmapPage k A
  vfreePage := vfreePage k A

end

end Vmm

end LakeOS.Model
