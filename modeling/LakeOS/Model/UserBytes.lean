import Mathlib.Logic.Function.Basic
import LakeOS.Library.Store
import LakeOS.Model.Mmap

/-!
# The bytes of user memory

What `sys_mmap`, the page fault handler of `umm.c` and the ELF loader store in the pages
of the running process.  The bytes of the frames are a `Ram`, next to the state `σ` of
the page tables and of the physical memory manager: the words of a page table are in
`σ`, and the functions of `vmm.c` clear them before they are used.  A store goes to the
frame behind its address, and one to a page that is not mapped does not return.
-/

set_option autoImplicit false

namespace LakeOS.Model

open LakeOS.Library

/-- The bytes of physical memory, by frame and offset. -/
abbrev Ram := ℕ × ℕ → Byte

/-- The current address space, and what its translation is. -/
structure AddressSpace (σ : Type) extends PageOps σ where
  /-- The frame of a page, by the number of the page. -/
  translate : σ → ℕ → Option ℕ
  /-- The block of the frame is marked free. -/
  isFree : σ → ℕ → Prop

/-- The open files, and what `sys_read` stores. -/
structure FileBytes (φ : Type) extends FileOps φ where
  data : (fd len : ℕ) → φ → List Byte

/-- The running process: its blocks, its address space, its files and the memory. -/
structure UserImage (σ φ : Type) where
  user : UserState σ φ
  ram : Ram

section

variable (translate : ℕ → Option ℕ)

/-- Bytes are stored from an address on. -/
def storeBytes : ℕ → List Byte → Ram → Option Ram
  | _, [], ram => some ram
  | dst, b :: bytes, ram =>
      match translate (dst / 0x1000) with
      | none => none
      | some frame => storeBytes (add32 dst 1) bytes
          (Function.update ram (frame, dst % 0x1000) b)

/-- `memset`. -/
def memset (dst : ℕ) (value : Byte) (size : ℕ) (ram : Ram) : Option Ram :=
  storeBytes translate dst (List.replicate size value) ram

end

section

variable {σ φ : Type} (space : AddressSpace σ) (files : FileBytes φ)

/-! ## `sys_mmap` -/

/-- The pages that `sys_mmap` maps.
SRCLINE: sys.c:117-122 -/
def mmapMapped (addr length prot flags : ℕ) (u : UserState σ φ) : ℕ × List UmmBlock × σ :=
  if hasFlag flags syscallMmapFlagFixed then
    (addr, umapPages space.toPageOps addr (roundLength length) prot flags u.blocks u.paging)
  else uallocPages space.toPageOps (roundLength length) prot flags u.blocks u.paging

/-- What is stored in them.
SRCLINE: sys.c:124-138 -/
def mmapStore (t : ℕ → Option ℕ) (res length flags fd offset : ℕ) (f : φ) (ram : Ram) :
    Option Ram :=
  if res = 0 then some ram
  else if hasFlag flags syscallMmapFlagAnonymous then
    memset t res 0 (roundLength length) ram
  else
    let cur := files.sysLseek fd 0 syscallLseekCur f
    let seek := files.sysLseek fd offset syscallLseekSet cur.2
    if seek.1 ≠ offset then some ram
    else
      let bytesRead := (files.sysRead fd length seek.2).1
      (storeBytes t res (files.data fd length seek.2) ram).bind
        (memset t (add32 res bytesRead) 0 (sub32 length bytesRead))

/-- `sys_mmap`, with the memory.
SRCLINE: sys.c:106-148 -/
def sysMmapImage (addr length prot flags fd offset : ℕ) (i : UserImage σ φ) :
    Option (ℕ × UserImage σ φ) :=
  (sysMmap space.toPageOps files.toFileOps addr length prot flags fd offset i.user).bind fun r =>
    if addr % 0x1000 ≠ 0 then some (r.1, ⟨r.2, i.ram⟩)
    else
      let mapped := mmapMapped space addr length prot flags i.user
      (mmapStore files (space.translate mapped.2.2) mapped.1 length flags fd offset
        i.user.files i.ram).map fun ram => (r.1, ⟨r.2, ram⟩)

/-! ## The page fault handler -/

/-- A block that has grown by a page. -/
def growBlock (block : UmmBlock) : UmmBlock :=
  { block with start := sub32 block.start 0x1000, len := add32 block.len 0x1000 }

/-- The difference of two pointers, a signed number, is two pages or more. -/
def roomToGrow (fromEnd start : ℕ) : Bool :=
  decide (0x2000 ≤ sub32 start fromEnd) && decide (sub32 start fromEnd < 2 ^ 31)

/-- The loop of the handler from a block on: the blocks before, the one that has grown
and those behind.
SRCLINE: umm.c:121-148 -/
def growBehind (faultAddr : ℕ) : UmmBlock → List UmmBlock → Option (UmmBlock × List UmmBlock)
  | _, [] => none
  | iter, next :: rest =>
      if add32 iter.start iter.len ≤ faultAddr ∧ faultAddr < next.start then
        if roomToGrow (add32 iter.start iter.len) next.start ∧
            hasFlag next.flags ummBlockFlagGrowsdown then
          some (growBlock next, iter :: growBlock next :: rest)
        else none
      else (growBehind faultAddr next rest).map fun r => (r.1, iter :: r.2)

/-- The block that grows and the list afterwards; `none` where the handler does not
return.
SRCLINE: umm.c:98-148 -/
def growDown (faultAddr : ℕ) : List UmmBlock → Option (UmmBlock × List UmmBlock)
  | [] => none
  | first :: rest =>
      if faultAddr < first.start then
        if roomToGrow userMemoryStart first.start ∧ hasFlag first.flags ummBlockFlagGrowsdown then
          some (growBlock first, growBlock first :: rest)
        else none
      else growBehind faultAddr first rest

/-- SRCLINE: umm.c:98-152 -/
def ummPageFltHandler (faultAddr : ℕ) (u : UserState σ φ) : Option (UserState σ φ) :=
  (growDown faultAddr u.blocks).map fun r =>
    { u with
      blocks := r.2
      paging := space.mapFresh r.1.start (hasFlag r.1.prot ummBlockProtWrite) u.paging }

/-! ## The ELF loader -/

/-- `ELF32_TYPE_EXEC`. -/
abbrev elf32TypeExec : ℕ := 2

/-- `ELF32_P_HEADER_TYPE_LOADABLE_SEG`. -/
abbrev elf32PHeaderTypeLoadableSeg : ℕ := 1

/-- `elf32_p_header_t`, as far as the loader reads it.
SRCLINE: elf.h:296-313 -/
structure ElfPHeader where
  type : ℕ
  offset : ℕ
  vaddr : ℕ
  fileSize : ℕ
  memSize : ℕ

/-- The image: the type, the program headers and the bytes from the header on. -/
structure ElfImage where
  type : ℕ
  pHeaders : List ElfPHeader
  byte : ℕ → Byte

/-- `page_begin`. -/
def ElfPHeader.pageBegin (p : ElfPHeader) : ℕ := p.vaddr - p.vaddr % 0x1000

/-- `file_end`. -/
def ElfPHeader.fileEnd (p : ElfPHeader) : ℕ := add32 p.vaddr p.fileSize

/-- `mem_end`. -/
def ElfPHeader.memEnd (p : ElfPHeader) : ℕ := add32 p.pageBegin p.memSize

/-- `bss_end`. -/
def ElfPHeader.bssEnd (p : ElfPHeader) : ℕ := add32 p.memEnd 0xFFF / 0x1000 * 0x1000

/-- `UMM_BLOCK_PROT_EXEC | UMM_BLOCK_PROT_READ | UMM_BLOCK_PROT_WRITE`. -/
abbrev elfProt : ℕ := 0x7

/-- `UMM_BLOCK_FLAG_PRIVATE | UMM_BLOCK_FLAG_ANONYMOUS | UMM_BLOCK_FLAG_FIXED`. -/
abbrev elfFlags : ℕ := 0x32

/-- The bytes that a segment has in the file. -/
def ElfPHeader.fileBytes (byte : ℕ → Byte) (p : ElfPHeader) : List Byte :=
  (List.range p.fileSize).map fun j => byte (p.offset + j)

/-- The stores of a segment: its bytes, and zeros behind them.
SRCLINE: elf.c:91-97 -/
def storeSegment (t : ℕ → Option ℕ) (byte : ℕ → Byte) (p : ElfPHeader) (ram : Ram) : Option Ram :=
  (storeBytes t p.vaddr (p.fileBytes byte) ram).bind
    (memset t p.fileEnd 0 (sub32 p.bssEnd p.fileEnd))

/-- The pages of a segment are mapped.
SRCLINE: elf.c:76-89 -/
def mapSegment (p : ElfPHeader) (u : UserState σ φ) : UserState σ φ :=
  let mapped := umapPages space.toPageOps p.pageBegin (sub32 p.bssEnd p.pageBegin) elfProt
    elfFlags u.blocks u.paging
  { u with blocks := mapped.1, paging := mapped.2 }

/-- One round of the loop.
SRCLINE: elf.c:71-99 -/
def elfLoadSegment (byte : ℕ → Byte) (p : ElfPHeader) (i : UserImage σ φ) :
    Option (UserImage σ φ) :=
  if p.type = elf32PHeaderTypeLoadableSeg then
    let user := mapSegment space p i.user
    (storeSegment (space.translate user.paging) byte p i.ram).map fun ram => ⟨user, ram⟩
  else some i

/-- The loop over the program headers. -/
def elfLoadLoop (byte : ℕ → Byte) : List ElfPHeader → UserImage σ φ → Option (UserImage σ φ)
  | [], i => some i
  | p :: headers, i => (elfLoadSegment space byte p i).bind (elfLoadLoop byte headers)

/-- SRCLINE: elf.c:67-100 -/
def elfLoadSegments (image : ElfImage) (i : UserImage σ φ) : Option (UserImage σ φ) :=
  if image.type ≠ elf32TypeExec then some i else elfLoadLoop space image.byte image.pHeaders i

end

end LakeOS.Model
