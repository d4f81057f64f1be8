import LakeOS.Library.Word32

/-!
# User memory

`umm.c` keeps, for every process, a linked list of the blocks of its user memory, and
`sys.c` edits it on behalf of the process.  The list is a `List UmmBlock`: a node is
allocated where the source calls `kmalloc`, which is taken to succeed.  Following a
`NULL` link ends the run, with `none`.

The page tables are behind `PageOps`, the operations that `umm.c` uses.  The contents of
user pages are not modelled.
-/

set_option autoImplicit false

namespace LakeOS.Model

open LakeOS.Library

/-- `umm_block_t`.
SRCLINE: umm.h:39-45 -/
@[ext]
structure UmmBlock where
  start : ℕ
  len : ℕ
  prot : ℕ
  flags : ℕ
deriving DecidableEq, Repr

/-- `user_memory_start`. -/
abbrev userMemoryStart : ℕ := 0

/-- `user_memory_end`. -/
abbrev userMemoryEnd : ℕ := 0xC0000000

/-- `UMM_BLOCK_PROT_WRITE`. -/
abbrev ummBlockProtWrite : ℕ := 0x2

/-- `UMM_BLOCK_FLAG_GROWSDOWN`. -/
abbrev ummBlockFlagGrowsdown : ℕ := 0x100

/-- The operations on the current address space. -/
structure PageOps (σ : Type) where
  /-- `vmm_map_page(alloc_page(), vaddr, write, true)`. -/
  mapFresh : (vaddr : ℕ) → (write : Bool) → σ → σ
  /-- `vmm_unmap_page(vaddr)`. -/
  vmmUnmapPage : (vaddr : ℕ) → σ → σ
  /-- `vfree_page(vaddr)`. -/
  vfreePage : (vaddr : ℕ) → σ → σ

/-- The addresses of `for (i = lo; i < hi; i += 0x1000)`, where `lo` and `hi` are pages. -/
def pageRange (lo hi : ℕ) : List ℕ := List.range' lo ((hi - lo + 0xFFF) / 0x1000) 0x1000

/-- A flag of a flag word. -/
def hasFlag (flags flag : ℕ) : Bool := flags &&& flag != 0

section

variable {σ : Type} (pages : PageOps σ)

/-! ## Mapping -/

/-- The walk of `umap_pages` to the place of a new block, from a block on.
SRCLINE: umm.c:23-31 -/
def insertBehind (new : UmmBlock) : UmmBlock → List UmmBlock → List UmmBlock
  | block, [] => [block, new]
  | block, next :: rest =>
      if add32 next.start next.len ≤ new.start then block :: insertBehind new next rest
      else block :: new :: next :: rest

/-- The list with a new block.
SRCLINE: umm.c:22-40 -/
def insertBlock (new : UmmBlock) : List UmmBlock → List UmmBlock
  | [] => [new]
  | first :: rest =>
      if first.start < new.start then insertBehind new first rest
      else if new.start < first.start then new :: first :: rest
      else [new]

/-- The pages that `umap_pages` maps.
SRCLINE: umm.c:42-47 -/
def mapPages (vaddr len prot : ℕ) (s : σ) : σ :=
  (pageRange vaddr (add32 vaddr len)).foldl
    (fun s i => pages.mapFresh i (hasFlag prot ummBlockProtWrite) s) s

/-- SRCLINE: umm.c:13-48 -/
def umapPages (vaddr len prot flags : ℕ) (blocks : List UmmBlock) (s : σ) :
    List UmmBlock × σ :=
  (insertBlock ⟨vaddr, len, prot, flags⟩ blocks, mapPages pages vaddr len prot s)

/-- The gap that the loop of `ualloc_pages` stops at.
SRCLINE: umm.c:82-91 -/
def findGap (len : ℕ) : UmmBlock → List UmmBlock → Option ℕ
  | iter, [] =>
      if len ≤ sub32 userMemoryEnd (add32 iter.start iter.len) then
        some (add32 iter.start iter.len)
      else none
  | iter, next :: rest =>
      if len ≤ sub32 next.start (add32 iter.start iter.len) then
        some (add32 iter.start iter.len)
      else findGap len next rest

/-- `first_fit_start`, or `none` where `ualloc_pages` returns `NULL`.
SRCLINE: umm.c:71-92 -/
def firstFitStart (len : ℕ) : List UmmBlock → Option ℕ
  | [] => some userMemoryStart
  | iter :: rest =>
      if len ≤ sub32 iter.start userMemoryStart then some userMemoryStart
      else findGap len iter rest

/-- The address returned, the list and the pages.
SRCLINE: umm.c:68-96 -/
def uallocPages (len prot flags : ℕ) (blocks : List UmmBlock) (s : σ) :
    ℕ × List UmmBlock × σ :=
  match firstFitStart len blocks with
  | none => (0, blocks, s)
  | some start => (start, umapPages pages start len prot flags blocks s)

/-! ## Unmapping -/

/-- The loop of `umm_unmap_pages`, at the block `iter`.  Behind a block that was removed
the loop goes on at the block that followed it.
SRCLINE: umm.c:51-65 -/
def ummUnmapPagesLoop (vaddr : ℕ) : UmmBlock → List UmmBlock → σ → Option (List UmmBlock × σ)
  | iter, [], s => some ([iter], s)
  | iter, next :: rest, s =>
      if next.start = vaddr then
        let s := (pageRange vaddr (add32 vaddr next.len)).foldl
          (fun s i => pages.vmmUnmapPage i s) s
        match rest with
        | [] => none
        | next' :: rest' =>
            (ummUnmapPagesLoop vaddr next' rest' s).map fun r => (iter :: r.1, r.2)
      else (ummUnmapPagesLoop vaddr next rest s).map fun r => (iter :: r.1, r.2)

/-- SRCLINE: umm.c:50-66 -/
def ummUnmapPages (vaddr : ℕ) : List UmmBlock → σ → Option (List UmmBlock × σ)
  | [], _ => none
  | first :: rest, s => ummUnmapPagesLoop pages vaddr first rest s

/-- The list from `prev->next` on at the label `finished`, where `before` are the nodes
between `prev` and `iter`: an empty block leaves the list, and `before` with it.
SRCLINE: umm.c:201-206 -/
def dropEmpty (before : List UmmBlock) (iter : UmmBlock) (rest : List UmmBlock) :
    List UmmBlock :=
  if iter.len = 0 then rest else before ++ iter :: rest

/-- `umm_split_block`: a new node keeps the lower part of the block.  It is linked behind
`prev`, which is `NULL` at the first block.
SRCLINE: umm.c:154-176 -/
def ummSplitBlock (first : Bool) (block : UmmBlock) (startSplit endSplit : ℕ) (s : σ) :
    Option (UmmBlock × UmmBlock × σ) :=
  let s := (pageRange startSplit endSplit).foldl (fun s addr => pages.vfreePage addr s) s
  let newBlock := { block with len := sub32 startSplit block.start }
  let block := { block with
    start := endSplit
    len := sub32 block.len (sub32 endSplit block.start) }
  if first then none else some (newBlock, block, s)

/-- The loop of `umm_unmap_page`; `first` says that `prev` is `NULL`.
SRCLINE: umm.c:179-208 -/
def ummUnmapPageLoop (page : ℕ) (first : Bool) : List UmmBlock → σ → Option (List UmmBlock × σ)
  | [], s => some ([], s)
  | iter :: rest, s =>
      let last := sub32 (add32 iter.start iter.len) 0x1000
      if iter.start = page then
        let iter := { iter with
          start := add32 iter.start 0x1000
          len := sub32 iter.len 0x1000 }
        some (dropEmpty [] iter rest, pages.vfreePage page s)
      else if iter.start < page ∧ page < last then
        (ummSplitBlock pages first iter page (add32 page 0x1000) s).map
          fun r => (dropEmpty [r.1] r.2.1 rest, pages.vfreePage page r.2.2)
      else if page = last then
        some (dropEmpty [] { iter with len := sub32 iter.len 0x1000 } rest,
          pages.vfreePage page s)
      else (ummUnmapPageLoop page false rest s).map fun r => (iter :: r.1, r.2)

/-- SRCLINE: umm.c:178-209 -/
def ummUnmapPage (page : ℕ) (blocks : List UmmBlock) (s : σ) : Option (List UmmBlock × σ) :=
  ummUnmapPageLoop pages page true blocks s

/-- SRCLINE: umm.c:211-214 -/
def ummUnmapRange (vaddr len : ℕ) (blocks : List UmmBlock) (s : σ) :
    Option (List UmmBlock × σ) :=
  (pageRange vaddr (add32 vaddr len)).foldlM
    (fun r addr => ummUnmapPage pages addr r.1 r.2) (blocks, s)

end

end LakeOS.Model
