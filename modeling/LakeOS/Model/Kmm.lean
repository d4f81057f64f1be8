import LakeOS.Library.Store
import LakeOS.Library.Word32

/-!
# The kernel heap

`kmm.c` threads a circular doubly linked list of free blocks through the heap itself:
the first three words of a free block are its size and the addresses of its
neighbours, the first word of an allocated block is its size.  `freelist` is a static
pointer to `HEAP_START` that no function assigns.

Memory is a store of bytes, so blocks may sit at any address and a client can write any
byte.  Loops over the list carry fuel: a list of disjoint blocks has fewer than
`HEAP_SIZE` of them, and an answer `none` means that more steps were needed.
-/

set_option autoImplicit false

namespace LakeOS.Model

open LakeOS.Library

/-- The memory of the machine. -/
abbrev Memory := Store Byte

/-- `HEAP_START`. -/
abbrev heapStart : ℕ := 0xD0000000

/-- `HEAP_SIZE`. -/
abbrev heapSize : ℕ := 0x10000000

/-- `sizeof(size_t)`. -/
abbrev sizeofSizeT : ℕ := 4

/-- `sizeof(t_FreeBlock)`. -/
abbrev sizeofFreeBlock : ℕ := 12

/-! ## The fields of a `t_FreeBlock` (kmm.h:22-26) -/

def blockSize (m : Memory) (p : ℕ) : ℕ := m.load 4 p

def blockNext (m : Memory) (p : ℕ) : ℕ := m.load 4 (p + 4)

def blockPrev (m : Memory) (p : ℕ) : ℕ := m.load 4 (p + 8)

def setSize (m : Memory) (p v : ℕ) : Memory := m.save 4 p v

def setNext (m : Memory) (p v : ℕ) : Memory := m.save 4 (p + 4) v

def setPrev (m : Memory) (p v : ℕ) : Memory := m.save 4 (p + 8) v

/-! A field of a node is changed by its own assignment and by no assignment to another
field, or to a node at least `sizeof(t_FreeBlock)` away. -/

/-- Two nodes are the same or do not overlap. -/
def NodesApart (p q : ℕ) : Prop :=
  p = q ∨ p + sizeofFreeBlock ≤ q ∨ q + sizeofFreeBlock ≤ p

theorem NodesApart.refl (p : ℕ) : NodesApart p p := .inl rfl

theorem NodesApart.symm {p q : ℕ} (h : NodesApart p q) : NodesApart q p := by
  unfold NodesApart at *
  omega

section Fields

variable (m : Memory) {p q v : ℕ}

theorem load_save_field (i j : ℕ) (h : NodesApart p q) (hv : v < 2 ^ 32)
    (hi : i = 0 ∨ i = 4 ∨ i = 8) (hj : j = 0 ∨ j = 4 ∨ j = 8) :
    (m.save 4 (p + i) v).load 4 (q + j) = if q = p ∧ i = j then v else m.load 4 (q + j) := by
  unfold NodesApart sizeofFreeBlock at h
  split
  next heq =>
    rw [heq.1, heq.2, Store.load_save_self, show 256 ^ 4 = 2 ^ 32 from rfl, Nat.mod_eq_of_lt hv]
  next hne =>
    exact Store.load_save_disjoint m (by omega)

theorem blockSize_setSize (h : NodesApart p q) (hv : v < 2 ^ 32) :
    blockSize (setSize m p v) q = if q = p then v else blockSize m q := by
  simpa [blockSize, setSize] using load_save_field m 0 0 h hv (.inl rfl) (.inl rfl)

theorem blockSize_setNext (h : NodesApart p q) (hv : v < 2 ^ 32) :
    blockSize (setNext m p v) q = blockSize m q := by
  simpa [blockSize, setNext] using load_save_field m 4 0 h hv (.inr (.inl rfl)) (.inl rfl)

theorem blockSize_setPrev (h : NodesApart p q) (hv : v < 2 ^ 32) :
    blockSize (setPrev m p v) q = blockSize m q := by
  simpa [blockSize, setPrev] using load_save_field m 8 0 h hv (.inr (.inr rfl)) (.inl rfl)

theorem blockNext_setSize (h : NodesApart p q) (hv : v < 2 ^ 32) :
    blockNext (setSize m p v) q = blockNext m q := by
  simpa [blockNext, setSize] using load_save_field m 0 4 h hv (.inl rfl) (.inr (.inl rfl))

theorem blockNext_setNext (h : NodesApart p q) (hv : v < 2 ^ 32) :
    blockNext (setNext m p v) q = if q = p then v else blockNext m q := by
  simpa [blockNext, setNext] using load_save_field m 4 4 h hv (.inr (.inl rfl)) (.inr (.inl rfl))

theorem blockNext_setPrev (h : NodesApart p q) (hv : v < 2 ^ 32) :
    blockNext (setPrev m p v) q = blockNext m q := by
  simpa [blockNext, setPrev] using load_save_field m 8 4 h hv (.inr (.inr rfl)) (.inr (.inl rfl))

theorem blockPrev_setSize (h : NodesApart p q) (hv : v < 2 ^ 32) :
    blockPrev (setSize m p v) q = blockPrev m q := by
  simpa [blockPrev, setSize] using load_save_field m 0 8 h hv (.inl rfl) (.inr (.inr rfl))

theorem blockPrev_setNext (h : NodesApart p q) (hv : v < 2 ^ 32) :
    blockPrev (setNext m p v) q = blockPrev m q := by
  simpa [blockPrev, setNext] using load_save_field m 4 8 h hv (.inr (.inl rfl)) (.inr (.inr rfl))

theorem blockPrev_setPrev (h : NodesApart p q) (hv : v < 2 ^ 32) :
    blockPrev (setPrev m p v) q = if q = p then v else blockPrev m q := by
  simpa [blockPrev, setPrev] using load_save_field m 8 8 h hv (.inr (.inr rfl)) (.inr (.inr rfl))

theorem blockNext_lt (p : ℕ) : blockNext m p < 2 ^ 32 := Store.load_lt m 4 (p + 4)

theorem blockSize_lt (p : ℕ) : blockSize m p < 2 ^ 32 := Store.load_lt m 4 p

theorem setNext_setPrev_comm {w : ℕ} (h : NodesApart p q) :
    setNext (setPrev m q w) p v = setPrev (setNext m p v) q w := by
  unfold NodesApart sizeofFreeBlock at h
  exact Store.save_comm m (by omega)

/-- An assignment to a field stays inside its node. -/
theorem save_field_of_notMem {i x : ℕ} (hi : i + 4 ≤ sizeofFreeBlock)
    (hx : x < p ∨ p + sizeofFreeBlock ≤ x) : m.save 4 (p + i) v x = m x :=
  Store.save_of_notMem m (by omega)

theorem setSize_of_notMem {x : ℕ} (hx : x < p ∨ p + sizeofFreeBlock ≤ x) :
    setSize m p v x = m x :=
  save_field_of_notMem m (i := 0) (by decide) hx

theorem setNext_of_notMem {x : ℕ} (hx : x < p ∨ p + sizeofFreeBlock ≤ x) :
    setNext m p v x = m x :=
  save_field_of_notMem m (i := 4) (by decide) hx

theorem setPrev_of_notMem {x : ℕ} (hx : x < p ∨ p + sizeofFreeBlock ≤ x) :
    setPrev m p v x = m x :=
  save_field_of_notMem m (i := 8) (by decide) hx

end Fields

/-- `KMM_init`.
SRCLINE: kmm.c:6-12 -/
def kmmInit (m : Memory) : Memory :=
  setSize (setPrev (setNext m heapStart heapStart) heapStart heapStart) heapStart heapSize

/-! One free block, which is its own neighbour. -/

theorem kmmInit_next (m : Memory) : blockNext (kmmInit m) heapStart = heapStart := by
  have hself := NodesApart.refl heapStart
  unfold kmmInit
  rw [blockNext_setSize _ hself (by decide), blockNext_setPrev _ hself (by decide),
    blockNext_setNext _ hself (by decide), if_pos rfl]

theorem kmmInit_prev (m : Memory) : blockPrev (kmmInit m) heapStart = heapStart := by
  have hself := NodesApart.refl heapStart
  unfold kmmInit
  rw [blockPrev_setSize _ hself (by decide), blockPrev_setPrev _ hself (by decide), if_pos rfl]

theorem kmmInit_size (m : Memory) : blockSize (kmmInit m) heapStart = heapSize := by
  unfold kmmInit
  rw [blockSize_setSize _ (NodesApart.refl heapStart) (by decide), if_pos rfl]

/-- The bytes a request takes from a free block: its header is added and the result is
at least a `t_FreeBlock`.
SRCLINE: kmm.c:95-99 -/
def allocBytes (bytes : ℕ) : ℕ :=
  if add32 bytes sizeofSizeT < sizeofFreeBlock then sizeofFreeBlock else add32 bytes sizeofSizeT

/-- A block with room for a node after the allocation: the tail is carved off.
SRCLINE: kmm.c:104-110 -/
def carveTail (m : Memory) (iter bytes : ℕ) : ℕ × Memory :=
  let m := setSize m iter (sub32 (blockSize m iter) bytes)
  let ret := add32 iter (blockSize m iter)
  (add32 ret sizeofSizeT, m.save 4 ret bytes)

/-- A block leaves the list: `iter->prev->next = iter->next; iter->next->prev = iter->prev`. -/
def unlinkBlock (m : Memory) (iter : ℕ) : Memory :=
  let m := setNext m (blockPrev m iter) (blockNext m iter)
  setPrev m (blockNext m iter) (blockPrev m iter)

/-- A block without that room: it leaves the list.
SRCLINE: kmm.c:112-118 -/
def takeWhole (m : Memory) (iter bytes : ℕ) : ℕ × Memory :=
  (add32 iter sizeofSizeT, (unlinkBlock m iter).save 4 iter bytes)

/-- The `do ... while` of `find_first_fit`.
SRCLINE: kmm.c:101-121 -/
def findFirstFitLoop (m : Memory) (bytes stop : ℕ) : ℕ → ℕ → Option (ℕ × Memory)
  | 0, _ => none
  | fuel + 1, iter =>
      if add32 bytes sizeofFreeBlock ≤ blockSize m iter then some (carveTail m iter bytes)
      else if bytes ≤ blockSize m iter then some (takeWhole m iter bytes)
      else if blockNext m iter = stop then some (0, m)
      else findFirstFitLoop m bytes stop fuel (blockNext m iter)

/-- SRCLINE: kmm.c:89-124 -/
def findFirstFit (m : Memory) (bytes : ℕ) : Option (ℕ × Memory) :=
  let iter := blockNext m heapStart
  findFirstFitLoop m (allocBytes bytes) iter heapSize iter

/-- `kmalloc`: the pointer returned and the memory afterwards.
SRCLINE: kmm.c:14-18 -/
def kmalloc (m : Memory) (bytes : ℕ) : Option (ℕ × Memory) := findFirstFit m bytes

/-- The search for the insertion point in `kfree`.  The list is walked upwards and
below `fblock`, so `fblock` steps always suffice.
SRCLINE: kmm.c:68-70 -/
def kfreeSeek (m : Memory) (fblock : ℕ) : ℕ → ℕ → ℕ
  | 0, iter => iter
  | fuel + 1, iter =>
      if blockNext m iter < fblock ∧ iter < blockNext m iter then
        kfreeSeek m fblock fuel (blockNext m iter)
      else iter

/-- SRCLINE: kmm.c:126-149 -/
def coalesceNeighbors (m : Memory) (block : ℕ) : Memory :=
  let prev := blockPrev m block
  let next := blockNext m block
  if blockNext m block = block ∨ blockPrev m block = block then m
  else if add32 block (blockSize m block) = next then
    let m := setPrev m (blockNext m next) block
    let m := setNext m block (blockNext m next)
    setSize m block (add32 (blockSize m block) (blockSize m next))
  else if add32 prev (blockSize m prev) = block then
    let m := setNext m prev next
    let m := setPrev m next prev
    setSize m prev (add32 (blockSize m prev) (blockSize m block))
  else m

/-- A block enters the list behind `iter`.
SRCLINE: kmm.c:72-78 -/
def linkBlock (m : Memory) (iter fblock : ℕ) : Memory :=
  let next := blockNext m iter
  let m := setPrev m next fblock
  let m := setNext m iter fblock
  let m := setNext m fblock next
  setPrev m fblock iter

/-- SRCLINE: kmm.c:60-81 -/
def kfree (m : Memory) (p : ℕ) : Memory :=
  let fblock := sub32 p sizeofSizeT
  let iter :=
    if heapStart ≠ blockNext m heapStart then kfreeSeek m fblock fblock heapStart else heapStart
  coalesceNeighbors (linkBlock m iter fblock) fblock

/-! ## Larger blocks

A list and blocks that lie in the heap are never left by the functions above.  `krealloc`
copies a word more than it should in two places, and behind the heap no page is mapped:
the page fault handler maps the pages of the heap and halts for an address above. -/

/-- The `n` bytes at `p` are not behind the heap.
SRCLINE: vmm.c:203-215 -/
abbrev BeforeHeapEnd (p n : ℕ) : Prop := p + n ≤ heapStart + heapSize

/-- SRCLINE: kmm.c:83-87 -/
def ksize (m : Memory) (p : ℕ) : ℕ :=
  if p = 0 then 0 else m.load 4 (sub32 p sizeofSizeT)

/-- `memmove` of a node.  Upwards it starts behind the last word of the node.
SRCLINE: memmove.c:4-46 -/
def memmoveNode (m : Memory) (dst src : ℕ) : Memory :=
  let copyWord (m : Memory) (i : ℕ) := m.save 4 (dst + i) (m.load 4 (src + i))
  if dst < src then [0, 4, 8].foldl copyWord m else [12, 8, 4].foldl copyWord m

/-- The copy of the node of `iter` stays in front of the end of the heap, if there is one:
`memmove` starts with the word behind it.
SRCLINE: kmm.c:28-33 -/
def MovesInHeap (m : Memory) (allocSz newSz iter : ℕ) : Prop :=
  let offset := sub32 newSz allocSz
  sizeofFreeBlock ≤ sub32 (blockSize m iter) offset →
    BeforeHeapEnd (add32 iter offset) (sizeofFreeBlock + 4)

instance (m : Memory) (allocSz newSz iter : ℕ) : Decidable (MovesInHeap m allocSz newSz iter) :=
  inferInstanceAs (Decidable (_ → _))

/-- The block at `p` grows into the free block `iter` behind it.
SRCLINE: kmm.c:28-41 -/
def growInto (m : Memory) (p allocSz newSz iter : ℕ) : Memory :=
  let offset := sub32 newSz allocSz
  let remainder := sub32 (blockSize m iter) offset
  if sizeofFreeBlock ≤ remainder then
    let moved := add32 iter offset
    let m := setSize (memmoveNode m moved iter) moved remainder
    let m := setNext m (blockPrev m moved) moved
    let m := setPrev m (blockNext m moved) moved
    m.save 4 (sub32 p sizeofSizeT) newSz
  else
    let m := unlinkBlock m iter
    m.save 4 (sub32 p sizeofSizeT) (add32 allocSz (blockSize m iter))

/-- The `do ... while` of `krealloc`: the memory if the block could grow.  The answer is
`none` as well when the copy of the node does not return.
SRCLINE: kmm.c:25-45 -/
def kreallocLoop (m : Memory) (p allocSz newSz : ℕ) : ℕ → ℕ → Option (Option Memory)
  | 0, _ => none
  | fuel + 1, iter =>
      if iter = add32 (sub32 p sizeofSizeT) allocSz ∧ sub32 newSz allocSz ≤ blockSize m iter then
        if MovesInHeap m allocSz newSz iter then some (some (growInto m p allocSz newSz iter))
        else none
      else if blockNext m iter = heapStart then some none
      else kreallocLoop m p allocSz newSz fuel (blockNext m iter)

/-- `memcpy` takes as many bytes from the payload as the block has with its header.
SRCLINE: kmm.c:19-52 -/
def krealloc (m : Memory) (p newSz : ℕ) : Option (ℕ × Memory) :=
  if p = 0 then kmalloc m newSz
  else
    let allocSz := m.load 4 (sub32 p sizeofSizeT)
    if newSz ≤ allocSz then some (p, m)
    else
      match kreallocLoop m p allocSz newSz heapSize heapStart with
      | none => none
      | some (some m) => some (p, m)
      | some none =>
          (kmalloc m newSz).bind fun new =>
            if BeforeHeapEnd p allocSz ∧ BeforeHeapEnd new.1 allocSz then
              some (new.1, kfree (new.2.write new.1 (new.2.read p allocSz)) p)
            else none

/-- SRCLINE: kmm.c:54-58 -/
def kexpand (m : Memory) (p increment : ℕ) : Option (ℕ × Memory) :=
  if p = 0 then kmalloc m increment
  else krealloc m p (add32 (m.load 4 (sub32 p sizeofSizeT)) increment)

end LakeOS.Model
