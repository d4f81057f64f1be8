import LakeOS.Analysis.HeapRuns

/-!
# The kernel heap as a partition

After every step the free blocks and the allocated blocks should cut the heap into
disjoint pieces that fill it.  `find_first_fit` keeps this in its first branch, which
carves an allocation off the end of a free block.  Its second branch hands a block out
whole and stores the size that was asked for as the size of the block: of a wider block
the rest is lost.  It also hands out the head of the list, which `freelist` still points
to.

The partition holds in every run in which no allocation takes the head or takes a wider
block whole (`heap_partition`).
-/

set_option autoImplicit false

namespace LakeOS.Analysis

open LakeOS.Library LakeOS.Model

/-- The free blocks and the allocated ones, headers included, are disjoint, lie in the
heap and fill it. -/
def HeapPartitioned (s : HeapState) : Prop :=
  ∃ fl, freeList s.mem = some fl ∧
    Extent.Packed heapStart (heapStart + heapSize) (fl ++ s.live.map (liveBlock s.mem)) ∧
    Extent.total (fl ++ s.live.map (liveBlock s.mem)) = heapSize

/-- A block that the step hands out whole has exactly the size asked for. -/
def ExactFit (s : HeapState) : HeapOp → Prop
  | .kmalloc n => ∀ fl b, freeList s.mem = some fl → WholeFit fl (allocBytes n) b →
      b.len = allocBytes n
  | _ => True

variable {m : Memory} {s : HeapState} {fl live fl' live' : List Extent} {op : HeapOp}

theorem map_liveBlock (h : HeapHolds s fl live) : s.live.map (liveBlock s.mem) = live := by
  rw [h.1, List.map_map]
  refine List.map_congr_left (fun e he => ?_) |>.trans (List.map_id live)
  exact liveBlock_eq h.2 he

/-- INTERNAL: a step that loses nothing keeps the number of bytes. -/
theorem HeapChange.total (h : HeapChange fl live op fl' live') (hholds : HeapHolds s fl live)
    (hexact : ExactFit s op) : Extent.total (fl' ++ live') = Extent.total (fl ++ live) := by
  cases h with
  | none => rfl
  | taken htaken =>
      have := htaken.total fun b => hexact fl b hholds.2.free.freeList_eq
      simp only [Extent.total_append, Extent.total_cons]
      omega
  | freed hfl hlive =>
      simp only [hfl, hlive, Extent.total_append, Extent.total_cons, total_coalesced]
      omega

/-- **The heap is partitioned** after every step of every run in which no allocation takes
the head of the free list or takes a wider block whole, and `kmalloc` terminates there.
SRCLINE: kmm.c:6-149 -/
theorem heap_partition
    (hrun : HeapRun (fun s op => HeadKept s op ∧ ExactFit s op) m s) :
    HeapPartitioned s ∧ ∀ n ≤ heapSize, ∃ r, kmalloc s.mem n = some r := by
  obtain ⟨fl, live, hholds, htotal⟩ := hrun.invariant
    (P := fun fl live => Extent.total (fl ++ live) = heapSize)
    (fun _ _ h => h.1) rfl fun _ _ _ _ _ _ hholds hallowed hchange htotal =>
      (hchange.total hholds hallowed.2).trans htotal
  constructor
  · refine ⟨fl, hholds.2.free.freeList_eq, ?_, ?_⟩
    · rw [map_liveBlock hholds]
      exact hholds.2.packed
    · rw [map_liveBlock hholds]
      exact htotal
  · intro n hn
    exact ⟨_, kmalloc_eq hholds.2.free (allocBytes_bounds hn).2⟩

/-- Memory after `KMM_init` on zeroed memory. -/
def zeroHeap : Memory := kmmInit fun _ => 0

/-- Memory after the allocation of 8 bytes from there. -/
def eightHeap : Memory := (carveTail zeroHeap heapStart 12).2

theorem kmalloc_eight : HeapStep ⟨zeroHeap, []⟩ (.kmalloc 8) ⟨eightHeap, [0xDFFFFFF8]⟩ := by
  have hptr : (carveTail zeroHeap heapStart 12).1 = 0xDFFFFFF8 := by decide +kernel
  have hfirst : firstFit [⟨heapStart, heapSize⟩] (allocBytes 8) = some ⟨heapStart, heapSize⟩ := by
    decide
  have hrun : kmalloc zeroHeap 8 = some (0xDFFFFFF8, eightHeap) := by
    rw [zeroHeap, kmalloc_eq (HeapRep.init _).free (by decide), hfirst, ← hptr]
    rfl
  exact .kmalloc (by decide) hrun (by decide)

/-- The single block after `KMM_init` is not handed out whole for 8 bytes. -/
theorem not_wholeFit_eight {b : Extent} (hfl : freeList zeroHeap = some fl) :
    ¬ WholeFit fl (allocBytes 8) b := by
  intro hwhole
  obtain rfl : [⟨heapStart, heapSize⟩] = fl :=
    Option.some.inj ((HeapRep.init fun _ => 0).free.freeList_eq.symm.trans hfl)
  obtain rfl : ⟨heapStart, heapSize⟩ = b := Option.some.inj hwhole.1
  exact absurd hwhole.2 (by decide)

/-- Eight bytes are allocated and freed again. -/
theorem heap_partition_eight :
    HeapPartitioned ⟨kfree eightHeap 0xDFFFFFF8, []⟩ ∧
      ∀ n ≤ heapSize, ∃ r, kmalloc (kfree eightHeap 0xDFFFFFF8) n = some r := by
  have hfree : HeapStep ⟨eightHeap, [0xDFFFFFF8]⟩ (.kfree 0xDFFFFFF8)
      ⟨kfree eightHeap 0xDFFFFFF8, [] ++ []⟩ := .kfree rfl
  have hallowed : HeadKept (heapInit fun _ => 0) (.kmalloc 8) ∧
      ExactFit (heapInit fun _ => 0) (.kmalloc 8) :=
    ⟨fun fl b hfl hwhole => absurd hwhole (not_wholeFit_eight hfl),
      fun fl b hfl hwhole => absurd hwhole (not_wholeFit_eight hfl)⟩
  exact heap_partition (.tail (.single ⟨_, hallowed, kmalloc_eight⟩)
    ⟨.kfree 0xDFFFFFF8, ⟨trivial, trivial⟩, hfree⟩)

/-- `kmalloc(HEAP_SIZE - 8)` right after `KMM_init` hands out the head of the list: it
stays on the list and its size field is 4 bytes short. -/
theorem kmalloc_whole_heap_not_partitioned :
    ∃ s, HeapStep (heapInit fun _ => 0) (.kmalloc (heapSize - 8)) s ∧ ¬ HeapPartitioned s := by
  have hinit := HeapRep.init fun _ => 0
  have hfirst : firstFit [⟨heapStart, heapSize⟩] (allocBytes (heapSize - 8)) =
      some ⟨heapStart, heapSize⟩ := by decide
  have hptr : (takeWhole zeroHeap heapStart (heapSize - 4)).1 = heapStart + 4 := by decide +kernel
  have hrun : kmalloc zeroHeap (heapSize - 8) =
      some (heapStart + 4, (takeWhole zeroHeap heapStart (heapSize - 4)).2) := by
    rw [zeroHeap, kmalloc_eq hinit.free (by decide), hfirst, ← hptr]
    rfl
  refine ⟨_, .kmalloc (by decide) hrun (by decide), ?_⟩
  have hfree : freeList (takeWhole zeroHeap heapStart (heapSize - 4)).2 =
      some [⟨heapStart, heapSize - 4⟩] := by decide +kernel
  have hlive : liveBlock (takeWhole zeroHeap heapStart (heapSize - 4)).2 (heapStart + 4) =
      ⟨heapStart, heapSize - 4⟩ := by decide +kernel
  rintro ⟨fl, hfl, hpacked, -⟩
  obtain rfl : [⟨heapStart, heapSize - 4⟩] = fl := Option.some.inj (hfree.symm.trans hfl)
  have hap := (List.pairwise_cons.mp hpacked.apart).1 ⟨heapStart, heapSize - 4⟩
  simp [heapInit, hlive] at hap
  unfold Extent.Apart at hap
  exact absurd hap (by decide)

end LakeOS.Analysis
