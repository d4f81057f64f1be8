import LakeOS.Analysis.HeapGrowth

/-!
# What `krealloc` promises

The caller of `krealloc` gives the size of the payload, and the header holds the size of
the block.  An allocation whose payload is up to four bytes too small is kept as it is,
one that grows in place gets a header without room for itself, the copy of one that moves
reads a word behind it, which for the last block of the heap is a page that cannot be
mapped, and when no block is found the old one is freed all the same.
`krealloc_right_iff` says which calls are left.
-/

set_option autoImplicit false

namespace LakeOS.Analysis

open LakeOS.Library LakeOS.Model

variable {m m' : Memory} {fl live : List Extent} {x e b : Extent} {newSz q : ℕ}

/-- `q` is an allocation of its own that holds `newSz` bytes, the payload of `e` moved to
it as far as it fits, and no other allocation has changed. -/
structure Resized (m m' : Memory) (e : Extent) (live : List Extent) (newSz q : ℕ) : Prop where
  block : ∃ fl' e', q = e'.start + sizeofSizeT ∧ newSz + sizeofSizeT ≤ e'.len ∧
    HeapRep m' fl' (e' :: live)
  contents : ∀ i, i < min (e.len - sizeofSizeT) newSz →
    m' (q + i) = m (e.start + sizeofSizeT + i)
  others : ∀ a ∈ live, ∀ y ∈ a, m' y = m y

/-- `krealloc(p, new_sz)` does what its caller expects, `e` being the block of `p`: a
pointer it returns is the resized allocation, and after `NULL` the old one is unchanged. -/
def ReallocRight (m : Memory) (e : Extent) (live : List Extent) (newSz : ℕ) : Prop :=
  ∃ q m', krealloc m (e.start + sizeofSizeT) newSz = some (q, m') ∧
    (q ≠ 0 → Resized m m' e live newSz q) ∧
    (q = 0 → ∃ fl', HeapRep m' fl' (e :: live) ∧ ∀ y ∈ e, m' y = m y)

/-- The sizes for which `krealloc` does that: the payload is large enough; or the free
block behind it is wide enough, header included, and too narrow for a node to be left
over; or there is no such block, the block is not the last one of the heap, and the first
block that is wide enough is not the head handed out whole. -/
def ReallocFits (fl : List Extent) (e : Extent) (newSz : ℕ) : Prop :=
  newSz + sizeofSizeT ≤ e.len ∨
  e.len < newSz ∧
    ((∃ x, neighbor fl e newSz = some x ∧ newSz + sizeofSizeT ≤ e.len + x.len ∧
        e.len + x.len < newSz + sizeofFreeBlock) ∨
      neighbor fl e newSz = none ∧ NotLast e ∧
        ∃ b, firstFit fl (newSz + sizeofSizeT) = some b ∧
          (b.start = heapStart → newSz + sizeofSizeT + sizeofFreeBlock ≤ b.len))

/-- INTERNAL: memory below the heap is no part of it. -/
theorem HeapRep.congr_heap (h : HeapRep m fl live) (hframe : ∀ y, heapStart ≤ y → m' y = m y) :
    HeapRep m' fl live := by
  refine ⟨h.free.congr fun b hb y hy => ?_, fun a ha => ?_, h.wide, h.packed⟩
  · rw [Extent.mem_def] at hy
    exact hframe y ((h.free.inside b hb).1.trans hy.1)
  · refine h.header_unchanged ha fun y hy => ?_
    rw [Extent.mem_def] at hy
    exact hframe y ((h.inside ha).1.trans hy.1)

/-- INTERNAL: the header of the resized block says how large it is. -/
theorem Resized.header (h : Resized m m' e live newSz (e.start + sizeofSizeT)) :
    newSz + sizeofSizeT ≤ blockSize m' e.start := by
  obtain ⟨fl', e', hq, hlen, hrep⟩ := h.block
  have hstart : e'.start = e.start := by omega
  rw [← hstart, hrep.header e' List.mem_cons_self]
  exact hlen

/-- INTERNAL: after a failed move the old block is free.
SRCLINE: kmm.c:48-51 -/
theorem freed_of_null (h : HeapRep m fl (e :: live)) :
    ¬ ∃ fl', HeapRep (kfree (m.write 0 (m.read (e.start + sizeofSizeT) e.len))
      (e.start + sizeofSizeT)) fl' (e :: live) := by
  rintro ⟨fl', h'⟩
  obtain ⟨hestart, hestop, hewide⟩ := h.bounds
  have hlow : ∀ y, heapStart ≤ y →
      m.write 0 (m.read (e.start + sizeofSizeT) e.len) y = m y := by
    intro y hy
    refine Store.write_of_ge m _ ?_
    rw [Store.length_read]
    unfold Extent.stop heapStart heapSize at *
    omega
  have h₂ := h.congr_heap hlow
  obtain ⟨fl'', hlist, hbytes⟩ := kfree_freeBytes h₂.free hestart hestop hewide
    (h₂.header e List.mem_cons_self) fun b hb => (h₂.apart hb List.mem_cons_self).symm
  obtain rfl : fl' = fl'' :=
    Option.some.inj (h'.free.freeList_eq.symm.trans hlist.freeList_eq)
  have hfirst : e.start ∈ e := by
    rw [Extent.mem_def]
    unfold Extent.stop sizeofFreeBlock at *
    omega
  have hfree : e.start ∈ freeBytes fl' := by
    rw [hbytes]
    exact .inr hfirst
  obtain ⟨c, hc, hmem⟩ := hfree
  exact h'.notMem_free List.mem_cons_self hfirst c hc hmem

/-- INTERNAL: a move after which the heap is well-formed went to a block that was not the
head handed out whole. -/
theorem firstFit_of_moved (h : HeapRep m fl (e :: live)) (hnew : e.len < newSz)
    (hlt : newSz + sizeofSizeT + sizeofFreeBlock < 2 ^ 32) (hnone : neighbor fl e newSz = none)
    (hrun : krealloc m (e.start + sizeofSizeT) newSz = some (q, m'))
    (hsome : q ≠ 0 → ∃ fl' e', q = e'.start + sizeofSizeT ∧ HeapRep m' fl' (e' :: live))
    (hnull : q = 0 → ∃ fl', HeapRep m' fl' (e :: live)) :
    NotLast e ∧ ∃ b, firstFit fl (newSz + sizeofSizeT) = some b ∧
      (b.start = heapStart → newSz + sizeofSizeT + sizeofFreeBlock ≤ b.len) := by
  obtain ⟨hestart, hestop, hewide⟩ := h.bounds
  obtain ⟨hnotlast, m₁, hmalloc, hfreed⟩ := h.krealloc_moved (by omega) hnew hnone hrun
  refine ⟨hnotlast, ?_⟩
  have hbytes : allocBytes newSz = newSz + sizeofSizeT := by
    rw [allocBytes_eq (by omega)]
    unfold sizeofFreeBlock at *
    omega
  rw [kmalloc_eq h.free (by rw [hbytes]; exact hlt), hbytes] at hmalloc
  cases hfirst : firstFit fl (newSz + sizeofSizeT) with
  | none =>
      rw [hfirst, takeFrom, Option.some_inj, Prod.mk.injEq] at hmalloc
      obtain ⟨rfl, rfl⟩ := hmalloc
      rw [hfreed] at hnull
      exact absurd (hnull rfl) (freed_of_null h)
  | some b =>
      refine ⟨b, rfl, fun hhead => ?_⟩
      by_contra hnarrow
      rw [hfirst, takeFrom, if_neg hnarrow, takeWhole, Option.some_inj,
        Prod.mk.injEq] at hmalloc
      have hq : q = heapStart + sizeofSizeT := by
        rw [← hmalloc.1, hhead]
        rfl
      -- the head of the list is below every allocated block
      obtain ⟨fl', e', hq', hrep⟩ := hsome (by rw [hq]; decide)
      have hb := hrep.bounds
      omega

/-- INTERNAL: a size that `krealloc` serves does not wrap around in `kmalloc`. -/
theorem lt_of_moved (h : HeapRep m fl (e :: live)) (hnew : e.len < newSz)
    (hnewlt : newSz < 2 ^ 32) (hnone : neighbor fl e newSz = none)
    (hrun : krealloc m (e.start + sizeofSizeT) newSz = some (q, m'))
    (hsome : q ≠ 0 → Resized m m' e live newSz q) :
    newSz + sizeofSizeT + sizeofFreeBlock < 2 ^ 32 := by
  by_contra hwrap
  obtain ⟨q₁, m₁, hmalloc, hne⟩ := kmalloc_wrapped h.free hnewlt
    (by unfold sizeofSizeT sizeofFreeBlock at hwrap; omega)
  obtain ⟨-, m₂, hmalloc₂, -⟩ := h.krealloc_moved hnewlt hnew hnone hrun
  obtain ⟨rfl, -⟩ := Prod.mk.inj (Option.some.inj (hmalloc.symm.trans hmalloc₂))
  obtain ⟨fl', e', -, hlen, hrep⟩ := (hsome hne).block
  have hb := hrep.bounds
  unfold Extent.stop heapStart heapSize sizeofSizeT sizeofFreeBlock at *
  omega

/-- INTERNAL: an allocation that takes a whole free block behind it.
SRCLINE: kmm.c:29-46 -/
theorem reallocRight_of_grown (h : HeapRep m fl (e :: live)) (hnewlt : newSz < 2 ^ 32)
    (hnew : e.len < newSz) (hx : neighbor fl e newSz = some x)
    (hfit : newSz + sizeofSizeT ≤ e.len + x.len)
    (hnode : e.len + x.len < newSz + sizeofFreeBlock) : ReallocRight m e live newSz := by
  obtain ⟨-, -, hewide⟩ := h.bounds
  obtain ⟨hmem, hstart, hfit'⟩ := neighbor_some hx
  obtain ⟨fl', hrep, hframe⟩ := growWhole_spec h hmem hstart hnew hfit' hnode
  have hinheap : NodeInHeap e x newSz := fun hwide => absurd hwide (by omega)
  have hcall := h.krealloc_eq hnewlt
  rw [if_neg (by omega), hx] at hcall
  refine ⟨_, _, hcall.trans (if_pos hinheap), fun _ => ?_, fun hzero => ?_⟩
  · refine ⟨⟨fl', ⟨e.start, e.len + x.len⟩, rfl, hfit, hrep⟩, fun i hi => ?_, fun a ha y hy => ?_⟩
    · have hold : e.start + sizeofSizeT + i ∈ e := by
        rw [Extent.mem_def]
        unfold Extent.stop
        omega
      exact hframe _ (h.notMem_free List.mem_cons_self hold) (by omega)
    · have ha' := List.mem_cons_of_mem e ha
      refine hframe y (h.notMem_free ha' hy) fun hin => ?_
      refine notMem_of_apart (h.apart_others a ha).symm hy ?_
      rw [Extent.mem_def]
      unfold Extent.stop sizeofSizeT sizeofFreeBlock at *
      omega
  · unfold sizeofSizeT at hzero
    omega

/-- INTERNAL: an allocation that moves.
SRCLINE: kmm.c:48-51 -/
theorem reallocRight_of_moved (h : HeapRep m fl (e :: live)) (hnewlt : newSz < 2 ^ 32)
    (hnew : e.len < newSz) (hnone : neighbor fl e newSz = none) (hnotlast : NotLast e)
    (hfirst : firstFit fl (newSz + sizeofSizeT) = some b)
    (hhead : b.start = heapStart → newSz + sizeofSizeT + sizeofFreeBlock ≤ b.len) :
    ReallocRight m e live newSz := by
  obtain ⟨m₁, fl', e', hmalloc, hlen, hend, hrep, hcontents, hothers⟩ :=
    move_spec h hnew hfirst hhead
  have hcall := h.krealloc_eq hnewlt
  rw [if_neg (by omega), hnone, hmalloc] at hcall
  refine ⟨_, _, hcall.trans (if_pos ⟨hnotlast, hend⟩), fun _ => ?_, fun hzero => ?_⟩
  · exact ⟨⟨fl', e', rfl, hlen.ge, hrep⟩, fun i hi => hcontents i (by omega), hothers⟩
  · unfold sizeofSizeT at hzero
    omega

/-- **`krealloc` does what its caller expects** exactly if the sizes fit.
SRCLINE: kmm.c:19-52 -/
theorem krealloc_right_iff (h : HeapRep m fl (e :: live)) (hnewlt : newSz < 2 ^ 32) :
    ReallocRight m e live newSz ↔ ReallocFits fl e newSz := by
  obtain ⟨hestart, hestop, hewide⟩ := h.bounds
  have hpos : e.start + sizeofSizeT ≠ 0 := by
    unfold sizeofSizeT
    omega
  constructor
  · rintro ⟨q, m', hcall, hsome, hnull⟩
    have hrun := hcall
    rw [h.krealloc_eq hnewlt] at hrun
    by_cases hkeep : newSz ≤ e.len
    · rw [if_pos hkeep, Option.some_inj, Prod.mk.injEq] at hrun
      obtain ⟨rfl, rfl⟩ := hrun
      have hheader := (hsome hpos).header
      rw [h.header e List.mem_cons_self] at hheader
      exact .inl hheader
    · rw [if_neg hkeep] at hrun
      refine .inr ⟨by omega, ?_⟩
      cases hx : neighbor fl e newSz with
      | some x =>
          rw [hx] at hrun
          obtain ⟨hmem, hstart, hfit⟩ := neighbor_some hx
          obtain ⟨-, hgrown⟩ := Option.ite_none_right_eq_some.mp hrun
          obtain ⟨rfl, rfl⟩ := Prod.mk.inj (Option.some.inj hgrown)
          have hheader := (hsome hpos).header
          rw [h.growInto_header hmem hstart (by omega) hfit] at hheader
          split at hheader
          · unfold sizeofSizeT at hheader
            omega
          · next hnode => exact .inl ⟨x, rfl, hheader, by omega⟩
      | none =>
          have hlt := lt_of_moved h (by omega) hnewlt hx hcall hsome
          refine .inr ⟨rfl, firstFit_of_moved h (by omega) hlt hx hcall (fun hne => ?_) fun hzero => ?_⟩
          · obtain ⟨fl', e', hq, -, hrep⟩ := (hsome hne).block
            exact ⟨fl', e', hq, hrep⟩
          · obtain ⟨fl', hrep, -⟩ := hnull hzero
            exact ⟨fl', hrep⟩
  · rintro (hkeep | ⟨hnew, ⟨x, hx, hfit, hnode⟩ | ⟨hnone, hnotlast, b, hfirst, hhead⟩⟩)
    · refine ⟨_, m, by rw [h.krealloc_eq hnewlt, if_pos (by omega)], fun _ => ?_,
        fun hzero => absurd hzero hpos⟩
      exact ⟨⟨fl, e, rfl, hkeep, h⟩, fun _ _ => rfl, fun _ _ _ _ => rfl⟩
    · exact reallocRight_of_grown h hnewlt hnew hx hfit hnode
    · exact reallocRight_of_moved h hnewlt hnew hnone hnotlast hfirst hhead

/-- Memory after another allocation of 8 bytes. -/
def pairHeap : Memory := (carveTail eightHeap heapStart 12).2

theorem pairHeap_rep : HeapRep pairHeap [⟨heapStart, heapSize - 24⟩]
    [⟨0xDFFFFFE8, 12⟩, ⟨0xDFFFFFF4, 12⟩] := by
  have hfields : blockNext pairHeap heapStart = heapStart ∧
      blockPrev pairHeap heapStart = heapStart ∧ blockSize pairHeap heapStart = heapSize - 24 ∧
      blockSize pairHeap 0xDFFFFFE8 = 12 ∧ blockSize pairHeap 0xDFFFFFF4 = 12 := by
    decide +kernel
  obtain ⟨hnext, hprev, hsize, hlow, hhigh⟩ := hfields
  refine ⟨⟨rfl, ?_, ?_, ?_, ?_, ?_⟩, ?_, ?_, ?_, ?_⟩
  · exact List.isChain_cons_cons.mpr ⟨⟨hnext, hprev⟩, List.isChain_singleton _⟩
  · simp [hsize]
  · simp [sizeofFreeBlock, heapSize]
  · simp [Extent.Ascending]
  · simp [Extent.stop, heapStart, heapSize]
  · simp [hlow, hhigh]
  · simp [sizeofFreeBlock]
  · simp [Extent.stop, heapStart, heapSize]
  · simp [Extent.Apart, Extent.stop, heapStart, heapSize]

/-- The second eight bytes are resized to twenty: they move to another block. -/
theorem krealloc_right_iff_twenty :
    ReallocRight pairHeap ⟨0xDFFFFFE8, 12⟩ [⟨0xDFFFFFF4, 12⟩] 20 := by
  apply (krealloc_right_iff pairHeap_rep (by norm_num)).mpr
  refine .inr ⟨by decide, .inr ⟨by decide, by decide, ⟨heapStart, heapSize - 24⟩, by decide,
    fun _ => ?_⟩⟩
  decide

/-- Eight bytes are resized to twelve: the pointer comes back and the payload still has
eight. -/
theorem krealloc_keeps_eight :
    krealloc eightHeap 0xDFFFFFF8 12 = some (0xDFFFFFF8, eightHeap) ∧
      ¬ ReallocRight eightHeap ⟨0xDFFFFFF4, 12⟩ [] 12 := by
  have hrun := eightHeap_rep.krealloc_eq (show 12 < 2 ^ 32 by norm_num)
  rw [if_pos (by decide)] at hrun
  refine ⟨hrun, ?_⟩
  rintro ⟨q, m', hrun', hsome, -⟩
  obtain ⟨rfl, rfl⟩ := Prod.mk.inj (Option.some.inj (hrun.symm.trans hrun'))
  have hheader := (hsome (by decide)).header
  rw [eightHeap_rep.header _ List.mem_cons_self] at hheader
  revert hheader
  decide

end LakeOS.Analysis
