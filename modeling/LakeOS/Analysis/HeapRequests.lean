import LakeOS.Analysis.HeapPartition

/-!
# Single calls of `kfree` and `kmalloc`

Both calls are described through the set of free bytes.  `kfree` adds the bytes of the
freed block to it, whatever it merges (`kfree_keeps_free_list`).

`kmalloc` takes the bytes of its block out of it, unless the size it computes wraps
around, it hands out a block whole that is wider than the request, or it hands out the
head of the list (`kmalloc_serves_iff`).
-/

set_option autoImplicit false

namespace LakeOS.Analysis

open LakeOS.Library LakeOS.Model

variable {m m' : Memory} {fl fl' as bs : List Extent} {p e b : Extent} {n q : ℕ}

/-- The bytes of the free blocks. -/
def freeBytes (fl : List Extent) : Set ℕ := {y | ∃ b ∈ fl, y ∈ b}

theorem mem_freeBytes {y : ℕ} : y ∈ freeBytes fl ↔ ∃ b ∈ fl, y ∈ b := Iff.rfl

@[simp] theorem freeBytes_append : freeBytes (as ++ bs) = freeBytes as ∪ freeBytes bs := by
  ext y
  simp only [mem_freeBytes, List.mem_append, Set.mem_union]
  constructor
  · rintro ⟨b, hb | hb, hy⟩
    · exact .inl ⟨b, hb, hy⟩
    · exact .inr ⟨b, hb, hy⟩
  · rintro (⟨b, hb, hy⟩ | ⟨b, hb, hy⟩)
    · exact ⟨b, .inl hb, hy⟩
    · exact ⟨b, .inr hb, hy⟩

@[simp] theorem freeBytes_cons : freeBytes (b :: bs) = {y | y ∈ b} ∪ freeBytes bs := by
  ext y
  simp [mem_freeBytes]

@[simp] theorem freeBytes_nil : freeBytes [] = ∅ := by
  ext y
  simp [mem_freeBytes]

/-- INTERNAL: two blocks that touch have the bytes of the merged block. -/
theorem bytes_merge (htouch : p.stop = e.start) :
    {y | y ∈ (⟨p.start, p.len + e.len⟩ : Extent)} = {y | y ∈ p} ∪ {y | y ∈ e} := by
  ext y
  simp only [Set.mem_ofPred_eq, Set.mem_union, Extent.mem_def, Extent.stop] at htouch ⊢
  omega

/-- INTERNAL: merging keeps the set of free bytes. -/
theorem freeBytes_mergeBack (p e : Extent) (bs : List Extent) :
    freeBytes (mergeBack p e bs) = {y | y ∈ p} ∪ ({y | y ∈ e} ∪ freeBytes bs) := by
  unfold mergeBack
  split
  next htouch => rw [freeBytes_cons, bytes_merge htouch, Set.union_assoc]
  next => rw [freeBytes_cons, freeBytes_cons]

theorem freeBytes_coalesced (p e : Extent) (bs : List Extent) :
    freeBytes (coalesced p e bs) = {y | y ∈ p} ∪ ({y | y ∈ e} ∪ freeBytes bs) := by
  cases bs with
  | nil => exact freeBytes_mergeBack p e []
  | cons n bs =>
      rw [coalesced]
      split
      next htouch =>
        rw [freeBytes_cons, freeBytes_cons, bytes_merge htouch, freeBytes_cons, Set.union_assoc]
      next => exact freeBytes_mergeBack p e (n :: bs)

/-! ## Freeing -/

/-- The search of `kfree` is at its end: the condition of its `while` is false.
SRCLINE: kmm.c:68-70 -/
def SeekEnded (m : Memory) (fblock iter : ℕ) : Prop :=
  ¬ (blockNext m iter < fblock ∧ iter < blockNext m iter)

/-- INTERNAL: the search ends at the last free block below the freed one. -/
theorem seekEnded_of_split (h : FreeListAt m (as ++ p :: bs))
    (heb : ∀ b ∈ bs, e.stop ≤ b.start) : SeekEnded m e.start p.start := by
  rintro ⟨hlt, hup⟩
  cases bs with
  | nil =>
      have hnext := h.next_last
      have hin := (h.inside p (by simp)).1
      omega
  | cons c bs =>
      have hnext := h.next_prev.1
      have hec := heb c List.mem_cons_self
      unfold Extent.stop at hec
      omega

/-- INTERNAL: the bytes of a freed block become free.
SRCLINE: kmm.c:60-81 -/
theorem kfree_freeBytes (h : FreeListAt m fl) (hstart : heapStart < e.start)
    (hstop : e.stop ≤ heapStart + heapSize) (hwide : sizeofFreeBlock ≤ e.len)
    (hsize : blockSize m e.start = e.len) (hapart : ∀ b ∈ fl, e.Apart b) :
    ∃ fl', FreeListAt (kfree m (e.start + sizeofSizeT)) fl' ∧
      freeBytes fl' = freeBytes fl ∪ {y | y ∈ e} := by
  obtain ⟨as, p, bs, rfl, -, -, hlist, -⟩ := kfree_spec h hstart hstop hwide hsize hapart
  refine ⟨_, hlist, ?_⟩
  rw [freeBytes_append, freeBytes_coalesced, freeBytes_append, freeBytes_cons]
  ext y
  simp only [Set.mem_union]
  tauto

/-- **`kfree` preserves the free list.**  The search for the place of the block ends, the
list afterwards is again a ring in address order from `HEAP_START` of disjoint blocks, and
its bytes are those of the old list and those of the freed block.
SRCLINE: kmm.c:60-81 -/
theorem kfree_keeps_free_list (h : FreeListAt m fl) (hstart : heapStart < e.start)
    (hstop : e.stop ≤ heapStart + heapSize) (hwide : sizeofFreeBlock ≤ e.len)
    (hsize : blockSize m e.start = e.len) (hapart : ∀ b ∈ fl, e.Apart b) :
    SeekEnded m e.start (kfreeSeek m e.start e.start heapStart) ∧
      ∃ fl', FreeListAt (kfree m (e.start + sizeofSizeT)) fl' ∧
        freeBytes fl' = freeBytes fl ∪ {y | y ∈ e} := by
  constructor
  · obtain ⟨hd, tl, rfl⟩ := List.exists_cons_of_ne_nil h.ne_nil
    have hhd : hd.start = heapStart := by simpa using h.first
    have hhde : hd.stop ≤ e.start := by
      have hap := hapart hd List.mem_cons_self
      have hpos := (h.stop_lt (b := hd) List.mem_cons_self).1
      unfold Extent.Apart Extent.stop at *
      omega
    have hfuel : tl.length ≤ e.start := by
      have hlen := h.length_le
      rw [List.length_cons] at hlen
      unfold heapStart heapSize at *
      omega
    obtain ⟨as, q, bs, hsplit, hseek, -, heb⟩ := kfreeSeek_spec
      (show FreeListAt m ([] ++ hd :: tl) from h) hhde
      (fun b hb => hapart b (List.mem_cons_of_mem hd hb)) hfuel
    rw [List.nil_append] at hsplit
    rw [hsplit] at h
    rw [← hhd, hseek]
    exact seekEnded_of_split h heb
  · exact kfree_freeBytes h hstart hstop hwide hsize hapart

/-- The free list and the block after the allocation of 8 bytes. -/
theorem eightHeap_list : FreeListAt eightHeap [⟨heapStart, heapSize - 12⟩] ∧
    blockSize eightHeap 0xDFFFFFF4 = 12 := by
  have hinit : FreeListAt zeroHeap ([] ++ ⟨heapStart, heapSize⟩ :: []) :=
    (HeapRep.init fun _ => 0).free
  obtain ⟨m', heq, hlist, hsize, -⟩ :=
    carveTail_spec hinit (show sizeofSizeT ≤ 12 by decide) (by decide)
  obtain rfl : eightHeap = m' := congrArg Prod.snd heq
  exact ⟨hlist, hsize⟩

theorem eightHeap_rep : HeapRep eightHeap [⟨heapStart, heapSize - 12⟩] [⟨0xDFFFFFF4, 12⟩] := by
  obtain ⟨hlist, hsize⟩ := eightHeap_list
  refine ⟨hlist, by simpa using hsize, by simp [sizeofFreeBlock], ?_, ?_⟩
  · simp [Extent.stop, heapStart, heapSize]
  · simp [Extent.Apart, Extent.stop, heapStart, heapSize]

/-- These 8 bytes are freed. -/
theorem kfree_keeps_free_list_eight :
    ∃ fl', FreeListAt (kfree eightHeap 0xDFFFFFF8) fl' ∧
      freeBytes fl' = freeBytes [⟨heapStart, heapSize - 12⟩] ∪ {y | y ∈ Extent.mk 0xDFFFFFF4 12} := by
  obtain ⟨hlist, hsize⟩ := eightHeap_list
  refine (kfree_keeps_free_list (e := ⟨0xDFFFFFF4, 12⟩) hlist ?_ ?_ ?_ hsize ?_).2
  · decide
  · decide
  · decide
  · simp only [List.mem_singleton, forall_eq]
    exact .inr (by decide)

/-! ## Allocating -/

/-- The bytes that a request of `n` needs, header included, without wrap-around. -/
def neededBytes (n : ℕ) : ℕ := max (n + sizeofSizeT) sizeofFreeBlock

/-- The answer `q` to a request of `n` bytes is right: it is `NULL` exactly if no free
block is wide enough, and otherwise it is the payload of a block `e` inside a free block
with the right header, and exactly the other free bytes are free afterwards. -/
structure ServesRequest (fl : List Extent) (n q : ℕ) (m' : Memory) : Prop where
  null_iff : q = 0 ↔ ∀ b ∈ fl, b.len < neededBytes n
  block : q ≠ 0 → ∃ b ∈ fl, ∃ e : Extent, q = e.start + sizeofSizeT ∧
    b.start ≤ e.start ∧ e.stop ≤ b.stop ∧ n + sizeofSizeT ≤ e.len ∧
    blockSize m' e.start = e.len ∧
    ∃ fl', FreeListAt m' fl' ∧ freeBytes fl' = freeBytes fl \ {y | y ∈ e}

/-- INTERNAL: the bytes of one block are not those of another. -/
theorem FreeListAt.notMem_other (h : FreeListAt m (as ++ b :: bs)) {y : ℕ} (hy : y ∈ b) :
    y ∉ freeBytes (as ++ bs) := by
  rintro ⟨c, hc, hyc⟩
  obtain ⟨-, hbefore, hafter⟩ := Extent.ascending_middle.mp h.ascending
  rw [Extent.mem_def] at hy hyc
  obtain hc | hc := List.mem_append.mp hc
  · have := hbefore c hc
    omega
  · have := hafter c hc
    omega

/-- INTERNAL: an allocation that loses nothing takes the bytes of its block. -/
theorem Taken.freeBytes_eq {bytes : ℕ} (h : Taken fl bytes fl' e) (hlist : FreeListAt m fl)
    (hexact : ∀ b, WholeFit fl bytes b → b.len = bytes) :
    freeBytes fl' = freeBytes fl \ {y | y ∈ e} := by
  cases h with
  | @tail as bs b hfl hfit =>
      subst hfl
      have hother : ∀ y ∈ freeBytes (as ++ bs), y ∉ b := fun y hy hb => hlist.notMem_other hb hy
      ext y
      have hy := hother y
      simp only [freeBytes_append, freeBytes_cons, Set.mem_union, Set.mem_sdiff, Set.mem_ofPred_eq,
        Extent.mem_def, Extent.stop] at hy ⊢
      constructor
      · rintro (has | hb | hbs)
        · exact ⟨.inl has, fun hmem => hy (.inl has) (by omega)⟩
        · exact ⟨.inr (.inl (by omega)), by omega⟩
        · exact ⟨.inr (.inr hbs), fun hmem => hy (.inr hbs) (by omega)⟩
      · rintro ⟨has | hb | hbs, hnot⟩
        · exact .inl has
        · exact .inr (.inl (by omega))
        · exact .inr (.inr hbs)
  | @whole as bs p b hfl hfit hwhole =>
      have hlen : (⟨b.start, bytes⟩ : Extent) = b := by
        rw [← hexact b hwhole]
      rw [hlen]
      subst hfl
      have hother : ∀ y ∈ freeBytes ((as ++ [p]) ++ bs), y ∉ b :=
        fun y hy hb => hlist.from_second.notMem_other hb hy
      ext y
      have hy := hother y
      simp only [freeBytes_append, freeBytes_cons, freeBytes_nil, Set.mem_union, Set.mem_sdiff,
        Set.mem_ofPred_eq, Set.mem_empty_iff_false, or_false] at hy ⊢
      tauto

/-- INTERNAL: the block taken lies inside a free block. -/
theorem Taken.inside {bytes : ℕ} (h : Taken fl bytes fl' e) :
    ∃ b ∈ fl, b.start ≤ e.start ∧ e.stop ≤ b.stop := by
  cases h with
  | @tail as bs b hfl hfit =>
      refine ⟨b, by simp [hfl], ?_, ?_⟩
      · simp only [Extent.stop]
        omega
      · simp only [Extent.stop]
        omega
  | @whole as bs p b hfl hfit hwhole =>
      refine ⟨b, by simp [hfl], le_rfl, ?_⟩
      simp only [Extent.stop]
      omega

/-- INTERNAL: no free block fits exactly if the search finds none. -/
theorem firstFit_eq_none {bytes : ℕ} : firstFit fl bytes = none ↔ ∀ b ∈ fl, b.len < bytes := by
  unfold firstFit
  simp only [List.find?_eq_none, (searchOrder_perm fl).mem_iff, decide_eq_true_eq, not_le]

/-- INTERNAL: a request whose size wraps around is served nevertheless.
SRCLINE: kmm.c:95-110 -/
theorem kmalloc_wrapped (h : FreeListAt m fl) (hn : n < 2 ^ 32) (hwrap : 2 ^ 32 ≤ n + 16) :
    ∃ q m', kmalloc m n = some (q, m') ∧ q ≠ 0 := by
  by_cases hheader : 2 ^ 32 ≤ n + sizeofSizeT
  · -- the sum with the header wraps, and the request is one for the smallest block
    have hbytes : allocBytes n = sizeofFreeBlock := by
      unfold allocBytes add32
      unfold sizeofSizeT at hheader ⊢
      rw [if_pos (by unfold sizeofFreeBlock; omega)]
    cases hfirst : firstFit fl (allocBytes n) with
    | none =>
        obtain ⟨hd, tl, rfl⟩ := List.exists_cons_of_ne_nil h.ne_nil
        have hnone := firstFit_eq_none.mp hfirst hd List.mem_cons_self
        have hwide := h.wide hd List.mem_cons_self
        omega
    | some b =>
        obtain ⟨hb, -⟩ := mem_of_firstFit hfirst
        have hlt := h.stop_lt hb
        have hin := h.inside b hb
        have hsize := h.size b hb
        refine ⟨_, _, by rw [kmalloc_eq h (by rw [hbytes]; decide), hfirst], ?_⟩
        rw [takeFrom, hbytes]
        split
        · next hcarve =>
            obtain ⟨as, bs, rfl⟩ := List.append_of_mem hb
            obtain ⟨m', heq, -⟩ := carveTail_spec h (by decide) hcarve
            rw [heq]
            simp [sizeofSizeT]
        · rw [takeWhole, add32_eq (by unfold sizeofSizeT sizeofFreeBlock at *; omega)]
          simp [sizeofSizeT]
  · -- the sum with a node wraps, so that the first block looked at seems wide enough
    have hbytes : allocBytes n = n + sizeofSizeT := by
      rw [allocBytes_eq (by omega)]
      unfold sizeofSizeT sizeofFreeBlock
      omega
    obtain ⟨c, hc, hstart⟩ : ∃ c ∈ fl, c.start = blockNext m heapStart := by
      obtain ⟨hd, tl, rfl⟩ := List.exists_cons_of_ne_nil h.ne_nil
      have hhd : hd.start = heapStart := by simpa using h.first
      rw [← hhd]
      exact h.next_mem List.mem_cons_self
    have hlt := h.stop_lt hc
    have hin := h.inside c hc
    have hwide := h.wide c hc
    have hsize := h.size c hc
    have hfit : add32 (allocBytes n) sizeofFreeBlock ≤ blockSize m (blockNext m heapStart) := by
      rw [← hstart, hsize, hbytes]
      unfold add32
      unfold sizeofSizeT sizeofFreeBlock at *
      omega
    refine ⟨(carveTail m (blockNext m heapStart) (allocBytes n)).1,
      (carveTail m (blockNext m heapStart) (allocBytes n)).2, ?_, ?_⟩
    · unfold kmalloc findFirstFit
      simp only
      rw [show heapSize = (heapSize - 1) + 1 from rfl, findFirstFitLoop, if_pos hfit]
    · have hsub : sub32 c.len (allocBytes n) = c.len + 2 ^ 32 - allocBytes n := by
        unfold sub32 Extent.stop heapStart at *
        unfold sizeofSizeT at *
        omega
      have hsublt : sub32 c.len (allocBytes n) < 2 ^ 32 := Nat.mod_lt _ (Nat.two_pow_pos 32)
      unfold carveTail
      simp only [← hstart, hsize, blockSize_setSize m (.refl c.start) hsublt, if_true]
      rw [hsub] at hsublt ⊢
      unfold add32 Extent.stop heapStart heapSize at *
      unfold sizeofSizeT at *
      omega

/-- INTERNAL: the head of the list that is handed out stays on the list.
SRCLINE: kmm.c:112-118 -/
theorem start_ne_of_taken (hestart : e.start = b.start) (hepos : 0 < e.len)
    (hlist : FreeListAt m' fl') (hbytes : freeBytes fl' = freeBytes fl \ {y | y ∈ e}) :
    b.start ≠ heapStart := by
  intro hhead
  obtain ⟨hd, tl, rfl⟩ := List.exists_cons_of_ne_nil hlist.ne_nil
  have hhd : hd.start = heapStart := by simpa using hlist.first
  have hhdwide := hlist.wide hd List.mem_cons_self
  have hmem : heapStart ∈ freeBytes (hd :: tl) := by
    refine ⟨hd, List.mem_cons_self, ?_⟩
    rw [Extent.mem_def, Extent.stop]
    unfold sizeofFreeBlock at hhdwide
    omega
  rw [hbytes] at hmem
  refine hmem.2 ?_
  rw [Set.mem_ofPred_eq, Extent.mem_def, Extent.stop]
  omega

/-- INTERNAL: the rest of a block that is handed out whole is lost.
SRCLINE: kmm.c:112-118 -/
theorem len_eq_of_taken {bytes : ℕ} (h : FreeListAt m fl) (hb : b ∈ fl)
    (hne : b.start ≠ heapStart) (hfit : bytes ≤ b.len) (hm' : (takeWhole m b.start bytes).2 = m')
    (he : e = ⟨b.start, bytes⟩) (hlist : FreeListAt m' fl')
    (hbytes : freeBytes fl' = freeBytes fl \ {y | y ∈ e}) : b.len = bytes := by
  obtain ⟨as, bs, rfl⟩ := List.append_of_mem hb
  cases as using List.reverseRecOn with
  | nil => exact absurd (by simpa using h.first) hne
  | append_singleton as p =>
      rw [List.append_assoc, List.singleton_append] at h hbytes
      obtain ⟨m₁, heq, hlist₁, -⟩ := takeWhole_spec h hfit
      obtain rfl : m' = m₁ := by rw [← hm', heq]
      obtain rfl : as ++ p :: bs = fl' :=
        Option.some.inj (hlist₁.freeList_eq.symm.trans hlist.freeList_eq)
      have hwide := h.wide b (by simp)
      by_contra hlen
      -- the last byte of the block is neither allocated nor free
      have hlast : b.stop - 1 ∈ b := by
        rw [Extent.mem_def]
        unfold Extent.stop sizeofFreeBlock at *
        omega
      have hnot : b.stop - 1 ∉ e := by
        rw [he, Extent.mem_def]
        simp only [Extent.stop]
        omega
      have hfree : b.stop - 1 ∈ freeBytes (as ++ p :: bs) := by
        rw [hbytes]
        exact ⟨⟨b, by simp, hlast⟩, hnot⟩
      refine h.from_second.notMem_other hlast ?_
      rwa [List.append_assoc]

/-- INTERNAL: the sizes of a request that does not wrap around. -/
theorem neededBytes_bounds (hlt : n + sizeofSizeT + sizeofFreeBlock < 2 ^ 32) :
    allocBytes n = neededBytes n ∧ allocBytes n + sizeofFreeBlock < 2 ^ 32 ∧
      sizeofSizeT ≤ allocBytes n := by
  have hbytes : allocBytes n = neededBytes n := allocBytes_eq (by omega)
  refine ⟨hbytes, ?_⟩
  rw [hbytes]
  unfold neededBytes sizeofSizeT sizeofFreeBlock at *
  omega

/-- INTERNAL: a request that is served did not wrap around. -/
theorem lt_of_serves (h : FreeListAt m fl) (hn : n < 2 ^ 32) (hrun : kmalloc m n = some (q, m'))
    (hserves : ServesRequest fl n q m') : n + sizeofSizeT + sizeofFreeBlock < 2 ^ 32 := by
  by_contra hwrap
  obtain ⟨q', m'', hrun', hne⟩ := kmalloc_wrapped h hn
    (by unfold sizeofSizeT sizeofFreeBlock at hwrap; omega)
  rw [hrun, Option.some_inj, Prod.mk.injEq] at hrun'
  obtain ⟨b, hb, e, -, hestart, hestop, hlen, -⟩ := hserves.block (hrun'.1 ▸ hne)
  have hin := h.inside b hb
  unfold Extent.stop heapStart heapSize sizeofSizeT sizeofFreeBlock at *
  omega

/-- **`kmalloc` serves a request** of any size exactly if neither of the two sums wraps
around and a block that is handed out whole has the size needed and is not the head of the
list.
SRCLINE: kmm.c:14-18, 89-124 -/
theorem kmalloc_serves_iff (h : FreeListAt m fl) (hn : n < 2 ^ 32) :
    (∃ q m', kmalloc m n = some (q, m') ∧ ServesRequest fl n q m') ↔
      n + sizeofSizeT + sizeofFreeBlock < 2 ^ 32 ∧
      ∀ b, WholeFit fl (neededBytes n) b → b.len = neededBytes n ∧ b.start ≠ heapStart := by
  constructor
  · rintro ⟨q, m', hrun, hserves⟩
    have hlt := lt_of_serves h hn hrun hserves
    obtain ⟨hbytes, hsum, hpos⟩ := neededBytes_bounds hlt
    refine ⟨hlt, fun b hwhole => ?_⟩
    obtain ⟨hb, hfit⟩ := mem_of_firstFit hwhole.1
    have hwide := h.wide b hb
    have hblt := h.stop_lt hb
    have htake : takeWhole m b.start (neededBytes n) = (q, m') := by
      rw [kmalloc_eq h hsum, hbytes, hwhole.1, takeFrom, if_neg (by have := hwhole.2; omega)] at hrun
      exact Option.some.inj hrun
    have hq : b.start + sizeofSizeT = q := by
      rw [takeWhole, add32_eq (by unfold sizeofSizeT sizeofFreeBlock at *; omega)] at htake
      exact (Prod.mk.inj htake).1
    have hm' : (takeWhole m b.start (neededBytes n)).2 = m' := by rw [htake]
    obtain ⟨-, -, e, hqe, -, -, hlen, hheader, fl', hlist', hbytes'⟩ :=
      hserves.block (by rw [← hq]; unfold sizeofSizeT; omega)
    have hestart : e.start = b.start := by omega
    have helen : e.len = neededBytes n := by
      rw [← hheader, hestart, ← hm']
      exact blockSize_save_self (by omega)
    have hne := start_ne_of_taken hestart (by unfold sizeofSizeT at hlen; omega) hlist' hbytes'
    exact ⟨len_eq_of_taken h hb hne hfit hm' (Extent.ext hestart helen) hlist' hbytes', hne⟩
  · rintro ⟨hlt, hwhole⟩
    obtain ⟨hbytes, hsum, hpos⟩ := neededBytes_bounds hlt
    rw [← hbytes] at hwhole
    cases hfirst : firstFit fl (allocBytes n) with
    | none =>
        refine ⟨0, m, by rw [kmalloc_eq h hsum, hfirst]; rfl, ?_, fun hne => absurd rfl hne⟩
        rw [← hbytes]
        exact iff_of_true rfl (firstFit_eq_none.mp hfirst)
    | some b =>
        obtain ⟨m', fl', e, hrun, htaken, hlist, hheader, -⟩ :=
          kmalloc_found h hsum hpos hfirst fun hfit => (hwhole b hfit).2
        refine ⟨_, m', hrun, ?_, fun _ => ?_⟩
        · obtain ⟨hb, hfit⟩ := mem_of_firstFit hfirst
          refine iff_of_false (by unfold sizeofSizeT; omega) fun hnone => ?_
          have := hnone b hb
          omega
        · obtain ⟨c, hc, hstart, hstop⟩ := htaken.inside
          refine ⟨c, hc, e, rfl, hstart, hstop, ?_, hheader, fl', hlist, ?_⟩
          · rw [htaken.len_eq, hbytes]
            exact le_max_left _ _
          · exact htaken.freeBytes_eq h fun b hb => (hwhole b hb).1

/-- The single block after `KMM_init` serves 8 bytes. -/
theorem kmalloc_serves_iff_eight :
    ∃ q m', kmalloc zeroHeap 8 = some (q, m') ∧ ServesRequest [⟨heapStart, heapSize⟩] 8 q m' := by
  apply (kmalloc_serves_iff (HeapRep.init fun _ => 0).free (by norm_num)).mpr
  refine ⟨by decide, fun b hwhole => absurd hwhole ?_⟩
  have hlist := (HeapRep.init fun _ => 0).free.freeList_eq
  exact not_wholeFit_eight hlist

/-- A request of `2 ^ 32 - 1` bytes is answered with a block of 12 bytes. -/
theorem kmalloc_wraps_around :
    ¬ ∃ q m', kmalloc zeroHeap 0xFFFFFFFF = some (q, m') ∧
      ServesRequest [⟨heapStart, heapSize⟩] 0xFFFFFFFF q m' := by
  rintro ⟨q, m', hrun, hserves⟩
  have hlt := lt_of_serves (HeapRep.init fun _ => 0).free (by norm_num) hrun hserves
  revert hlt
  decide

end LakeOS.Analysis
