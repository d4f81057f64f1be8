import LakeOS.Analysis.HeapRequests

/-!
# The branches of `krealloc`

`krealloc` compares the size that is asked for with the size in the header, which counts
the header itself.  When it is larger, a free block behind the allocation that is wide
enough (`neighbor`) is taken in place, whole or up to a rest that holds a node; otherwise
the allocation moves.  The lemmas below say what each branch does to the free blocks and
the allocated ones.
-/

set_option autoImplicit false

namespace LakeOS.Analysis

open LakeOS.Library LakeOS.Model

variable {m m' : Memory} {fl fl' as bs live : List Extent} {p x e b : Extent} {newSz q : ℕ}

/-- The free block behind `e` into which `e` can grow to `newSz` bytes. -/
def neighbor (fl : List Extent) (e : Extent) (newSz : ℕ) : Option Extent :=
  fl.find? fun x => x.start = e.stop ∧ newSz ≤ e.len + x.len

theorem neighbor_some (hx : neighbor fl e newSz = some x) :
    x ∈ fl ∧ x.start = e.stop ∧ newSz ≤ e.len + x.len := by
  have hfound := List.find?_some hx
  simp only [decide_eq_true_eq] at hfound
  exact ⟨List.mem_of_find?_eq_some hx, hfound⟩

/-- The node that is left of `x` when `e` grows into it has a word of the heap behind it. -/
def NodeInHeap (e x : Extent) (newSz : ℕ) : Prop :=
  newSz + sizeofFreeBlock ≤ e.len + x.len →
    x.start + (newSz - e.len) + sizeofFreeBlock + 4 ≤ heapStart + heapSize

instance (e x : Extent) (newSz : ℕ) : Decidable (NodeInHeap e x newSz) :=
  inferInstanceAs (Decidable (_ → _))

/-- The payload of `e` is not the last one of the heap: the copy of a moving allocation,
which is longer by a header, stays in the heap. -/
def NotLast (e : Extent) : Prop := e.stop + sizeofSizeT ≤ heapStart + heapSize

instance (e : Extent) : Decidable (NotLast e) := inferInstanceAs (Decidable (_ ≤ _))

/-- INTERNAL: a free block and the allocation in front of it, before all other blocks. -/
theorem neighbours_perm (as bs live : List Extent) (p x e : Extent) :
    (as ++ p :: x :: bs ++ e :: live).Perm (e :: x :: (as ++ p :: bs ++ live)) := by
  rw [List.perm_iff_count]
  intro a
  simp only [List.count_append, List.count_cons]
  omega

/-- INTERNAL: the copy of the node of a neighbour. -/
theorem movesInHeap_iff {fl : List Extent} (h : FreeListAt m fl) (hx : x ∈ fl)
    (hnew : e.len < newSz) (hnewlt : newSz < 2 ^ 32) (hfit : newSz ≤ e.len + x.len) :
    MovesInHeap m e.len newSz x.start ↔ NodeInHeap e x newSz := by
  have hin := h.inside x hx
  have hoff : sub32 newSz e.len = newSz - e.len := sub32_eq hnew.le hnewlt
  unfold Extent.stop heapStart heapSize at hin
  have hmoved : add32 x.start (newSz - e.len) = x.start + (newSz - e.len) := add32_eq (by omega)
  have hrem : sub32 x.len (newSz - e.len) = x.len - (newSz - e.len) :=
    sub32_eq (by omega) (by omega)
  unfold MovesInHeap NodeInHeap
  dsimp only
  rw [h.size x hx, hoff, hmoved, hrem]
  constructor
  · intro hmoves hnode
    have hend := hmoves (by omega)
    omega
  · intro hmoves hnode
    have hend := hmoves (by omega)
    unfold BeforeHeapEnd
    omega

/-- INTERNAL: the search for the neighbour goes through the list once.
SRCLINE: kmm.c:24-45 -/
theorem kreallocLoop_eq (h : FreeListAt m (as ++ p :: bs)) {fuel : ℕ} (hfuel : bs.length < fuel)
    (hpos : sizeofSizeT ≤ e.start + sizeofSizeT) (hlt : e.stop + sizeofSizeT < 2 ^ 32)
    (hnew : e.len < newSz) (hnewlt : newSz < 2 ^ 32) :
    kreallocLoop m (e.start + sizeofSizeT) e.len newSz fuel p.start =
      match (p :: bs).find? fun x => x.start = e.stop ∧ newSz ≤ e.len + x.len with
      | some x =>
          if NodeInHeap e x newSz then
            some (some (growInto m (e.start + sizeofSizeT) e.len newSz x.start))
          else none
      | none => some none := by
  have hsub : sub32 (e.start + sizeofSizeT) sizeofSizeT = e.start := by
    rw [sub32_eq hpos (by unfold Extent.stop at hlt; omega), Nat.add_sub_cancel]
  have hadd : add32 e.start e.len = e.stop := by
    rw [add32_eq (by unfold Extent.stop at hlt; omega)]
    rfl
  have hoff : sub32 newSz e.len = newSz - e.len := sub32_eq hnew.le hnewlt
  have hfound : ∀ x : Extent, (x.start = e.stop ∧ newSz - e.len ≤ x.len) ↔
      (x.start = e.stop ∧ newSz ≤ e.len + x.len) := fun x => and_congr_right fun _ => by omega
  induction bs generalizing as p fuel with
  | nil =>
      obtain ⟨fuel, rfl⟩ := Nat.exists_eq_succ_of_ne_zero (Nat.ne_zero_of_lt hfuel)
      rw [kreallocLoop, hsub, hadd, hoff, h.size p (by simp), h.next_last,
        if_pos (rfl : heapStart = heapStart)]
      by_cases hp : p.start = e.stop ∧ newSz - e.len ≤ p.len
      · have hmoves := movesInHeap_iff (e := e) h (x := p) (by simp) hnew hnewlt (by omega)
        rw [if_pos hp, List.find?_cons_of_pos (by simpa using (hfound p).mp hp)]
        exact if_congr hmoves rfl rfl
      · rw [if_neg hp, List.find?_cons_of_neg (by simpa using mt (hfound p).mpr hp)]
        rfl
  | cons c bs ih =>
      obtain ⟨fuel, rfl⟩ := Nat.exists_eq_succ_of_ne_zero (Nat.ne_zero_of_lt hfuel)
      have hpc := (Extent.ascending_middle.mp h.ascending).2.2 c List.mem_cons_self
      have hp := (h.inside p (by simp)).1
      have hpwide := (h.stop_lt (b := p) (by simp)).1
      unfold sizeofFreeBlock at hpwide
      rw [kreallocLoop, hsub, hadd, hoff, h.size p (by simp), h.next_prev.1,
        if_neg (show ¬ c.start = heapStart by omega)]
      by_cases hfit : p.start = e.stop ∧ newSz - e.len ≤ p.len
      · have hmoves := movesInHeap_iff (e := e) h (x := p) (by simp) hnew hnewlt (by omega)
        rw [if_pos hfit, List.find?_cons_of_pos (by simpa using (hfound p).mp hfit)]
        exact if_congr hmoves rfl rfl
      · rw [if_neg hfit, List.find?_cons_of_neg (by simpa using mt (hfound p).mpr hfit)]
        exact ih h.from_second (by simpa using hfuel)

/-- INTERNAL: the bytes of an allocated block are not free. -/
theorem HeapRep.notMem_free (h : HeapRep m fl live) (he : e ∈ live) {y : ℕ} (hy : y ∈ e) :
    ∀ c ∈ fl, y ∉ c := fun _ hc => notMem_of_apart (h.apart hc he).symm hy

/-- INTERNAL: the four bytes of a header belong to its block. -/
theorem HeapRep.header_unchanged (h : HeapRep m fl live) (he : e ∈ live)
    (hframe : ∀ y ∈ e, m' y = m y) : blockSize m' e.start = e.len := by
  have hwide := h.wide e he
  rw [← h.header e he]
  refine Store.load_congr fun y hlo hhi => hframe y ?_
  rw [Extent.mem_def]
  unfold Extent.stop sizeofFreeBlock at *
  omega

namespace HeapRep

variable (h : HeapRep m fl (e :: live))

include h in
/-- INTERNAL: the addresses of an allocated block. -/
theorem bounds : heapStart < e.start ∧ e.stop ≤ heapStart + heapSize ∧ sizeofFreeBlock ≤ e.len :=
  ⟨h.head_lt List.mem_cons_self, (h.inside List.mem_cons_self).2, h.wide e List.mem_cons_self⟩

include h in
/-- INTERNAL: the other allocated blocks do not overlap it. -/
theorem apart_others : ∀ a ∈ live, e.Apart a := by
  have hlive := (List.pairwise_append.mp h.packed.apart).2.1
  exact (List.pairwise_cons.mp hlive).1

include h in
theorem header_sub : sub32 (e.start + sizeofSizeT) sizeofSizeT = e.start := by
  have hb := h.bounds
  unfold Extent.stop heapStart heapSize sizeofSizeT at *
  rw [sub32_eq (by omega) (by omega), Nat.add_sub_cancel]

include h in
/-- INTERNAL: `krealloc` of an allocated block.
SRCLINE: kmm.c:19-52 -/
theorem krealloc_eq (hnewlt : newSz < 2 ^ 32) :
    krealloc m (e.start + sizeofSizeT) newSz =
      if newSz ≤ e.len then some (e.start + sizeofSizeT, m)
      else
        match neighbor fl e newSz with
        | some x =>
            if NodeInHeap e x newSz then
              some (e.start + sizeofSizeT, growInto m (e.start + sizeofSizeT) e.len newSz x.start)
            else none
        | none =>
            (Model.kmalloc m newSz).bind fun new =>
              if NotLast e ∧ BeforeHeapEnd new.1 e.len then
                some (new.1, Model.kfree
                  (new.2.write new.1 (new.2.read (e.start + sizeofSizeT) e.len))
                  (e.start + sizeofSizeT))
              else none := by
  obtain ⟨hstart, hstop, hwide⟩ := h.bounds
  have hsize : m.load 4 e.start = e.len := h.header e List.mem_cons_self
  unfold krealloc
  rw [if_neg (by unfold sizeofSizeT; omega), h.header_sub, hsize]
  dsimp only
  split
  · rfl
  · next hnew =>
      obtain ⟨hd, tl, rfl⟩ := List.exists_cons_of_ne_nil h.free.ne_nil
      have hhd : hd.start = heapStart := by simpa using h.free.first
      have hlen := h.free.length_le
      have hloop := kreallocLoop_eq (show FreeListAt m ([] ++ hd :: tl) from h.free) hlen
        (Nat.le_add_left sizeofSizeT e.start)
        (by unfold heapStart heapSize sizeofSizeT at *; omega) (Nat.lt_of_not_le hnew) hnewlt
      rw [hhd] at hloop
      rw [hloop]
      unfold neighbor
      cases List.find? (fun x => decide (x.start = e.stop ∧ newSz ≤ e.len + x.len)) (hd :: tl) with
      | none =>
          have hlast : BeforeHeapEnd (e.start + sizeofSizeT) e.len ↔ NotLast e := by
            unfold BeforeHeapEnd NotLast Extent.stop
            omega
          simp only [hlast]
      | some x =>
          by_cases hnode : NodeInHeap e x newSz
          · simp only [if_pos hnode]
          · simp only [if_neg hnode]

/-- INTERNAL: `krealloc` of an allocation that has to move and returns.
SRCLINE: kmm.c:48-51 -/
theorem krealloc_moved (h : HeapRep m fl (e :: live)) (hnewlt : newSz < 2 ^ 32)
    (hnew : e.len < newSz) (hnone : neighbor fl e newSz = none)
    (hrun : krealloc m (e.start + sizeofSizeT) newSz = some (q, m')) :
    NotLast e ∧ ∃ m₁, Model.kmalloc m newSz = some (q, m₁) ∧
      m' = Model.kfree (m₁.write q (m₁.read (e.start + sizeofSizeT) e.len))
        (e.start + sizeofSizeT) := by
  rw [h.krealloc_eq hnewlt, if_neg (by omega), hnone] at hrun
  obtain ⟨⟨q₁, m₁⟩, hmalloc, hcopy⟩ := Option.bind_eq_some_iff.mp hrun
  by_cases hreach : NotLast e ∧ BeforeHeapEnd q₁ e.len
  · rw [if_pos hreach, Option.some_inj, Prod.mk.injEq] at hcopy
    obtain ⟨rfl, rfl⟩ := hcopy
    exact ⟨hreach.1, m₁, hmalloc, rfl⟩
  · rw [if_neg hreach] at hcopy
    cases hcopy

include h in
/-- INTERNAL: the neighbour is not the head of the list. -/
theorem neighbor_split (hx : x ∈ fl) (hstart : x.start = e.stop) :
    ∃ as p bs, fl = as ++ p :: x :: bs := by
  have hb := h.bounds
  obtain ⟨as, bs, rfl⟩ := List.append_of_mem hx
  cases as using List.reverseRecOn with
  | nil =>
      have hhd : x.start = heapStart := by simpa using h.free.first
      unfold Extent.stop at *
      omega
  | append_singleton as p => exact ⟨as, p, bs, by rw [List.append_assoc]; rfl⟩

/-- INTERNAL: the sum of the size of a block and its neighbour does not wrap around. -/
theorem len_add_lt (h : HeapRep m fl (e :: live)) (hx : x ∈ fl) (hstart : x.start = e.stop) :
    e.len + x.len ≤ heapSize := by
  have hb := h.bounds
  have hin := h.free.inside x hx
  unfold Extent.stop at *
  omega

/-- INTERNAL: the header that an allocation grown in place gets: the size asked for if a
node is left over, the size of both blocks if not.
SRCLINE: kmm.c:28-41 -/
theorem growInto_header (h : HeapRep m fl (e :: live)) (hx : x ∈ fl) (hstart : x.start = e.stop)
    (hnew : e.len < newSz) (hfit : newSz ≤ e.len + x.len) :
    blockSize (growInto m (e.start + sizeofSizeT) e.len newSz x.start) e.start =
      if newSz + sizeofFreeBlock ≤ e.len + x.len then newSz else e.len + x.len := by
  obtain ⟨as, p, bs, rfl⟩ := h.neighbor_split hx hstart
  have hlen := h.len_add_lt hx hstart
  have hlt : e.len + x.len < 2 ^ 32 := by
    unfold heapSize at hlen
    omega
  have hsize := h.free.size x hx
  have hunlinked := (unlinkBlock_spec h.free).2.1
  have hoff : sub32 newSz e.len = newSz - e.len := sub32_eq hnew.le (by omega)
  have hrem : sub32 x.len (newSz - e.len) = x.len - (newSz - e.len) :=
    sub32_eq (by omega) (by omega)
  unfold growInto
  simp only [hsize, hoff, hrem, h.header_sub, hunlinked, add32_eq hlt]
  by_cases hnode : newSz + sizeofFreeBlock ≤ e.len + x.len
  · rw [if_pos hnode, if_pos (by omega)]
    exact blockSize_save_self (by omega)
  · rw [if_neg hnode, if_neg (by omega)]
    exact blockSize_save_self hlt

end HeapRep

/-- INTERNAL: an allocated block takes in the free block behind it.
SRCLINE: kmm.c:37-41 -/
theorem growWhole_spec (h : HeapRep m fl (e :: live)) (hx : x ∈ fl) (hstart : x.start = e.stop)
    (hnew : e.len < newSz) (hfit : newSz ≤ e.len + x.len)
    (hnode : e.len + x.len < newSz + sizeofFreeBlock) :
    ∃ fl', HeapRep (growInto m (e.start + sizeofSizeT) e.len newSz x.start) fl'
        (⟨e.start, e.len + x.len⟩ :: live) ∧
      ∀ y, (∀ c ∈ fl, y ∉ c) → ¬ (e.start ≤ y ∧ y < e.start + sizeofSizeT) →
        growInto m (e.start + sizeofSizeT) e.len newSz x.start y = m y := by
  have hheader := h.growInto_header hx hstart hnew hfit
  rw [if_neg (by omega)] at hheader
  have hlen := h.len_add_lt hx hstart
  obtain ⟨as, p, bs, rfl⟩ := h.neighbor_split hx hstart
  obtain ⟨hestart, hestop, hewide⟩ := h.bounds
  obtain ⟨hlist, hunlinked, hframe⟩ := unlinkBlock_spec h.free
  have hsize := h.free.size x hx
  have hgrow : growInto m (e.start + sizeofSizeT) e.len newSz x.start =
      (unlinkBlock m x.start).save 4 e.start (e.len + x.len) := by
    have hoff : sub32 newSz e.len = newSz - e.len := sub32_eq hnew.le (by unfold heapSize at hlen; omega)
    have hrem : sub32 x.len (newSz - e.len) = x.len - (newSz - e.len) :=
      sub32_eq (by omega) (by unfold heapSize at hlen; omega)
    unfold growInto
    simp only [hsize, hoff, hrem, h.header_sub, hunlinked,
      add32_eq (show e.len + x.len < 2 ^ 32 by unfold heapSize at hlen; omega)]
    rw [if_neg (by omega)]
  rw [hgrow] at hheader ⊢
  have hsave : ∀ y, ¬ (e.start ≤ y ∧ y < e.start + sizeofSizeT) →
      (unlinkBlock m x.start).save 4 e.start (e.len + x.len) y = unlinkBlock m x.start y := by
    intro y hy
    unfold sizeofSizeT at hy
    exact Store.save_of_notMem _ (by omega)
  -- a byte of a block that stays is none of the header's
  have houtside : ∀ c : Extent, e.Apart c → ∀ y ∈ c,
      ¬ (e.start ≤ y ∧ y < e.start + sizeofSizeT) := by
    intro c hap y hy hin
    refine notMem_of_apart hap.symm hy ?_
    rw [Extent.mem_def]
    unfold Extent.stop sizeofSizeT sizeofFreeBlock at *
    omega
  have hmem : ∀ c ∈ as ++ p :: bs, c ∈ as ++ p :: x :: bs :=
    (((List.sublist_cons_self x bs).cons_cons p).append_left as).subset
  have hperm := neighbours_perm as bs live p x e
  refine ⟨as ++ p :: bs, ⟨hlist.congr fun c hc y hy => ?_, ?_, ?_, ?_⟩, fun y hy hhead => ?_⟩
  · exact hsave y (houtside c (h.apart (hmem c hc) List.mem_cons_self).symm y hy)
  · refine List.forall_mem_cons.mpr ⟨hheader, fun a ha => ?_⟩
    have ha' := List.mem_cons_of_mem e ha
    refine h.header_unchanged ha' fun y hy => ?_
    rw [hsave y (houtside a (h.apart_others a ha) y hy), hframe y (h.notMem_free ha' hy)]
  · refine List.forall_mem_cons.mpr ⟨?_, fun a ha => h.wide a (List.mem_cons_of_mem e ha)⟩
    simp only
    omega
  · have hmerged : Extent.Packed heapStart (heapStart + heapSize)
        (⟨e.start, e.len + x.len⟩ :: (as ++ p :: bs ++ live)) := by
      refine Extent.Packed.merge (h.packed.perm hperm) rfl hstart.symm ?_ ?_
      · simp only [Extent.stop] at hstart ⊢
        omega
      · intro c hc
        have hc' := List.mem_cons_of_mem e (List.mem_cons_of_mem x hc)
        have hw := h.wide_all c (hperm.mem_iff.mpr hc')
        unfold sizeofFreeBlock at hw
        omega
    exact hmerged.perm List.perm_middle.symm
  · rw [hsave y hhead, hframe y hy]

/-- INTERNAL: **an allocation moves** to the first free block that holds it. Its bytes go
along, and the block it leaves is freed.
SRCLINE: kmm.c:48-51 -/
theorem move_spec (h : HeapRep m fl (e :: live)) (hnew : e.len < newSz)
    (hfirst : firstFit fl (newSz + sizeofSizeT) = some b)
    (hhead : b.start = heapStart → newSz + sizeofSizeT + sizeofFreeBlock ≤ b.len) :
    ∃ m₁ fl' e', kmalloc m newSz = some (e'.start + sizeofSizeT, m₁) ∧
      e'.len = newSz + sizeofSizeT ∧ BeforeHeapEnd (e'.start + sizeofSizeT) e.len ∧
      HeapRep (kfree (m₁.write (e'.start + sizeofSizeT) (m₁.read (e.start + sizeofSizeT) e.len))
        (e.start + sizeofSizeT)) fl' (e' :: live) ∧
      (∀ i, i + sizeofSizeT < e.len →
        kfree (m₁.write (e'.start + sizeofSizeT) (m₁.read (e.start + sizeofSizeT) e.len))
          (e.start + sizeofSizeT) (e'.start + sizeofSizeT + i) = m (e.start + sizeofSizeT + i)) ∧
      ∀ a ∈ live, ∀ y ∈ a,
        kfree (m₁.write (e'.start + sizeofSizeT) (m₁.read (e.start + sizeofSizeT) e.len))
          (e.start + sizeofSizeT) y = m y := by
  obtain ⟨hb, hfit⟩ := mem_of_firstFit hfirst
  obtain ⟨hestart, hestop, hewide⟩ := h.bounds
  have hbin := h.free.inside b hb
  have hlt : newSz + sizeofSizeT + sizeofFreeBlock < 2 ^ 32 := by
    unfold Extent.stop heapStart heapSize sizeofFreeBlock at *
    omega
  have hbytes : allocBytes newSz = newSz + sizeofSizeT := by
    rw [allocBytes_eq (by omega)]
    unfold sizeofFreeBlock at *
    omega
  obtain ⟨m₁, fl₁, e', hrun, htaken, hlist, hheader, hframe⟩ := kmalloc_found h.free
    (by rw [hbytes]; exact hlt) (by rw [hbytes]; exact Nat.le_add_left _ _)
    (by rw [hbytes]; exact hfirst) (fun hwhole hstart => by
      have := hhead hstart
      rw [WholeFit, hbytes] at hwhole
      omega)
  have hlen : e'.len = newSz + sizeofSizeT := htaken.len_eq.trans hbytes
  have h₁ := h.kmalloc htaken hlist hheader (by rw [hbytes]; omega) hframe
  generalize hm₂ : m₁.write (e'.start + sizeofSizeT) (m₁.read (e.start + sizeofSizeT) e.len) = m₂
  have hwrite : ∀ y, ¬ (e'.start + sizeofSizeT ≤ y ∧ y < e'.stop) → m₂ y = m₁ y := by
    intro y hy
    rw [← hm₂]
    refine Store.write_of_notMem m₁ _ ?_
    rw [Store.length_read]
    unfold Extent.stop at hy
    omega
  have h₂ : HeapRep m₂ fl₁ (e' :: e :: live) := h₁.payload List.mem_cons_self hwrite
  obtain ⟨as, p, bs, -, -, -, h₃⟩ :=
    HeapRep.kfree (show HeapRep m₂ fl₁ ([e'] ++ e :: live) from h₂)
  -- what the last step and the first leave alone
  have hfreed : ∀ a ∈ e' :: live, ∀ y ∈ a, kfree m₂ (e.start + sizeofSizeT) y = m₂ y := by
    intro a ha y hy
    have ha' : a ∈ e' :: e :: live := ((List.sublist_cons_self e live).cons_cons e').subset ha
    refine h₂.kfree_frame (by simp) y (h₂.notMem_free ha' hy) ?_
    obtain rfl | ha := List.mem_cons.mp ha
    · exact notMem_of_apart (h₂.apart_others e List.mem_cons_self) hy
    · exact notMem_of_apart (h.apart_others a ha).symm hy
  have hkept : ∀ a ∈ e :: live, ∀ y ∈ a, m₁ y = m y := fun a ha y hy =>
    hframe y (h.notMem_free ha hy)
  have hend : BeforeHeapEnd (e'.start + sizeofSizeT) e.len := by
    have hb' := h₁.bounds
    unfold BeforeHeapEnd
    unfold Extent.stop at hb'
    omega
  refine ⟨m₁, as ++ coalesced p e bs, e', hrun, hlen, hend, ?_⟩
  rw [hm₂]
  refine ⟨h₃, fun i hi => ?_, fun a ha y hy => ?_⟩
  · have hmem : e'.start + sizeofSizeT + i ∈ e' := by
      rw [Extent.mem_def]
      unfold Extent.stop
      omega
    have hold : e.start + sizeofSizeT + i ∈ e := by
      rw [Extent.mem_def]
      unfold Extent.stop
      omega
    have hwritten := Store.write_add m₁ (e'.start + sizeofSizeT)
      (m₁.read (e.start + sizeofSizeT) e.len) i (by rw [Store.length_read]; omega)
    rw [Store.getElem_read, hm₂] at hwritten
    rw [hfreed e' List.mem_cons_self _ hmem, hwritten, hkept e List.mem_cons_self _ hold]
  · have ha' : a ∈ e :: live := List.mem_cons_of_mem e ha
    rw [hfreed a (List.mem_cons_of_mem e' ha) y hy, hwrite y, hkept a ha' y hy]
    intro hin
    have hap := h₁.apart_others a ha'
    refine notMem_of_apart hap.symm hy ?_
    rw [Extent.mem_def]
    omega

end LakeOS.Analysis
