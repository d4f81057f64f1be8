import LakeOS.Library.Extent
import LakeOS.Library.Ring
import LakeOS.Model.Kmm

/-!
# The free list of the kernel heap

`FreeListAt m fl` says that memory `m` holds the free blocks `fl`: the links of their
nodes form a ring that starts at `HEAP_START`, their size fields are right, and they
come in address order inside the heap.

`kmalloc` and `kfree` are described on the list `fl`.  `kmalloc` takes the last bytes of
the first block that is wide enough, or the block itself (`kmalloc_spec`); `kfree` puts
a block behind the last free block below it and merges it with the next block or, when
the two do not touch, with the previous one (`kfree_spec`).  Both leave every byte
outside the free blocks and the freed block alone.
-/

set_option autoImplicit false

namespace LakeOS.Analysis

open LakeOS.Library LakeOS.Model

/-- The links of the free blocks. -/
def blockLinks (m : Memory) : Links ℕ := ⟨blockNext m, blockPrev m⟩

/-- The nodes of `fl` are the free list of `m`. -/
structure FreeListAt (m : Memory) (fl : List Extent) : Prop where
  first : fl.head?.map Extent.start = some heapStart
  ring : (blockLinks m).Ring (fl.map Extent.start)
  size : ∀ b ∈ fl, blockSize m b.start = b.len
  wide : ∀ b ∈ fl, sizeofFreeBlock ≤ b.len
  ascending : Extent.Ascending fl
  inside : ∀ b ∈ fl, heapStart ≤ b.start ∧ b.stop ≤ heapStart + heapSize

/-- INTERNAL: wide blocks in address order start at different addresses. -/
theorem starts_nodup_of_ascending {fl : List Extent} (hasc : Extent.Ascending fl)
    (hwide : ∀ b ∈ fl, sizeofFreeBlock ≤ b.len) : (fl.map Extent.start).Nodup := by
  rw [List.Nodup, List.pairwise_map]
  refine hasc.imp_of_mem ?_
  intro a b ha _ hab
  have := hwide a ha
  unfold Extent.stop sizeofFreeBlock at *
  omega

/-- INTERNAL: the nodes of wide blocks in address order do not overlap. -/
theorem nodesApart_of_ascending {fl : List Extent} (hasc : Extent.Ascending fl)
    (hwide : ∀ b ∈ fl, sizeofFreeBlock ≤ b.len) {a b : Extent} (ha : a ∈ fl) (hb : b ∈ fl) :
    NodesApart a.start b.start := by
  have : Std.Symm fun a b : Extent => NodesApart a.start b.start := ⟨fun _ _ h => h.symm⟩
  have hpair : fl.Pairwise fun a b => NodesApart a.start b.start := by
    refine hasc.imp_of_mem ?_
    intro a b ha _ hab
    have := hwide a ha
    unfold Extent.stop at hab
    exact .inr (.inl (by omega))
  exact hpair.forall_of_forall (fun b _ => .refl b.start) ha hb

namespace FreeListAt

variable {m m' : Memory} {fl as bs : List Extent} {p x b : Extent}

theorem nodesApart (h : FreeListAt m fl) {a b : Extent} (ha : a ∈ fl) (hb : b ∈ fl) :
    NodesApart a.start b.start :=
  nodesApart_of_ascending h.ascending h.wide ha hb

theorem from_second (h : FreeListAt m (as ++ p :: x :: bs)) :
    FreeListAt m ((as ++ [p]) ++ x :: bs) := by
  rwa [List.append_assoc]

theorem eq_or_apart (h : FreeListAt m fl) {a b : Extent} (ha : a ∈ fl) (hb : b ∈ fl) :
    a = b ∨ a.Apart b := by
  have : Std.Symm fun a b : Extent => a = b ∨ a.Apart b :=
    ⟨fun _ _ h => h.imp Eq.symm Extent.Apart.symm⟩
  have hpair : fl.Pairwise fun a b => a = b ∨ a.Apart b := h.ascending.imp fun hab => .inr (.inl hab)
  exact hpair.forall_of_forall (fun _ _ => .inl rfl) ha hb

theorem starts_nodup (h : FreeListAt m fl) : (fl.map Extent.start).Nodup :=
  starts_nodup_of_ascending h.ascending h.wide

theorem start_ne (h : FreeListAt m (as ++ p :: bs)) (hb : b ∈ as ∨ b ∈ bs) :
    b.start ≠ p.start := by
  have hnd := h.starts_nodup
  simp only [List.map_append, List.map_cons, List.nodup_append, List.nodup_cons] at hnd
  intro heq
  cases hb with
  | inl ha => exact hnd.2.2 b.start (List.mem_map_of_mem ha) p.start List.mem_cons_self heq
  | inr hb => exact hnd.2.1.1 (heq ▸ List.mem_map_of_mem hb)

theorem ne_nil (h : FreeListAt m fl) : fl ≠ [] := by
  rintro rfl
  exact absurd h.first (by simp)

/-- A block of the list is addressed by 32 bits. -/
theorem stop_lt (h : FreeListAt m fl) (hb : b ∈ fl) :
    b.start + sizeofFreeBlock ≤ b.stop ∧ b.stop < 2 ^ 32 := by
  have h₁ := h.inside b hb
  have h₂ := h.wide b hb
  unfold Extent.stop heapStart heapSize at *
  omega

/-- INTERNAL: the bytes of one block are outside the nodes of the others. -/
theorem node_outside (h : FreeListAt m fl) {a b : Extent} (ha : a ∈ fl) (hb : b ∈ fl)
    (hne : a.start ≠ b.start) : a.start + sizeofFreeBlock ≤ b.start ∨ b.stop ≤ a.start := by
  have := (h.stop_lt ha).1
  cases h.eq_or_apart ha hb with
  | inl heq => exact absurd (congrArg Extent.start heq) hne
  | inr hap =>
      unfold Extent.Apart at hap
      omega

theorem length_le (h : FreeListAt m fl) : fl.length ≤ heapSize := by
  have h₁ := Extent.total_le_of_ascending h.ascending h.inside (by decide)
  have h₂ := Extent.mul_length_le_total h.wide
  unfold sizeofFreeBlock at h₂
  omega

/-- The list is read from the bytes of its blocks only. -/
theorem congr (h : FreeListAt m fl) (hmem : ∀ b ∈ fl, ∀ x ∈ b, m' x = m x) :
    FreeListAt m' fl := by
  have hload : ∀ b ∈ fl, ∀ i, i + 4 ≤ sizeofFreeBlock →
      m'.load 4 (b.start + i) = m.load 4 (b.start + i) := by
    intro b hb i hi
    refine Store.load_congr fun x hlo hhi => hmem b hb x (Extent.mem_def.mpr ⟨by omega, ?_⟩)
    have := (h.stop_lt hb).1
    omega
  refine ⟨h.first, h.ring.congr ?_ ?_, ?_, h.wide, h.ascending, h.inside⟩
  · intro a ha
    obtain ⟨b, hb, rfl⟩ := List.mem_map.mp ha
    exact hload b hb 4 (by decide)
  · intro a ha
    obtain ⟨b, hb, rfl⟩ := List.mem_map.mp ha
    exact hload b hb 8 (by decide)
  · intro b hb
    rw [← h.size b hb]
    exact hload b hb 0 (by decide)

/-! ## The links -/

/-- INTERNAL: two nodes that follow each other name each other. -/
theorem next_prev (h : FreeListAt m (as ++ p :: x :: bs)) :
    blockNext m p.start = x.start ∧ blockPrev m x.start = p.start := by
  have hring := h.ring
  rw [List.map_append] at hring
  exact (Links.ring_append_comm hring).next_prev

/-- INTERNAL: the node behind the last one is the first. -/
theorem next_last (h : FreeListAt m (as ++ [p])) : blockNext m p.start = heapStart := by
  have hring := h.ring
  rw [List.map_append] at hring
  have hnext := (Links.ring_append_comm hring).next_prev_head.1
  have hfirst := h.first
  cases as with
  | nil =>
      simp only [List.nil_append, List.head?_cons, Option.map_some, Option.some.injEq] at hfirst
      rw [← hfirst]
      exact hnext
  | cons a as =>
      simp only [List.cons_append, List.head?_cons, Option.map_some, Option.some.injEq] at hfirst
      rw [← hfirst]
      exact hnext

/-- INTERNAL: the successor of a node is a node. -/
theorem next_mem (h : FreeListAt m fl) (hb : b ∈ fl) :
    ∃ n ∈ fl, n.start = blockNext m b.start :=
  List.mem_map.mp (h.ring.next_mem (List.mem_map_of_mem hb))

/-- INTERNAL: a node is the predecessor of its successor. -/
theorem prev_next (h : FreeListAt m fl) (hb : b ∈ fl) :
    blockPrev m (blockNext m b.start) = b.start :=
  h.ring.prev_next (List.mem_map_of_mem hb)

/-- INTERNAL: a node that is not the head is not its own successor. -/
theorem next_ne (h : FreeListAt m (as ++ p :: x :: bs)) : blockNext m x.start ≠ x.start := by
  intro heq
  have hself := h.prev_next (b := x) (by simp)
  rw [heq, h.next_prev.2] at hself
  exact h.start_ne (.inr List.mem_cons_self) hself.symm

/-- INTERNAL: a block leaves the ring. -/
theorem ring_unlink (h : FreeListAt m (as ++ p :: x :: bs))
    (hnext : ∀ b ∈ as ++ p :: bs, blockNext m' b.start =
      if b.start = p.start then blockNext m x.start else blockNext m b.start)
    (hprev : ∀ b ∈ as ++ p :: bs, blockPrev m' b.start =
      if b.start = blockNext m x.start then p.start else blockPrev m b.start) :
    (blockLinks m').Ring ((as ++ p :: bs).map Extent.start) := by
  have hring := h.ring
  have hnd := h.starts_nodup
  rw [List.map_append, List.map_cons] at hring hnd ⊢
  rw [List.map_cons] at hring hnd
  refine hring.unlinkAt hnd ?_ ?_
  · intro y hy
    rw [← List.map_cons, ← List.map_append] at hy
    obtain ⟨b, hb, rfl⟩ := List.mem_map.mp hy
    exact hnext b hb
  · intro y hy
    rw [← List.map_cons, ← List.map_append] at hy
    obtain ⟨b, hb, rfl⟩ := List.mem_map.mp hy
    exact hprev b hb

/-- INTERNAL: a block enters the ring. -/
theorem ring_link (h : FreeListAt m (as ++ p :: bs))
    (hnd : ((as ++ p :: x :: bs).map Extent.start).Nodup)
    (hnext : ∀ b ∈ as ++ p :: x :: bs, blockNext m' b.start =
      if b.start = x.start then blockNext m p.start
      else if b.start = p.start then x.start else blockNext m b.start)
    (hprev : ∀ b ∈ as ++ p :: x :: bs, blockPrev m' b.start =
      if b.start = x.start then p.start
      else if b.start = blockNext m p.start then x.start else blockPrev m b.start) :
    (blockLinks m').Ring ((as ++ p :: x :: bs).map Extent.start) := by
  have hring := h.ring
  rw [List.map_append, List.map_cons] at hring hnd ⊢
  rw [List.map_cons] at hnd ⊢
  refine hring.linkAt hnd ?_ ?_
  · intro y hy
    rw [← List.map_cons, ← List.map_cons, ← List.map_append] at hy
    obtain ⟨b, hb, rfl⟩ := List.mem_map.mp hy
    exact hnext b hb
  · intro y hy
    rw [← List.map_cons, ← List.map_cons, ← List.map_append] at hy
    obtain ⟨b, hb, rfl⟩ := List.mem_map.mp hy
    exact hprev b hb

/-! ## Surgery on the list -/

theorem first_middle (h : FreeListAt m (as ++ p :: bs)) {p' : Extent} {cs : List Extent}
    (hstart : p'.start = p.start) :
    (as ++ p' :: cs).head?.map Extent.start = some heapStart := by
  have hfirst := h.first
  cases as with
  | nil => simpa [hstart] using hfirst
  | cons a as => simpa using hfirst

/-- INTERNAL: a block shrinks from its end. -/
theorem shrink (h : FreeListAt m (as ++ p :: bs)) {p' : Extent} (hstart : p'.start = p.start)
    (hlen : p'.len ≤ p.len) (hwide : sizeofFreeBlock ≤ p'.len)
    (hnext : ∀ b ∈ as ++ p :: bs, blockNext m' b.start = blockNext m b.start)
    (hprev : ∀ b ∈ as ++ p :: bs, blockPrev m' b.start = blockPrev m b.start)
    (hsize : ∀ b ∈ as ++ p' :: bs, blockSize m' b.start = b.len) :
    FreeListAt m' (as ++ p' :: bs) := by
  have hstop : p'.stop ≤ p.stop := by
    unfold Extent.stop
    omega
  have hstarts : (as ++ p' :: bs).map Extent.start = (as ++ p :: bs).map Extent.start := by
    simp [hstart]
  refine ⟨h.first_middle hstart, ?_, hsize, ?_, ?_, ?_⟩
  · rw [hstarts]
    refine h.ring.congr ?_ ?_
    · intro y hy
      obtain ⟨b, hb, rfl⟩ := List.mem_map.mp hy
      exact hnext b hb
    · intro y hy
      obtain ⟨b, hb, rfl⟩ := List.mem_map.mp hy
      exact hprev b hb
  · have hw := h.wide
    simp only [List.forall_mem_append, List.forall_mem_cons] at hw ⊢
    exact ⟨hw.1, hwide, hw.2.2⟩
  · have hasc := h.ascending
    rw [Extent.ascending_middle] at hasc ⊢
    exact ⟨hasc.1, fun a ha => hstart ▸ hasc.2.1 a ha, fun b hb => hstop.trans (hasc.2.2 b hb)⟩
  · have hin := h.inside
    simp only [List.forall_mem_append, List.forall_mem_cons] at hin ⊢
    exact ⟨hin.1, by omega, hin.2.2⟩

/-- INTERNAL: the block behind `p` leaves the list, or is merged into `p`. -/
theorem unlink (h : FreeListAt m (as ++ p :: x :: bs)) {p' : Extent} (hstart : p'.start = p.start)
    (hstop : p'.stop = p.stop ∨ p'.stop = x.stop)
    (hnext : ∀ b ∈ as ++ p :: bs, blockNext m' b.start =
      if b.start = p.start then blockNext m x.start else blockNext m b.start)
    (hprev : ∀ b ∈ as ++ p :: bs, blockPrev m' b.start =
      if b.start = blockNext m x.start then p.start else blockPrev m b.start)
    (hsize : ∀ b ∈ as ++ p' :: bs, blockSize m' b.start = b.len) :
    FreeListAt m' (as ++ p' :: bs) := by
  obtain ⟨hasx, hap, hpx⟩ := Extent.ascending_middle.mp h.ascending
  obtain ⟨hasc, -, hxb⟩ := Extent.ascending_middle.mp hasx
  have hpstop : p.stop ≤ x.start := hpx x List.mem_cons_self
  have hxwide := h.wide x (by simp)
  have hlen : p.len ≤ p'.len := by
    unfold Extent.stop at *
    omega
  have hstarts : (as ++ p' :: bs).map Extent.start = (as ++ p :: bs).map Extent.start := by
    simp [hstart]
  have hw := h.wide
  have hin := h.inside
  simp only [List.forall_mem_append, List.forall_mem_cons] at hw hin
  refine ⟨h.first_middle hstart, hstarts ▸ h.ring_unlink hnext hprev, hsize, ?_, ?_, ?_⟩
  · simp only [List.forall_mem_append, List.forall_mem_cons]
    exact ⟨hw.1, hw.2.1.trans hlen, hw.2.2.2⟩
  · refine Extent.ascending_middle.mpr ⟨hasc, fun a ha => hstart ▸ hap a ha, fun b hb => ?_⟩
    cases hstop with
    | inl hp => exact hp ▸ hpx b (List.mem_cons_of_mem x hb)
    | inr hx => exact hx ▸ hxb b hb
  · simp only [List.forall_mem_append, List.forall_mem_cons]
    exact ⟨hin.1, by omega, hin.2.2.2⟩

/-- INTERNAL: a block enters the list behind `p`. -/
theorem link (h : FreeListAt m (as ++ p :: bs)) (hpx : p.stop ≤ x.start)
    (hxb : ∀ b ∈ bs, x.stop ≤ b.start) (hwide : sizeofFreeBlock ≤ x.len)
    (hstop : x.stop ≤ heapStart + heapSize)
    (hnext : ∀ b ∈ as ++ p :: x :: bs, blockNext m' b.start =
      if b.start = x.start then blockNext m p.start
      else if b.start = p.start then x.start else blockNext m b.start)
    (hprev : ∀ b ∈ as ++ p :: x :: bs, blockPrev m' b.start =
      if b.start = x.start then p.start
      else if b.start = blockNext m p.start then x.start else blockPrev m b.start)
    (hsize : ∀ b ∈ as ++ p :: x :: bs, blockSize m' b.start = b.len) :
    FreeListAt m' (as ++ p :: x :: bs) := by
  have hw := h.wide
  have hin := h.inside
  simp only [List.forall_mem_append, List.forall_mem_cons] at hw hin
  have hascending : Extent.Ascending (as ++ p :: x :: bs) := h.ascending.insert hpx hxb
  have hwide' : ∀ b ∈ as ++ p :: x :: bs, sizeofFreeBlock ≤ b.len := by
    simp only [List.forall_mem_append, List.forall_mem_cons]
    exact ⟨hw.1, hw.2.1, hwide, hw.2.2⟩
  have hnd : ((as ++ p :: x :: bs).map Extent.start).Nodup := 
    starts_nodup_of_ascending hascending hwide'
  refine ⟨h.first_middle rfl, h.ring_link hnd hnext hprev, hsize, hwide', hascending, ?_⟩
  simp only [List.forall_mem_append, List.forall_mem_cons]
  unfold Extent.stop at *
  exact ⟨hin.1, hin.2.1, by omega, hin.2.2⟩

/-- INTERNAL: a node moves within the gap behind `p`, its block keeping its end. -/
theorem relocate {y : Extent} (h : FreeListAt m (as ++ p :: x :: bs)) (hstop : y.stop = x.stop)
    (hpy : p.stop ≤ y.start) (hwide : sizeofFreeBlock ≤ y.len)
    (hnext : ∀ b ∈ as ++ p :: y :: bs, blockNext m' b.start =
      if b.start = y.start then blockNext m x.start
      else if b.start = p.start then y.start else blockNext m b.start)
    (hprev : ∀ b ∈ as ++ p :: y :: bs, blockPrev m' b.start =
      if b.start = y.start then p.start
      else if b.start = blockNext m x.start then y.start else blockPrev m b.start)
    (hsize : ∀ b ∈ as ++ p :: y :: bs, blockSize m' b.start = b.len) :
    FreeListAt m' (as ++ p :: y :: bs) := by
  obtain ⟨hasc, hap, hpx⟩ := Extent.ascending_middle.mp h.ascending
  have hxb := (Extent.ascending_middle.mp h.from_second.ascending).2.2
  have hw := h.wide
  have hin := h.inside
  simp only [List.forall_mem_append, List.forall_mem_cons] at hw hin
  have hascending : Extent.Ascending (as ++ p :: y :: bs) := by
    have hrest : Extent.Ascending (as ++ p :: bs) :=
      Extent.ascending_middle.mpr ⟨(List.Pairwise.sublist (by simp) hasc), hap,
        fun b hb => hpx b (List.mem_cons_of_mem x hb)⟩
    exact hrest.insert hpy fun b hb => hstop ▸ hxb b hb
  have hwide' : ∀ b ∈ as ++ p :: y :: bs, sizeofFreeBlock ≤ b.len := by
    simp only [List.forall_mem_append, List.forall_mem_cons]
    exact ⟨hw.1, hw.2.1, hwide, hw.2.2.2⟩
  have hnd := h.starts_nodup
  have hnd' := starts_nodup_of_ascending hascending hwide'
  have hring := h.ring
  refine ⟨h.first_middle rfl, ?_, hsize, hwide', hascending, ?_⟩
  · rw [List.map_append, List.map_cons, List.map_cons] at hring hnd hnd' ⊢
    refine hring.replaceAt hnd hnd' (fun z hz => ?_) fun z hz => ?_
    · rw [← List.map_cons, ← List.map_cons, ← List.map_append] at hz
      obtain ⟨b, hb, rfl⟩ := List.mem_map.mp hz
      exact hnext b hb
    · rw [← List.map_cons, ← List.map_cons, ← List.map_append] at hz
      obtain ⟨b, hb, rfl⟩ := List.mem_map.mp hz
      exact hprev b hb
  · simp only [List.forall_mem_append, List.forall_mem_cons]
    have hple : p.start ≤ p.stop := Nat.le_add_right _ _
    exact ⟨hin.1, hin.2.1, by omega, hin.2.2.2⟩

/-- INTERNAL: the nodes up to `p` are on every list whose links agree up to there. -/
theorem start_mem (h : FreeListAt m (as ++ p :: bs)) {fl' : List Extent} (h' : FreeListAt m' fl')
    (hnext : ∀ c ∈ as, blockNext m' c.start = blockNext m c.start) :
    ∃ c ∈ fl', c.start = p.start := by
  induction as using List.reverseRecOn generalizing p bs with
  | nil =>
      have hp : p.start = heapStart := by simpa using h.first
      obtain ⟨hd, tl, rfl⟩ := List.exists_cons_of_ne_nil h'.ne_nil
      exact ⟨hd, List.mem_cons_self, (by simpa using h'.first : hd.start = heapStart).trans hp.symm⟩
  | append_singleton as a ih =>
      rw [List.append_assoc, List.singleton_append] at h
      obtain ⟨c, hc, hca⟩ := ih h fun c hc => hnext c (by simp [hc])
      obtain ⟨n, hn, hcn⟩ := h'.next_mem hc
      refine ⟨n, hn, ?_⟩
      rw [hcn, hca, hnext a (by simp), h.next_prev.1]

end FreeListAt

end LakeOS.Analysis
