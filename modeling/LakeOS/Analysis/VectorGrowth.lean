import LakeOS.Analysis.Realloc
import LakeOS.Library.Runs

/-!
# Growing vectors with `kexpand`

`kexpand` adds the increment to the size in the header, so the block it asks for is large
enough in every branch.  When the allocation grows in place and a node is left over, the
node moves up with a `memmove` that starts behind its last word: the word after the node
goes along (`spill`).  In a free block that is narrower than the increment and 16 bytes
this word lands behind the block.  The copy of an allocation that moves reads a word behind
it.  `kexpand_grows_vectors` says when this, or the head of the list being handed out, does
harm.
-/

set_option autoImplicit false

namespace LakeOS.Analysis

open LakeOS.Library LakeOS.Model

variable {m m' s : Memory} {fl fl' as bs live : List Extent} {p x e b y : Extent} {inc : ℕ}

/-! ## The node that moves -/

/-- The word behind the node at `x`, copied behind the node that moves up by `inc` bytes.
SRCLINE: memmove.c:25-33 -/
def spill (m : Memory) (x inc : ℕ) : Memory :=
  m.save 4 (x + inc + sizeofFreeBlock) (m.load 4 (x + sizeofFreeBlock))

theorem spill_of_notMem {x z : ℕ}
    (hz : z < x + inc + sizeofFreeBlock ∨ x + inc + sizeofFreeBlock + 4 ≤ z) :
    spill m x inc z = m z :=
  Store.save_of_notMem m hz

/-- Memory with a node at `moved` between the nodes `prev` and `next`. -/
def placeNode (m : Memory) (moved rem prev next : ℕ) : Memory :=
  setPrev (setNext (setSize (setNext (setPrev m moved prev) moved next) moved rem) prev moved)
    next moved

/-- INTERNAL: the fields after a node was placed. -/
theorem placeNode_fields {moved rem prev next q : ℕ} (hm : NodesApart moved q)
    (hp : NodesApart prev q) (hn : NodesApart next q) (hpm : prev ≠ moved) (hnm : next ≠ moved)
    (hmlt : moved < 2 ^ 32) (hrlt : rem < 2 ^ 32) (hplt : prev < 2 ^ 32) (hnlt : next < 2 ^ 32) :
    blockSize (placeNode m moved rem prev next) q = (if q = moved then rem else blockSize m q) ∧
    blockNext (placeNode m moved rem prev next) q =
      (if q = moved then next else if q = prev then moved else blockNext m q) ∧
    blockPrev (placeNode m moved rem prev next) q =
      if q = moved then prev else if q = next then moved else blockPrev m q := by
  unfold placeNode
  refine ⟨?_, ?_, ?_⟩
  · rw [blockSize_setPrev _ hn hmlt, blockSize_setNext _ hp hmlt, blockSize_setSize _ hm hrlt,
      blockSize_setNext _ hm hnlt, blockSize_setPrev _ hm hplt]
  · rw [blockNext_setPrev _ hn hmlt, blockNext_setNext _ hp hmlt, blockNext_setSize _ hm hrlt,
      blockNext_setNext _ hm hnlt, blockNext_setPrev _ hm hplt]
    split
    · next heq => rw [if_neg (heq ▸ hpm)]
    · rfl
  · rw [blockPrev_setPrev _ hn hmlt, blockPrev_setNext _ hp hmlt, blockPrev_setSize _ hm hrlt,
      blockPrev_setNext _ hm hnlt, blockPrev_setPrev _ hm hplt]
    split
    · next heq => rw [if_neg (heq ▸ hnm)]
    · rfl

/-- INTERNAL: placing a node writes to three nodes only. -/
theorem placeNode_of_notMem {moved rem prev next z : ℕ}
    (hm : z < moved ∨ moved + sizeofFreeBlock ≤ z) (hp : z < prev ∨ prev + sizeofFreeBlock ≤ z)
    (hn : z < next ∨ next + sizeofFreeBlock ≤ z) : placeNode m moved rem prev next z = m z := by
  unfold placeNode
  rw [setPrev_of_notMem _ hn, setNext_of_notMem _ hp, setSize_of_notMem _ hm,
    setNext_of_notMem _ hm, setPrev_of_notMem _ hm]

/-- INTERNAL: `memmove` of a node upwards: the word behind it first, then its links.
SRCLINE: memmove.c:25-33 -/
theorem memmoveNode_up {x : ℕ} (hinc : 0 < inc) :
    memmoveNode m (x + inc) x =
      setNext (setPrev (spill m x inc) (x + inc) (blockPrev m x)) (x + inc) (blockNext m x) := by
  have hprev : (spill m x inc).load 4 (x + 8) = m.load 4 (x + 8) := by
    unfold spill sizeofFreeBlock
    exact Store.load_save_disjoint m (by omega)
  have hnext : ((spill m x inc).save 4 (x + inc + 8) (m.load 4 (x + 8))).load 4 (x + 4) =
      m.load 4 (x + 4) := by
    rw [Store.load_save_disjoint _ (by omega)]
    unfold spill sizeofFreeBlock
    exact Store.load_save_disjoint m (by omega)
  unfold memmoveNode
  rw [if_neg (by omega)]
  simp only [List.foldl_cons, List.foldl_nil]
  unfold setNext setPrev blockPrev blockNext
  rw [← hnext, ← hprev]
  rfl

/-- INTERNAL: an allocation grows in place and leaves a node.
SRCLINE: kmm.c:28-36 -/
theorem growInto_node (h : HeapRep m (as ++ p :: x :: bs) (e :: live)) (hstart : x.start = e.stop)
    (hinc : 0 < inc) (hnode : inc + sizeofFreeBlock ≤ x.len) :
    growInto m (e.start + sizeofSizeT) e.len (e.len + inc) x.start =
      (placeNode (spill m x.start inc) (x.start + inc) (x.len - inc) p.start
        (blockNext m x.start)).save 4 e.start (e.len + inc) := by
  have hp : p ∈ as ++ p :: x :: bs := by simp
  have hx : x ∈ as ++ p :: x :: bs := by simp
  obtain ⟨hxwide, hxlt⟩ := h.free.stop_lt hx
  obtain ⟨hpwide, hplt⟩ := h.free.stop_lt hp
  have hpx := (Extent.ascending_middle.mp h.free.ascending).2.2 x List.mem_cons_self
  have hlen := h.len_add_lt hx hstart
  have hxstop : x.stop = x.start + x.len := rfl
  have hnextlt := blockNext_lt m x.start
  have hprev := h.free.next_prev.2
  have hoff : sub32 (e.len + inc) e.len = inc := by
    rw [sub32_eq (Nat.le_add_right _ _) (by unfold heapSize at hlen; omega), Nat.add_sub_cancel_left]
  have hrem : sub32 x.len inc = x.len - inc := sub32_eq (by omega) (by omega)
  have hmoved : add32 x.start inc = x.start + inc := add32_eq (by omega)
  have hself := NodesApart.refl (x.start + inc)
  have hpm : NodesApart p.start (x.start + inc) := .inr (.inl (by omega))
  have hmlt : x.start + inc < 2 ^ 32 := by omega
  have hrlt : x.len - inc < 2 ^ 32 := by omega
  have hplt' : p.start < 2 ^ 32 := by omega
  unfold growInto
  dsimp only
  rw [h.free.size x hx, hoff, hrem, if_pos (by omega), hmoved, h.header_sub,
    memmoveNode_up hinc, hprev]
  -- the links that the moved node is found by are its own, copied ones
  have hreadPrev : blockPrev (setSize (setNext (setPrev (spill m x.start inc) (x.start + inc)
      p.start) (x.start + inc) (blockNext m x.start)) (x.start + inc) (x.len - inc))
      (x.start + inc) = p.start := by
    rw [blockPrev_setSize _ hself hrlt, blockPrev_setNext _ hself hnextlt,
      blockPrev_setPrev _ hself hplt', if_pos rfl]
  have hreadNext : blockNext (setNext (setSize (setNext (setPrev (spill m x.start inc)
      (x.start + inc) p.start) (x.start + inc) (blockNext m x.start)) (x.start + inc)
      (x.len - inc)) p.start (x.start + inc)) (x.start + inc) = blockNext m x.start := by
    rw [blockNext_setNext _ hpm hmlt, if_neg (by omega), blockNext_setSize _ hself hrlt,
      blockNext_setNext _ hself hnextlt, if_pos rfl]
  rw [hreadPrev, hreadNext]
  rfl

/-! ## What the node leaves behind

`grown` is the memory after the growth.  It differs from memory with the word copied
behind the node (`spill`) in three nodes and a header. -/

/-- Memory after the block `e` has grown by `inc` bytes into the block `x` behind it. -/
def grown (m : Memory) (e x : Extent) (inc : ℕ) : Memory :=
  growInto m (e.start + sizeofSizeT) e.len (e.len + inc) x.start

/-- The word that goes along does no harm: the free list is well-formed with it, and no
other allocation has changed. -/
def SpillHarmless (m : Memory) (e x : Extent) (live : List Extent) (inc : ℕ) : Prop :=
  ∃ fl', HeapRep (spill m x.start inc) fl' (e :: live) ∧
    ∀ a ∈ live, ∀ z ∈ a, spill m x.start inc z = m z

/-- INTERNAL: nodes up to the place of the moved one are as they were. -/
theorem spill_node {x q : ℕ} (hq : q ≤ x + inc) :
    blockSize (spill m x inc) q = blockSize m q ∧ blockNext (spill m x inc) q = blockNext m q ∧
      blockPrev (spill m x inc) q = blockPrev m q := by
  unfold spill sizeofFreeBlock
  refine ⟨?_, ?_, ?_⟩
  · exact Store.load_save_disjoint m (by omega)
  · exact Store.load_save_disjoint m (by omega)
  · exact Store.load_save_disjoint m (by omega)

/-- INTERNAL: of a node behind, the size may change, but not the link to the one before. -/
theorem spill_prev {x q : ℕ} (hq : q ≤ x + inc ∨ x + inc + sizeofFreeBlock ≤ q) :
    blockPrev (spill m x inc) q = blockPrev m q := by
  obtain hle | hge := hq
  · exact (spill_node hle).2.2
  · unfold spill sizeofFreeBlock at *
    exact Store.load_save_disjoint m (by omega)

/-- A free block behind `e` that is wide enough for `inc` bytes and a node. -/
structure NodeLeft (m : Memory) (as bs live : List Extent) (p x e : Extent) (inc : ℕ) : Prop where
  rep : HeapRep m (as ++ p :: x :: bs) (e :: live)
  touch : x.start = e.stop
  pos : 0 < inc
  node : inc + sizeofFreeBlock ≤ x.len

namespace NodeLeft

variable (h : NodeLeft m as bs live p x e inc)

include h in
/-- INTERNAL: the addresses involved. -/
theorem bounds : p.start + sizeofFreeBlock ≤ p.stop ∧ p.stop ≤ x.start ∧
    x.start + inc + sizeofFreeBlock ≤ x.stop ∧ x.stop < 2 ^ 32 ∧
    heapStart < e.start ∧ e.start + sizeofFreeBlock ≤ x.start := by
  have hp := h.rep.free.stop_lt (b := p) (by simp)
  have hx := h.rep.free.stop_lt (b := x) (by simp)
  have hpx := (Extent.ascending_middle.mp h.rep.free.ascending).2.2 x List.mem_cons_self
  have hb := h.rep.bounds
  have htouch := h.touch
  have hnode := h.node
  unfold Extent.stop at *
  omega

include h in
/-- INTERNAL: the node behind the moved one lies before or behind the block. -/
theorem next_apart : blockNext m x.start < 2 ^ 32 ∧
    (blockNext m x.start + sizeofFreeBlock ≤ x.start ∨ x.stop ≤ blockNext m x.start) := by
  refine ⟨blockNext_lt m x.start, ?_⟩
  obtain ⟨n, hn, hstart⟩ := h.rep.free.next_mem (b := x) (by simp)
  rw [← hstart]
  exact h.rep.free.node_outside hn (by simp) (hstart.trans_ne h.rep.free.next_ne)

include h in
/-- INTERNAL: the fields of a node apart from those involved. -/
theorem grown_fields {q : ℕ} (hm : NodesApart (x.start + inc) q) (hp : NodesApart p.start q)
    (hn : NodesApart (blockNext m x.start) q)
    (he : q + sizeofFreeBlock ≤ e.start ∨ e.start + 4 ≤ q) :
    blockSize (grown m e x inc) q =
      (if q = x.start + inc then x.len - inc else blockSize (spill m x.start inc) q) ∧
    blockNext (grown m e x inc) q =
      (if q = x.start + inc then blockNext m x.start
      else if q = p.start then x.start + inc else blockNext (spill m x.start inc) q) ∧
    blockPrev (grown m e x inc) q =
      if q = x.start + inc then p.start
      else if q = blockNext m x.start then x.start + inc
      else blockPrev (spill m x.start inc) q := by
  have hb := h.bounds
  obtain ⟨hnlt, hnx⟩ := h.next_apart
  have hxstop : x.stop = x.start + x.len := rfl
  rw [grown, growInto_node h.rep h.touch h.pos h.node]
  obtain ⟨hsize, hnext, hprev⟩ := fields_save_header (v := e.len + inc)
    (m := placeNode (spill m x.start inc) (x.start + inc) (x.len - inc) p.start
      (blockNext m x.start)) he
  rw [hsize, hnext, hprev]
  unfold sizeofFreeBlock at hb hnx
  exact placeNode_fields hm hp hn (by omega) (by omega) (by omega) (by omega) (by omega) hnlt

include h in
/-- INTERNAL: bytes outside the nodes and the header are as the copied word left them. -/
theorem grown_of_notMem {z : ℕ}
    (hm : z < x.start + inc ∨ x.start + inc + sizeofFreeBlock ≤ z)
    (hp : z < p.start ∨ p.start + sizeofFreeBlock ≤ z)
    (hn : z < blockNext m x.start ∨ blockNext m x.start + sizeofFreeBlock ≤ z)
    (he : z < e.start ∨ e.start + 4 ≤ z) : grown m e x inc z = spill m x.start inc z := by
  rw [grown, growInto_node h.rep h.touch h.pos h.node, Store.save_of_notMem _ he]
  exact placeNode_of_notMem hm hp hn

include h in
theorem header : blockSize (grown m e x inc) e.start = e.len + inc := by
  have hpos := h.pos
  have hnode := h.node
  rw [grown, h.rep.growInto_header (by simp) h.touch (by omega) (by omega), if_pos (by omega)]

/-- INTERNAL: a byte of another block is not one of a node. -/
theorem outside_node {c a : Extent} (hwide : sizeofFreeBlock ≤ c.len) (hap : c.Apart a) {z : ℕ}
    (hz : z ∈ a) : z < c.start ∨ c.start + sizeofFreeBlock ≤ z := by
  rw [Extent.mem_def] at hz
  unfold Extent.Apart Extent.stop at hap
  unfold Extent.stop at hz
  omega

include h in
/-- INTERNAL: the allocation keeps its bytes. -/
theorem grown_contents (i : ℕ) (hi : i + sizeofSizeT < e.len) :
    grown m e x inc (e.start + sizeofSizeT + i) = m (e.start + sizeofSizeT + i) := by
  obtain ⟨n, hn, hnx⟩ := h.rep.free.next_mem (b := x) (by simp)
  have hp : p ∈ as ++ p :: x :: bs := by simp
  have htouch := h.touch
  have hold : e.start + sizeofSizeT + i ∈ e := by
    rw [Extent.mem_def]
    unfold Extent.stop
    omega
  have hzp := outside_node (h.rep.free.wide p hp) (h.rep.apart hp List.mem_cons_self) hold
  have hzn := outside_node (h.rep.free.wide n hn) (h.rep.apart hn List.mem_cons_self) hold
  rw [hnx] at hzn
  rw [Extent.mem_def] at hold
  rw [h.grown_of_notMem (by omega) hzp hzn (by unfold sizeofSizeT; omega),
    spill_of_notMem (by omega)]

include h in
/-- INTERNAL: the block is on the list that is read with the copied word, and so are its
neighbours. -/
theorem spill_split {fl' : List Extent} (h' : HeapRep (spill m x.start inc) fl' (e :: live)) :
    ∃ as' p' bs' n, fl' = as' ++ p' :: x :: bs' ∧ p'.start = p.start ∧
      n ∈ fl' ∧ n.start = blockNext m x.start := by
  obtain ⟨c, hc, hcx⟩ := h.rep.free.from_second.start_mem h'.free (by
    intro c hc
    have hcle : c.start ≤ x.start := by
      have := (Extent.ascending_middle.mp h.rep.free.from_second.ascending).2.1 c hc
      unfold Extent.stop at this
      omega
    exact (spill_node (by omega)).2.1)
  have hxm := h.rep.free.size x (by simp)
  obtain rfl : c = x := by
    have hcsize := h'.free.size c hc
    rw [hcx, (spill_node (Nat.le_add_right _ _)).1, hxm] at hcsize
    exact Extent.ext hcx hcsize.symm
  obtain ⟨as', p', bs', rfl⟩ := h'.neighbor_split hc h.touch
  have hprev := h'.free.next_prev.2
  rw [(spill_node (Nat.le_add_right _ _)).2.2, h.rep.free.next_prev.2] at hprev
  obtain ⟨n, hn, hstart⟩ := h'.free.next_mem hc
  rw [(spill_node (Nat.le_add_right _ _)).2.1] at hstart
  exact ⟨as', p', bs', n, rfl, hprev.symm, hn, hstart⟩

include h in
/-- INTERNAL: a byte of another allocation is outside everything else that was written. -/
theorem grown_live {fl' : List Extent} {c e' p' n : Extent} (h' : HeapRep s fl' (e' :: live))
    (hc : c ∈ fl') (hstart : c.start ≤ x.start + inc)
    (hstop : x.start + inc + sizeofFreeBlock ≤ c.stop) (hp : p' ∈ fl') (hp' : p'.start = p.start)
    (hn : n ∈ fl') (hnx : n.start = blockNext m x.start) (he : e'.start = e.start) :
    ∀ a ∈ live, ∀ z ∈ a, grown m e x inc z = spill m x.start inc z := by
  intro a ha z hz
  have ha' := List.mem_cons_of_mem e' ha
  have hzc := notMem_of_apart (h'.apart hc ha').symm hz
  have hzp := outside_node (h'.free.wide p' hp) (h'.apart hp ha') hz
  have hzn := outside_node (h'.free.wide n hn) (h'.apart hn ha') hz
  have hze := outside_node (h'.wide e' List.mem_cons_self) (h'.apart_others a ha) hz
  rw [Extent.mem_def] at hzc
  rw [hp'] at hzp
  rw [hnx] at hzn
  rw [he] at hze
  exact h.grown_of_notMem (by omega) hzp hzn (by unfold sizeofFreeBlock at hze; omega)

/-- INTERNAL: the border between the allocation and the free block behind it moves. -/
theorem packed_reborder {as bs live : List Extent} {p x y e e' : Extent}
    (h : Extent.Packed heapStart (heapStart + heapSize) (as ++ p :: x :: bs ++ e :: live))
    (hpos : ∀ c ∈ as ++ p :: x :: bs ++ e :: live, 0 < c.len) (htouch : e.stop = x.start)
    (hstart : e'.start = e.start) (hborder : e'.stop = y.start) (hstop : y.stop = x.stop) :
    Extent.Packed heapStart (heapStart + heapSize) (as ++ p :: y :: bs ++ e' :: live) := by
  have hperm := neighbours_perm as bs live p
  refine ((h.perm (hperm x e)).reborder htouch hstart hborder hstop fun c hc => ?_).perm
    (hperm y e').symm
  exact hpos c ((hperm x e).mem_iff.mpr (List.mem_cons_of_mem e (List.mem_cons_of_mem x hc)))

include h in
/-- INTERNAL: the free list with the moved node.
SRCLINE: kmm.c:28-36 -/
theorem grown_list {as' bs' : List Extent} {p' n : Extent}
    (h' : HeapRep (spill m x.start inc) (as' ++ p' :: x :: bs') (e :: live))
    (hp' : p'.start = p.start) (hn : n ∈ as' ++ p' :: x :: bs')
    (hnx : n.start = blockNext m x.start) :
    FreeListAt (grown m e x inc) (as' ++ p' :: ⟨x.start + inc, x.len - inc⟩ :: bs') := by
  obtain ⟨hpwide, hpx, hxinc, hxlt, hestart, hex⟩ := h.bounds
  have hpos := h.pos
  have hxstop : x.stop = x.start + x.len := rfl
  have hp'mem : p' ∈ as' ++ p' :: x :: bs' := by simp
  have hxmem : x ∈ as' ++ p' :: x :: bs' := by simp
  have hp'x := (Extent.ascending_middle.mp h'.free.ascending).2.2 x List.mem_cons_self
  have hnextx : blockNext (spill m x.start inc) x.start = blockNext m x.start :=
    (spill_node (Nat.le_add_right _ _)).2.1
  have hnapart := h.next_apart.2
  have hewide := h'.wide e List.mem_cons_self
  have hestop : e.stop = e.start + e.len := rfl
  have hfields : ∀ b ∈ as' ++ p' :: ⟨x.start + inc, x.len - inc⟩ :: bs',
      blockSize (grown m e x inc) b.start = b.len ∧
      blockNext (grown m e x inc) b.start = (if b.start = x.start + inc then blockNext m x.start
        else if b.start = p.start then x.start + inc
        else blockNext (spill m x.start inc) b.start) ∧
      blockPrev (grown m e x inc) b.start = if b.start = x.start + inc then p.start
        else if b.start = blockNext m x.start then x.start + inc
        else blockPrev (spill m x.start inc) b.start := by
    intro b hb
    have hb' : b = ⟨x.start + inc, x.len - inc⟩ ∨ b ∈ as' ++ p' :: x :: bs' ∧ b.start ≠ x.start := by
      simp only [List.mem_append, List.mem_cons] at hb ⊢
      rcases hb with hb | rfl | rfl | hb
      · exact .inr ⟨.inl hb, h'.free.from_second.start_ne (.inl (by simp [hb]))⟩
      · exact .inr ⟨by simp, h'.free.from_second.start_ne (.inl (by simp))⟩
      · exact .inl rfl
      · exact .inr ⟨by simp [hb], h'.free.from_second.start_ne (.inr hb)⟩
    obtain rfl | ⟨hbmem, hbx⟩ := hb'
    · obtain ⟨hsize, hnext, hprev⟩ := h.grown_fields (.refl (x.start + inc))
        (.inr (.inl (by omega))) (by unfold NodesApart; omega)
        (.inr (by unfold sizeofFreeBlock at hex; omega))
      rw [if_pos rfl] at hsize
      exact ⟨hsize, hnext, hprev⟩
    · have hbout := h'.free.node_outside hbmem hxmem hbx
      have hbe := h'.apart hbmem List.mem_cons_self
      have hbwide := (h'.free.stop_lt hbmem).1
      obtain ⟨hsize, hnext, hprev⟩ := h.grown_fields (q := b.start)
        (by unfold NodesApart; omega)
        (hp' ▸ h'.free.nodesApart hp'mem hbmem) (hnx ▸ h'.free.nodesApart hn hbmem)
        (by unfold Extent.Apart sizeofFreeBlock at *; omega)
      rw [if_neg (by unfold sizeofFreeBlock at *; omega), h'.free.size b hbmem] at hsize
      exact ⟨hsize, hnext, hprev⟩
  refine h'.free.relocate ?_ ?_ ?_ ?_ ?_ fun b hb => (hfields b hb).1
  · simp only [Extent.stop]
    omega
  · simp only
    omega
  · simp only
    omega
  · intro b hb
    rw [(hfields b hb).2.1, hnextx, hp']
  · intro b hb
    rw [(hfields b hb).2.2, hnextx, hp']

include h in
/-- INTERNAL: **where the copied word does no harm**, the heap is well-formed after the
growth. -/
theorem rep_of_harmless (hharm : SpillHarmless m e x live inc) :
    (∃ fl', HeapRep (grown m e x inc) fl' (⟨e.start, e.len + inc⟩ :: live)) ∧
      (∀ i, i + sizeofSizeT < e.len →
        grown m e x inc (e.start + sizeofSizeT + i) = m (e.start + sizeofSizeT + i)) ∧
      ∀ a ∈ live, ∀ z ∈ a, grown m e x inc z = m z := by
  obtain ⟨fl', h', hothers⟩ := hharm
  obtain ⟨as', p', bs', n, rfl, hp', hn, hnx⟩ := h.spill_split h'
  obtain ⟨hpwide, hpx, hxinc, hxlt, hestart, hex⟩ := h.bounds
  have hp'mem : p' ∈ as' ++ p' :: x :: bs' := by simp
  have hxmem : x ∈ as' ++ p' :: x :: bs' := by simp
  have htouch := h.touch
  have hxstop : x.stop = x.start + x.len := rfl
  have hframe := h.grown_live h' hxmem (Nat.le_add_right _ _) hxinc hp'mem hp' hn hnx rfl
  refine ⟨⟨_, h.grown_list h' hp' hn hnx, ?_, ?_, ?_⟩, fun i hi => ?_, fun a ha z hz => ?_⟩
  · refine List.forall_mem_cons.mpr ⟨h.header, fun a ha => ?_⟩
    exact h'.header_unchanged (List.mem_cons_of_mem e ha) (hframe a ha)
  · refine List.forall_mem_cons.mpr ⟨?_, fun a ha => h'.wide a (List.mem_cons_of_mem e ha)⟩
    exact (h'.wide e List.mem_cons_self).trans (Nat.le_add_right _ _)
  · refine packed_reborder h'.packed ?_ htouch.symm rfl ?_ ?_
    · intro c hc
      exact Nat.lt_of_lt_of_le (by decide) (h'.wide_all c hc)
    · simp only [Extent.stop] at htouch ⊢
      omega
    · simp only [Extent.stop]
      omega
  · exact h.grown_contents i hi
  · rw [hframe a ha z hz, hothers a ha z hz]

include h in
/-- INTERNAL: the moved node is on the list after the growth, and so are its neighbours. -/
theorem grown_split {fl' : List Extent}
    (h' : HeapRep (grown m e x inc) fl' (⟨e.start, e.len + inc⟩ :: live)) :
    ∃ as' p' bs' n, fl' = as' ++ p' :: ⟨x.start + inc, x.len - inc⟩ :: bs' ∧
      p'.start = p.start ∧ n ∈ fl' ∧ n.start = blockNext m x.start := by
  obtain ⟨hpwide, hpx, hxinc, hxlt, hestart, hex⟩ := h.bounds
  have hpos := h.pos
  have hxstop : x.stop = x.start + x.len := rfl
  have hnapart := h.next_apart.2
  have hpmem : p ∈ as ++ p :: x :: bs := by simp
  have hxmem : x ∈ as ++ p :: x :: bs := by simp
  obtain ⟨n, hn, hnx⟩ := h.rep.free.next_mem hxmem
  have hewide := h.rep.wide e List.mem_cons_self
  have hestop : e.stop = e.start + e.len := rfl
  have hbelow : ∀ c ∈ as ++ [p], blockNext (grown m e x inc) c.start =
      if c.start = p.start then x.start + inc else blockNext m c.start := by
    intro c hc
    have hcmem : c ∈ as ++ p :: x :: bs := by
      rw [List.append_cons]
      exact List.mem_append_left (x :: bs) hc
    have hcx := (Extent.ascending_middle.mp h.rep.free.from_second.ascending).2.1 c hc
    have hcwide := (h.rep.free.stop_lt hcmem).1
    have hce := h.rep.apart hcmem List.mem_cons_self
    have hnext := (h.grown_fields (q := c.start) (by unfold NodesApart; omega)
      (h.rep.free.nodesApart hpmem hcmem) (hnx ▸ h.rep.free.nodesApart hn hcmem)
      (by unfold Extent.Apart sizeofFreeBlock at *; omega)).2.1
    rw [if_neg (by omega), (spill_node (show c.start ≤ x.start + inc by omega)).2.1] at hnext
    exact hnext
  obtain ⟨c, hc, hcp⟩ := h.rep.free.start_mem h'.free (by
    intro c hc
    rw [hbelow c (by simp [hc]), if_neg (h.rep.free.start_ne (.inl hc))])
  obtain ⟨y, hy, hystart⟩ := h'.free.next_mem hc
  rw [hcp, hbelow p (by simp), if_pos rfl] at hystart
  obtain ⟨hsize, hnext, hprev⟩ := h.grown_fields (.refl (x.start + inc))
    (.inr (.inl (by omega))) (by unfold NodesApart; omega)
    (.inr (by unfold sizeofFreeBlock at hex; omega))
  rw [if_pos rfl] at hsize hnext hprev
  obtain rfl : y = ⟨x.start + inc, x.len - inc⟩ := by
    have hysize := h'.free.size y hy
    rw [hystart, hsize] at hysize
    exact Extent.ext hystart hysize.symm
  obtain ⟨as', p', bs', rfl⟩ := h'.neighbor_split hy (by
    have htouch := h.touch
    simp only [Extent.stop] at htouch ⊢
    omega)
  have hprev' := h'.free.next_prev.2
  obtain ⟨n', hn', hnx'⟩ := h'.free.next_mem hy
  exact ⟨as', p', bs', n', rfl, hprev'.symm.trans hprev, hn', hnx'.trans hnext⟩

include h in
/-- INTERNAL: the nodes with the copied word, from those after the growth. -/
theorem spill_fields {as' bs' : List Extent} {p' n : Extent}
    (h' : HeapRep (grown m e x inc) (as' ++ p' :: ⟨x.start + inc, x.len - inc⟩ :: bs')
      (⟨e.start, e.len + inc⟩ :: live)) (hp' : p'.start = p.start)
    (hn : n ∈ as' ++ p' :: ⟨x.start + inc, x.len - inc⟩ :: bs')
    (hnx : n.start = blockNext m x.start) {b : Extent} (hb : b ∈ as' ++ p' :: x :: bs') :
    blockNext (spill m x.start inc) b.start = (if b.start = x.start then blockNext m x.start
      else if b.start = p.start then x.start else blockNext (grown m e x inc) b.start) ∧
    blockPrev (spill m x.start inc) b.start = (if b.start = x.start then p.start
      else if b.start = blockNext m x.start then x.start
      else blockPrev (grown m e x inc) b.start) ∧
    blockSize (spill m x.start inc) b.start = b.len := by
  obtain ⟨hpwide, hpx, hxinc, hxlt, hestart, hex⟩ := h.bounds
  have hpos := h.pos
  have htouch := h.touch
  have hewide := h.rep.wide e List.mem_cons_self
  have hnapart := h.next_apart.2
  have hxm : x ∈ as ++ p :: x :: bs := by simp
  have hp'mem : p' ∈ as' ++ p' :: ⟨x.start + inc, x.len - inc⟩ :: bs' := by simp
  have hymem : (⟨x.start + inc, x.len - inc⟩ : Extent) ∈
      as' ++ p' :: ⟨x.start + inc, x.len - inc⟩ :: bs' := by simp
  obtain ⟨hsizex, hnextx, hprevx⟩ := spill_node (m := m) (Nat.le_add_right x.start inc)
  have hb' : b = x ∨ b ∈ as' ++ p' :: ⟨x.start + inc, x.len - inc⟩ :: bs' ∧
      b.start ≠ x.start + inc := by
    simp only [List.mem_append, List.mem_cons] at hb ⊢
    rcases hb with hb | rfl | rfl | hb
    · exact .inr ⟨.inl hb, h'.free.from_second.start_ne (.inl (by simp [hb]))⟩
    · exact .inr ⟨by simp, h'.free.from_second.start_ne (.inl (by simp))⟩
    · exact .inl rfl
    · exact .inr ⟨by simp [hb], h'.free.from_second.start_ne (.inr hb)⟩
  obtain rfl | ⟨hbmem, hby⟩ := hb'
  · rw [if_pos rfl, if_pos rfl, hnextx, hprevx, hsizex, h.rep.free.next_prev.2]
    exact ⟨rfl, rfl, h.rep.free.size b hxm⟩
  · have hbe := h'.apart hbmem List.mem_cons_self
    have hbwide := (h'.free.stop_lt hbmem).1
    have hbx : b.start ≠ x.start := by
      simp only [Extent.Apart, Extent.stop] at hbe hbwide htouch
      unfold sizeofFreeBlock at hbwide
      omega
    obtain ⟨hsize, hnext, hprev⟩ := h.grown_fields (q := b.start)
      (h'.free.nodesApart hymem hbmem) (hp' ▸ h'.free.nodesApart hp'mem hbmem)
      (hnx ▸ h'.free.nodesApart hn hbmem)
      (by
        simp only [Extent.Apart, Extent.stop] at hbe hbwide
        unfold sizeofFreeBlock at *
        omega)
    rw [if_neg hby, h'.free.size b hbmem] at hsize
    rw [if_neg hby] at hnext hprev
    rw [if_neg hbx, if_neg hbx, hnext, hprev]
    refine ⟨?_, ?_, hsize.symm⟩
    · by_cases hbp : b.start = p.start
      · rw [if_pos hbp, hbp, (spill_node (show p.start ≤ x.start + inc by omega)).2.1,
          h.rep.free.next_prev.1]
      · rw [if_neg hbp, if_neg hbp]
    · by_cases hbn : b.start = blockNext m x.start
      · rw [if_pos hbn, hbn, spill_prev (by omega), h.rep.free.prev_next hxm]
      · rw [if_neg hbn, if_neg hbn]

include h in
/-- INTERNAL: the free list with the copied word: the node moves back. -/
theorem spill_list {as' bs' : List Extent} {p' n : Extent}
    (h' : HeapRep (grown m e x inc) (as' ++ p' :: ⟨x.start + inc, x.len - inc⟩ :: bs')
      (⟨e.start, e.len + inc⟩ :: live)) (hp' : p'.start = p.start)
    (hn : n ∈ as' ++ p' :: ⟨x.start + inc, x.len - inc⟩ :: bs')
    (hnx : n.start = blockNext m x.start) :
    FreeListAt (spill m x.start inc) (as' ++ p' :: x :: bs') := by
  obtain ⟨hpwide, hpx, hxinc, hxlt, hestart, hex⟩ := h.bounds
  have hnode := h.node
  have htouch := h.touch
  have hxstop : x.stop = x.start + x.len := rfl
  have hewide := h.rep.wide e List.mem_cons_self
  have hp'mem : p' ∈ as' ++ p' :: ⟨x.start + inc, x.len - inc⟩ :: bs' := by simp
  have hp'y := (Extent.ascending_middle.mp h'.free.ascending).2.2 _ List.mem_cons_self
  have hp'e := h'.apart hp'mem List.mem_cons_self
  have hp'wide := (h'.free.stop_lt hp'mem).1
  have hfields := fun b hb => h.spill_fields h' hp' hn hnx (b := b) hb
  have hnexty : blockNext (grown m e x inc) (x.start + inc) = blockNext m x.start := by
    have hlink := h.grown_fields (.refl (x.start + inc)) (.inr (.inl (by omega)))
      (by have := h.next_apart.2; have := h.pos; unfold NodesApart; omega)
      (.inr (by unfold sizeofFreeBlock at hex; omega))
    rw [hlink.2.1, if_pos rfl]
  refine h'.free.relocate ?_ ?_ ?_ ?_ ?_ fun b hb => (hfields b hb).2.2
  · simp only [Extent.stop]
    omega
  · simp only [Extent.Apart, Extent.stop] at hp'y hp'e hp'wide htouch ⊢
    omega
  · omega
  · intro b hb
    rw [(hfields b hb).1, hp', hnexty]
  · intro b hb
    rw [(hfields b hb).2.1, hp', hnexty]

include h in
/-- INTERNAL: **a well-formed heap after the growth** is one with the copied word before
it: the node moves back. -/
theorem harmless_of_rep {fl' : List Extent}
    (h' : HeapRep (grown m e x inc) fl' (⟨e.start, e.len + inc⟩ :: live))
    (hothers : ∀ a ∈ live, ∀ z ∈ a, grown m e x inc z = m z) : SpillHarmless m e x live inc := by
  obtain ⟨as', p', bs', n, rfl, hp', hn, hnx⟩ := h.grown_split h'
  obtain ⟨hpwide, hpx, hxinc, hxlt, hestart, hex⟩ := h.bounds
  have htouch := h.touch
  have hxstop : x.stop = x.start + x.len := rfl
  have hestop : e.stop = e.start + e.len := rfl
  have hewide := h.rep.wide e List.mem_cons_self
  have hp'mem : p' ∈ as' ++ p' :: ⟨x.start + inc, x.len - inc⟩ :: bs' := by simp
  have hymem : (⟨x.start + inc, x.len - inc⟩ : Extent) ∈
      as' ++ p' :: ⟨x.start + inc, x.len - inc⟩ :: bs' := by simp
  have hframe := h.grown_live h' hymem le_rfl (by simp only [Extent.stop]; omega) hp'mem hp' hn
    hnx rfl
  have hspill : ∀ a ∈ live, ∀ z ∈ a, spill m x.start inc z = m z := by
    intro a ha z hz
    rw [← hframe a ha z hz, hothers a ha z hz]
  refine ⟨as' ++ p' :: x :: bs', ⟨h.spill_list h' hp' hn hnx, ?_, h.rep.wide, ?_⟩, hspill⟩
  · refine List.forall_mem_cons.mpr ⟨?_, fun a ha => ?_⟩
    · rw [(spill_node (by omega)).1]
      exact h.rep.header e List.mem_cons_self
    · exact h.rep.header_unchanged (List.mem_cons_of_mem e ha) (hspill a ha)
  · refine packed_reborder h'.packed ?_ ?_ rfl htouch.symm ?_
    · intro c hc
      exact Nat.lt_of_lt_of_le (by decide) (h'.wide_all c hc)
    · simp only [Extent.stop] at htouch ⊢
      omega
    · simp only [Extent.stop]
      omega

end NodeLeft

/-! ## One call of `kexpand` -/

/-- `kexpand(p, inc)` returns an allocation with room for `inc` bytes more, the payload of
`e`, the block of `p`, moved to it, and leaves the other allocations alone. -/
def ExpandRight (m : Memory) (e : Extent) (live : List Extent) (inc : ℕ) : Prop :=
  ∃ q m', kexpand m (e.start + sizeofSizeT) inc = some (q, m') ∧
    Resized m m' e live (e.len - sizeofSizeT + inc) q

/-- There is memory for `inc` bytes more: in the free block behind `e`, or in a free block
that holds the header, the payload and `inc` bytes. -/
def MemoryAvailable (fl : List Extent) (e : Extent) (inc : ℕ) : Prop :=
  inc = 0 ∨ (∃ x ∈ fl, x.start = e.stop ∧ inc ≤ x.len) ∨ ∃ b ∈ fl, e.len + inc ≤ b.len

/-- The increments for which `kexpand` is right: a node that is left over does no harm
when it moves, inside the heap; and an allocation that has to move is not the last one of
the heap and finds a block for its size and another header, which is not the head handed
out whole. -/
def ExpandFits (m : Memory) (fl : List Extent) (e : Extent) (live : List Extent) (inc : ℕ) :
    Prop :=
  inc = 0 ∨
  (∃ x, neighbor fl e (e.len + inc) = some x ∧
    (inc + sizeofFreeBlock ≤ x.len →
      NodeInHeap e x (e.len + inc) ∧ SpillHarmless m e x live inc)) ∨
  neighbor fl e (e.len + inc) = none ∧ NotLast e ∧
    ∃ b, firstFit fl (e.len + inc + sizeofSizeT) = some b ∧
      (b.start = heapStart → e.len + inc + sizeofSizeT + sizeofFreeBlock ≤ b.len)

/-- INTERNAL: `kexpand` is `krealloc` to the sum of the header and the increment.
SRCLINE: kmm.c:54-58 -/
theorem HeapRep.kexpand_eq (h : HeapRep m fl (e :: live)) (hlt : e.len + inc < 2 ^ 32) :
    Model.kexpand m (e.start + sizeofSizeT) inc =
      krealloc m (e.start + sizeofSizeT) (e.len + inc) := by
  have hsize : m.load 4 e.start = e.len := h.header e List.mem_cons_self
  unfold Model.kexpand
  rw [if_neg (by unfold sizeofSizeT; omega), h.header_sub, hsize, add32_eq hlt]

/-- INTERNAL: an increment for which there is memory does not wrap around. -/
theorem MemoryAvailable.lt (havail : MemoryAvailable fl e inc) (h : HeapRep m fl (e :: live)) :
    e.len + inc + sizeofSizeT + sizeofFreeBlock < 2 ^ 32 := by
  have hb := h.bounds
  rcases havail with rfl | ⟨x, hx, -, hfit⟩ | ⟨b, hmem, hfit⟩
  · unfold Extent.stop heapStart heapSize sizeofSizeT sizeofFreeBlock at *
    omega
  · have hin := h.free.inside x hx
    unfold Extent.stop heapStart heapSize sizeofSizeT sizeofFreeBlock at *
    omega
  · have hin := h.free.inside b hmem
    unfold Extent.stop heapStart heapSize sizeofSizeT sizeofFreeBlock at *
    omega

/-- INTERNAL: a neighbour that leaves a node is one the node of which moves. -/
theorem nodeLeft_of_neighbor (h : HeapRep m fl (e :: live)) (hinc : 0 < inc)
    (hx : neighbor fl e (e.len + inc) = some x) (hnode : inc + sizeofFreeBlock ≤ x.len) :
    ∃ as p bs, NodeLeft m as bs live p x e inc := by
  obtain ⟨hmem, hstart, -⟩ := neighbor_some hx
  obtain ⟨as, p, bs, rfl⟩ := h.neighbor_split hmem hstart
  exact ⟨as, p, bs, h, hstart, hinc, hnode⟩

/-- INTERNAL: the resized block is found at its address. -/
theorem Resized.rep {newSz : ℕ} (h : Resized m m' e live newSz (e.start + sizeofSizeT)) :
    ∃ fl', HeapRep m' fl' (⟨e.start, blockSize m' e.start⟩ :: live) := by
  obtain ⟨fl', e', hq, -, hrep⟩ := h.block
  have hstart : e'.start = e.start := by omega
  have hheader := hrep.header e' List.mem_cons_self
  refine ⟨fl', ?_⟩
  rw [← hstart, hheader]
  exact hrep

/-- INTERNAL: the increments for which `kexpand` is right are enough for it. -/
theorem expandRight_of_fits (h : HeapRep m fl (e :: live)) (havail : MemoryAvailable fl e inc)
    (hfits : ExpandFits m fl e live inc) : ExpandRight m e live inc := by
  obtain ⟨hestart, hestop, hewide⟩ := h.bounds
  have hlt := havail.lt h
  unfold ExpandRight
  rw [h.kexpand_eq (by omega), h.krealloc_eq (by omega)]
  by_cases hinc : inc = 0
  · refine ⟨_, m, by rw [if_pos (by omega)], ⟨fl, e, rfl, ?_, h⟩, fun _ _ => rfl,
      fun _ _ _ _ => rfl⟩
    unfold sizeofSizeT sizeofFreeBlock at *
    omega
  · rw [if_neg (by omega)]
    rcases hfits with hzero | ⟨x, hx, hharm⟩ | ⟨hnone, hnotlast, b, hfirst, hhead⟩
    · exact absurd hzero hinc
    · rw [hx]
      obtain ⟨hmem, hstart, hfit⟩ := neighbor_some hx
      have hinheap : NodeInHeap e x (e.len + inc) :=
        fun hwide => (hharm (by omega)).1 hwide
      refine ⟨_, _, if_pos hinheap, ?_⟩
      by_cases hnode : inc + sizeofFreeBlock ≤ x.len
      · obtain ⟨as, p, bs, hleft⟩ := nodeLeft_of_neighbor h (by omega) hx hnode
        obtain ⟨⟨fl', hrep⟩, hcontents, hothers⟩ := hleft.rep_of_harmless (hharm hnode).2
        refine ⟨⟨fl', ⟨e.start, e.len + inc⟩, rfl, ?_, hrep⟩,
          fun i hi => hcontents i (by omega), hothers⟩
        unfold sizeofSizeT sizeofFreeBlock at *
        simp only
        omega
      · obtain ⟨fl', hrep, hframe⟩ :=
          growWhole_spec h hmem hstart (Nat.lt_add_of_pos_right (by omega)) hfit (by omega)
        refine ⟨⟨fl', ⟨e.start, e.len + x.len⟩, rfl, ?_, hrep⟩, fun i hi => ?_,
          fun a ha z hz => ?_⟩
        · unfold sizeofSizeT sizeofFreeBlock at *
          simp only
          omega
        · have hold : e.start + sizeofSizeT + i ∈ e := by
            rw [Extent.mem_def]
            unfold Extent.stop
            omega
          exact hframe _ (h.notMem_free List.mem_cons_self hold) (by omega)
        · have ha' := List.mem_cons_of_mem e ha
          refine hframe z (h.notMem_free ha' hz) fun hin => ?_
          refine notMem_of_apart (h.apart_others a ha).symm hz ?_
          rw [Extent.mem_def]
          unfold Extent.stop sizeofSizeT sizeofFreeBlock at *
          omega
    · obtain ⟨m₁, fl', e', hmalloc, hlen, hend, hrep, hcontents, hothers⟩ :=
        move_spec h (Nat.lt_add_of_pos_right (by omega)) hfirst hhead
      rw [hnone, hmalloc]
      refine ⟨_, _, if_pos ⟨hnotlast, hend⟩, ⟨fl', e', rfl, ?_, hrep⟩, fun i hi => hcontents i (by omega), hothers⟩
      unfold sizeofSizeT sizeofFreeBlock at *
      omega

/-- INTERNAL: and there are no others. -/
theorem fits_of_expandRight (h : HeapRep m fl (e :: live)) (havail : MemoryAvailable fl e inc)
    (hright : ExpandRight m e live inc) : ExpandFits m fl e live inc := by
  have hlt := havail.lt h
  obtain ⟨q, m', hcall, hresized⟩ := hright
  rw [h.kexpand_eq (by omega)] at hcall
  have hrun := hcall
  rw [h.krealloc_eq (by omega)] at hrun
  by_cases hinc : inc = 0
  · exact .inl hinc
  · rw [if_neg (by omega)] at hrun
    cases hx : neighbor fl e (e.len + inc) with
    | some x =>
        refine .inr (.inl ⟨x, hx, fun hnode => ?_⟩)
        obtain ⟨as, p, bs, hleft⟩ := nodeLeft_of_neighbor h (by omega) hx hnode
        rw [hx] at hrun
        obtain ⟨hinheap, hgrown⟩ := Option.ite_none_right_eq_some.mp hrun
        obtain ⟨rfl, rfl⟩ := Prod.mk.inj (Option.some.inj hgrown)
        obtain ⟨fl', hrep⟩ := hresized.rep
        have hheader : blockSize (growInto m (e.start + sizeofSizeT) e.len (e.len + inc) x.start)
            e.start = e.len + inc := hleft.header
        rw [hheader] at hrep
        exact ⟨hinheap, hleft.harmless_of_rep hrep hresized.others⟩
    | none =>
        refine .inr (.inr ⟨hx, ?_⟩)
        obtain ⟨fl', e', hq, -, hrep⟩ := hresized.block
        refine firstFit_of_moved h (Nat.lt_add_of_pos_right (by omega)) hlt hx hcall
          (fun _ => ⟨fl', e', hq, hrep⟩) fun hzero => ?_
        unfold sizeofSizeT at hq
        omega

/-! ## Vectors -/

/-- Memory with a vector, the pointer to it and its elements. -/
structure VectorState where
  mem : Memory
  ptr : ℕ
  elems : List (List Byte)

/-- A vector of elements of `sz` bytes grows and the next element is stored, as
`VFS_add_descriptor` does it.
SRCLINE: vfs.c:237-250 -/
def pushStep (sz : ℕ) (elem : List Byte) (s : VectorState) : VectorState :=
  match kexpand s.mem s.ptr sz with
  | some (q, m) => ⟨m.write (q + s.elems.length * sz) elem, q, s.elems ++ [elem]⟩
  | none => s

/-- The vector is an allocation of its own that holds its elements, and the other
allocations are as they were in `m₀`. -/
structure VectorHolds (m₀ : Memory) (live : List Extent) (sz : ℕ) (s : VectorState) : Prop where
  rep : ∃ fl e, s.ptr = e.start + sizeofSizeT ∧ HeapRep s.mem fl (e :: live) ∧
    s.elems.length * sz + sizeofSizeT ≤ e.len
  elem : ∀ j (hj : j < s.elems.length), s.mem.read (s.ptr + j * sz) sz = s.elems[j]
  others : ∀ a ∈ live, ∀ z ∈ a, s.mem z = m₀ z

/-- The call of `kexpand` that the push makes is one that fits. -/
def PushFits (live : List Extent) (sz : ℕ) (elem : List Byte) (s : VectorState) : Prop :=
  elem.length = sz ∧ ∀ fl, freeList s.mem = some fl →
    MemoryAvailable fl (liveBlock s.mem s.ptr) sz ∧
      ExpandFits s.mem fl (liveBlock s.mem s.ptr) live sz

/-- INTERNAL: a push that fits keeps the elements and adds one. -/
theorem vectorHolds_push {m₀ : Memory} {sz : ℕ} (elem : List Byte) (s : VectorState)
    (hs : VectorHolds m₀ live sz s) (hfits : PushFits live sz elem s) :
    VectorHolds m₀ live sz (pushStep sz elem s) := by
  obtain ⟨fl, e, hptr, hrep, hroom⟩ := hs.rep
  have hblock : liveBlock s.mem s.ptr = e := by
    rw [hptr]
    exact liveBlock_eq hrep List.mem_cons_self
  obtain ⟨hlen, hcall⟩ := hfits
  obtain ⟨havail, hfits⟩ := hcall fl hrep.free.freeList_eq
  rw [hblock] at havail hfits
  obtain ⟨q, m', hrun, hresized⟩ := expandRight_of_fits hrep havail hfits
  obtain ⟨fl', e', hq, hroom', hrep'⟩ := hresized.block
  have hstep : pushStep sz elem s =
      ⟨m'.write (q + s.elems.length * sz) elem, q, s.elems ++ [elem]⟩ := by
    unfold pushStep
    rw [hptr, hrun]
  have hnew : s.elems.length * sz + sz + sizeofSizeT ≤ e'.len := by omega
  have hwrite : ∀ z, ¬ (e'.start + sizeofSizeT ≤ z ∧ z < e'.stop) →
      m'.write (q + s.elems.length * sz) elem z = m' z := by
    intro z hz
    refine Store.write_of_notMem m' _ ?_
    unfold Extent.stop at hz
    omega
  rw [hstep]
  refine ⟨⟨fl', e', hq, hrep'.payload List.mem_cons_self hwrite, ?_⟩, fun j hj => ?_,
    fun a ha z hz => ?_⟩
  · rw [List.length_append, List.length_singleton, Nat.succ_mul]
    exact hnew
  · by_cases hlast : j < s.elems.length
    · have hbefore : j * sz + sz ≤ s.elems.length * sz := by
        rw [← Nat.succ_mul]
        exact Nat.mul_le_mul_right sz hlast
      dsimp only
      rw [Store.read_write_disjoint m' _ (.inl (by omega)), List.getElem_append_left hlast,
        ← hs.elem j hlast]
      refine (Store.read_eq_iff _ _ _ _).mpr ⟨Store.length_read _ _ _, fun i hi => ?_⟩
      rw [Store.length_read] at hi
      rw [Store.getElem_read, hptr, Nat.add_assoc, Nat.add_assoc]
      exact hresized.contents (j * sz + i) (by omega)
    · have hj' : j = s.elems.length := by
        rw [List.length_append, List.length_singleton] at hj
        omega
      subst hj'
      dsimp only
      rw [List.getElem_concat_length rfl, ← hlen]
      exact Store.read_write_self m' _ elem
  · rw [← hs.others a ha z hz, ← hresized.others a ha z hz]
    refine hwrite z fun hin => ?_
    refine notMem_of_apart (hrep'.apart_others a ha).symm hz ?_
    rw [Extent.mem_def]
    omega

/-- **`kexpand` grows an allocation** exactly if the increment fits, where there is memory
for it; and a vector that grows in calls that fit holds all its elements after each.
SRCLINE: kmm.c:19-58 -/
theorem kexpand_grows_vectors (h : HeapRep m fl (e :: live)) (havail : MemoryAvailable fl e inc) :
    (ExpandRight m e live inc ↔ ExpandFits m fl e live inc) ∧
    ∀ elems pushes : List (List Byte),
      VectorHolds m live inc ⟨m, e.start + sizeofSizeT, elems⟩ →
      EachCall (pushStep inc) (PushFits live inc) pushes ⟨m, e.start + sizeofSizeT, elems⟩ →
      Throughout (pushStep inc) (VectorHolds m live inc) pushes
        ⟨m, e.start + sizeofSizeT, elems⟩ := by
  refine ⟨⟨fits_of_expandRight h havail, expandRight_of_fits h havail⟩, ?_⟩
  intro elems pushes hholds hcalls
  exact throughout_of_invariant (fun elem s => vectorHolds_push elem s) hholds hcalls

/-- The second eight bytes grow by four: they move. -/
theorem kexpand_grows_vectors_eight :
    ExpandRight pairHeap ⟨0xDFFFFFE8, 12⟩ [⟨0xDFFFFFF4, 12⟩] 4 := by
  have havail : MemoryAvailable [⟨heapStart, heapSize - 24⟩] ⟨0xDFFFFFE8, 12⟩ 4 :=
    .inr (.inr ⟨_, List.mem_cons_self, by decide⟩)
  refine (kexpand_grows_vectors pairHeap_rep havail).1.mpr (.inr (.inr ⟨by decide, ?_⟩))
  exact ⟨by decide, ⟨heapStart, heapSize - 24⟩, by decide, fun _ => by decide⟩

/-- Memory after two more allocations, of 20 and of 8 bytes, of which the first is freed
again: the free block lies between two allocated ones. -/
def gapHeap : Memory :=
  kfree (carveTail (carveTail eightHeap heapStart 24).2 heapStart 12).2 0xDFFFFFE0

theorem gapHeap_rep : HeapRep gapHeap [⟨heapStart, heapSize - 48⟩, ⟨0xDFFFFFDC, 24⟩]
    [⟨0xDFFFFFD0, 12⟩, ⟨0xDFFFFFF4, 12⟩] := by
  have hfields : blockNext gapHeap heapStart = 0xDFFFFFDC ∧ blockPrev gapHeap 0xDFFFFFDC = heapStart ∧
      blockNext gapHeap 0xDFFFFFDC = heapStart ∧ blockPrev gapHeap heapStart = 0xDFFFFFDC ∧
      blockSize gapHeap heapStart = heapSize - 48 ∧ blockSize gapHeap 0xDFFFFFDC = 24 ∧
      blockSize gapHeap 0xDFFFFFD0 = 12 ∧ blockSize gapHeap 0xDFFFFFF4 = 12 := by
    decide +kernel
  obtain ⟨hnext, hprev, hback, hhead, hsize, hsize', hlow, hhigh⟩ := hfields
  refine ⟨⟨rfl, ?_, ?_, ?_, ?_, ?_⟩, ?_, ?_, ?_, ?_⟩
  · refine List.isChain_cons_cons.mpr ⟨⟨hnext, hprev⟩, ?_⟩
    exact List.isChain_cons_cons.mpr ⟨⟨hback, hhead⟩, List.isChain_singleton _⟩
  · simp [hsize, hsize']
  · simp [sizeofFreeBlock, heapSize]
  · simp [Extent.Ascending, Extent.stop, heapStart, heapSize]
  · simp [Extent.stop, heapStart, heapSize]
  · simp [hlow, hhigh]
  · simp [sizeofFreeBlock]
  · simp [Extent.stop, heapStart, heapSize]
  · simp [Extent.Apart, Extent.stop, heapStart, heapSize]

/-- The eight bytes below the gap grow by twelve: the header of the eight above it is
overwritten with a word of the gap. -/
theorem kexpand_overwrites_header :
    MemoryAvailable [⟨heapStart, heapSize - 48⟩, ⟨0xDFFFFFDC, 24⟩] ⟨0xDFFFFFD0, 12⟩ 12 ∧
      ¬ ExpandRight gapHeap ⟨0xDFFFFFD0, 12⟩ [⟨0xDFFFFFF4, 12⟩] 12 := by
  refine ⟨.inr (.inl ⟨⟨0xDFFFFFDC, 24⟩, by simp, by decide⟩), ?_⟩
  rintro ⟨q, m', hrun, hresized⟩
  have hneighbor : neighbor [⟨heapStart, heapSize - 48⟩, ⟨0xDFFFFFDC, 24⟩] ⟨0xDFFFFFD0, 12⟩ 24 =
      some ⟨0xDFFFFFDC, 24⟩ := by decide
  rw [gapHeap_rep.kexpand_eq (by decide), gapHeap_rep.krealloc_eq (by decide), if_neg (by decide),
    hneighbor] at hrun
  obtain ⟨-, hgrown⟩ := Option.ite_none_right_eq_some.mp hrun
  obtain ⟨rfl, rfl⟩ := Prod.mk.inj (Option.some.inj hgrown)
  have hkept := hresized.others ⟨0xDFFFFFF4, 12⟩ (by simp) 0xDFFFFFF4
    (Extent.mem_def.mpr (by decide))
  revert hkept
  decide +kernel

end LakeOS.Analysis
