import LakeOS.Analysis.HeapFreeList

/-!
# `kmalloc` and `kfree` on the list of free blocks

`kmalloc` takes the last bytes of the first block that is wide enough, in the order that
starts behind the head, or the whole block when the rest would be too small for a node
(`kmalloc_eq`, `carveTail_spec`, `takeWhole_spec`).  `kfree` puts a block behind the last
free block below it and merges it with the next block or, when these two do not touch,
with the previous one (`kfree_spec`).  Every byte outside the free blocks and the freed
block keeps its value.
-/

set_option autoImplicit false

namespace LakeOS.Analysis

open LakeOS.Library LakeOS.Model

variable {m : Memory} {fl as bs : List Extent} {p x b : Extent} {bytes : ℕ}

/-! ## The search for a block -/

/-- The order in which `find_first_fit` looks at the blocks: from `freelist->next` on, so
the head comes last. -/
def searchOrder (fl : List Extent) : List Extent := fl.drop 1 ++ fl.take 1

/-- The block `find_first_fit` stops at. -/
def firstFit (fl : List Extent) (bytes : ℕ) : Option Extent :=
  (searchOrder fl).find? fun b => bytes ≤ b.len

/-- What happens at the block found. -/
def takeFrom (m : Memory) (bytes : ℕ) : Option Extent → ℕ × Memory
  | none => (0, m)
  | some b =>
      if bytes + sizeofFreeBlock ≤ b.len then carveTail m b.start bytes
      else takeWhole m b.start bytes

theorem searchOrder_perm (fl : List Extent) : (searchOrder fl).Perm fl := by
  have h : (fl.drop 1 ++ fl.take 1).Perm (fl.take 1 ++ fl.drop 1) := List.perm_append_comm
  rwa [List.take_append_drop] at h

theorem ring_searchOrder (h : FreeListAt m fl) :
    (blockLinks m).Ring ((searchOrder fl).map Extent.start) := by
  unfold searchOrder
  rw [List.map_append]
  apply Links.ring_append_comm
  rw [← List.map_append, List.take_append_drop]
  exact h.ring

theorem mem_of_firstFit (hb : firstFit fl bytes = some b) : b ∈ fl ∧ bytes ≤ b.len :=
  ⟨(searchOrder_perm fl).mem_iff.mp (List.mem_of_find?_eq_some hb),
    by simpa using List.find?_some hb⟩

/-- INTERNAL: one round of the search.
SRCLINE: kmm.c:101-121 -/
theorem findFirstFitLoop_succ (h : FreeListAt m fl) {stop fuel : ℕ} (hb : b ∈ fl)
    (hbytes : bytes + sizeofFreeBlock < 2 ^ 32) :
    findFirstFitLoop m bytes stop (fuel + 1) b.start =
      if bytes ≤ b.len then some (takeFrom m bytes (some b))
      else if blockNext m b.start = stop then some (0, m)
      else findFirstFitLoop m bytes stop fuel (blockNext m b.start) := by
  have hadd : add32 bytes sizeofFreeBlock = bytes + sizeofFreeBlock := add32_eq hbytes
  simp only [findFirstFitLoop, h.size b hb, hadd, takeFrom]
  split
  next hcarve => rw [if_pos (by omega)]
  next => rfl

/-- INTERNAL: the search goes round from any block to the one it started at.
SRCLINE: kmm.c:101-121 -/
theorem findFirstFitLoop_eq (h : FreeListAt m fl) {stop fuel : ℕ} {rest done : List Extent}
    {cur : Extent} (horder : searchOrder fl = done ++ cur :: rest)
    (hstop : (searchOrder fl).head?.map Extent.start = some stop)
    (hbytes : bytes + sizeofFreeBlock < 2 ^ 32) (hfuel : rest.length < fuel) :
    findFirstFitLoop m bytes stop fuel cur.start =
      some (takeFrom m bytes ((cur :: rest).find? fun b => bytes ≤ b.len)) := by
  have hring := ring_searchOrder h
  have hnd : ((searchOrder fl).map Extent.start).Nodup :=
    ((searchOrder_perm fl).map _).nodup_iff.mpr h.starts_nodup
  induction rest generalizing cur done fuel with
  | nil =>
      obtain ⟨fuel, rfl⟩ := Nat.exists_eq_succ_of_ne_zero (Nat.ne_zero_of_lt hfuel)
      have hmem : cur ∈ fl := by
        rw [← (searchOrder_perm fl).mem_iff, horder]
        simp
      have hnext : blockNext m cur.start = stop := by
        rw [horder, List.map_append] at hring
        have hlast := (Links.ring_append_comm hring).next_prev_head.1
        rw [horder] at hstop
        cases done with
        | nil => exact hlast.trans (by simpa using hstop)
        | cons d done => exact hlast.trans (by simpa using hstop)
      rw [findFirstFitLoop_succ h hmem hbytes, if_pos hnext]
      split
      next hle => simp [hle]
      next hle => simp [hle, takeFrom]
  | cons c rest ih =>
      obtain ⟨fuel, rfl⟩ := Nat.exists_eq_succ_of_ne_zero (Nat.ne_zero_of_lt hfuel)
      have hmem : cur ∈ fl := by
        rw [← (searchOrder_perm fl).mem_iff, horder]
        simp
      have hnext : blockNext m cur.start = c.start := by
        rw [horder, List.map_append] at hring
        exact (Links.ring_append_comm hring).next_prev.1
      -- the search has not come back to its first block
      have hne : c.start ≠ stop := by
        rw [horder] at hstop hnd
        cases done with
        | nil =>
            simp only [List.nil_append, List.head?_cons, Option.map_some,
              Option.some.injEq] at hstop
            simp only [List.nil_append, List.map_cons, List.nodup_cons, List.mem_cons, not_or] at hnd
            exact fun heq => hnd.1.1 (hstop.trans heq.symm)
        | cons d done =>
            simp only [List.cons_append, List.head?_cons, Option.map_some,
              Option.some.injEq] at hstop
            simp only [List.cons_append, List.map_cons, List.map_append, List.nodup_cons] at hnd
            exact fun heq => hnd.1 (by simp [hstop, ← heq])
      rw [findFirstFitLoop_succ h hmem hbytes, hnext, if_neg hne]
      split
      next hle => simp [hle]
      next hle =>
        have horder' : searchOrder fl = (done ++ [cur]) ++ c :: rest := by simpa using horder
        rw [ih horder' (by simpa using hfuel)]
        simp [hle]

theorem allocBytes_eq {n : ℕ} (hn : n + sizeofSizeT < 2 ^ 32) :
    allocBytes n = max (n + sizeofSizeT) sizeofFreeBlock := by
  have hadd : add32 n sizeofSizeT = n + sizeofSizeT := add32_eq hn
  unfold allocBytes
  rw [hadd]
  split
  next h => omega
  next h => omega

/-- `kmalloc` takes its bytes from the first block that is wide enough.
SRCLINE: kmm.c:89-124 -/
theorem kmalloc_eq (h : FreeListAt m fl) {n : ℕ}
    (hn : allocBytes n + sizeofFreeBlock < 2 ^ 32) :
    kmalloc m n = some (takeFrom m (allocBytes n) (firstFit fl (allocBytes n))) := by
  obtain ⟨hd, tl, rfl⟩ := List.exists_cons_of_ne_nil h.ne_nil
  obtain ⟨cur, rest, horder⟩ : ∃ cur rest, searchOrder (hd :: tl) = cur :: rest :=
    List.exists_cons_of_ne_nil (by simp [searchOrder])
  have hhd : hd.start = heapStart := by simpa using h.first
  have hnext : blockNext m heapStart = cur.start := by
    have hring : (blockLinks m).Ring (hd.start :: tl.map Extent.start) := h.ring
    have hfirst := hring.next_prev_head.1
    rw [← hhd]
    have hmap : tl.map Extent.start ++ [hd.start] = cur.start :: rest.map Extent.start := by
      have := congrArg (List.map Extent.start) horder
      simpa [searchOrder] using this
    simp only [hmap, List.head_cons] at hfirst
    exact hfirst
  have hlen : rest.length < heapSize := by
    have hle := h.length_le
    rw [← (searchOrder_perm _).length_eq, horder] at hle
    exact hle
  have horder' : searchOrder (hd :: tl) = [] ++ cur :: rest := horder
  unfold kmalloc findFirstFit firstFit
  rw [hnext, findFirstFitLoop_eq h horder' (by rw [horder]; rfl) hn hlen, horder]

/-! ## Taking a block -/

/-- INTERNAL: the header of an allocated block is outside the nodes of the list. -/
theorem fields_save_header {ret v q : ℕ} (hq : q + sizeofFreeBlock ≤ ret ∨ ret + 4 ≤ q) :
    blockSize (m.save 4 ret v) q = blockSize m q ∧
    blockNext (m.save 4 ret v) q = blockNext m q ∧
    blockPrev (m.save 4 ret v) q = blockPrev m q := by
  unfold sizeofFreeBlock at hq
  refine ⟨?_, ?_, ?_⟩
  · exact Store.load_save_disjoint m (by omega)
  · exact Store.load_save_disjoint m (by omega)
  · exact Store.load_save_disjoint m (by omega)

theorem blockSize_save_self {ret v : ℕ} (hv : v < 2 ^ 32) :
    blockSize (m.save 4 ret v) ret = v := by
  rw [blockSize, Store.load_save_self]
  exact Nat.mod_eq_of_lt hv

/-- INTERNAL: the tail of a block becomes an allocated block.
SRCLINE: kmm.c:104-110 -/
theorem carveTail_spec (h : FreeListAt m (as ++ b :: bs)) (hpos : sizeofSizeT ≤ bytes)
    (hfit : bytes + sizeofFreeBlock ≤ b.len) :
    ∃ m', carveTail m b.start bytes = (b.stop - bytes + sizeofSizeT, m') ∧
      FreeListAt m' (as ++ ⟨b.start, b.len - bytes⟩ :: bs) ∧
      blockSize m' (b.stop - bytes) = bytes ∧ ∀ y, y ∉ b → m' y = m y := by
  have hb : b ∈ as ++ b :: bs := by simp
  obtain ⟨-, hlt⟩ := h.stop_lt hb
  have hstop : b.stop = b.start + b.len := rfl
  have hlen : b.len - bytes < 2 ^ 32 := by omega
  have hsub : sub32 (blockSize m b.start) bytes = b.len - bytes := by
    rw [h.size b hb, sub32_eq (by omega) (by omega)]
  have hret : add32 b.start (b.len - bytes) = b.stop - bytes := by
    rw [add32_eq (by omega)]
    omega
  have hpay : add32 (b.stop - bytes) sizeofSizeT = b.stop - bytes + sizeofSizeT :=
    add32_eq (by unfold sizeofSizeT at *; omega)
  refine ⟨(setSize m b.start (b.len - bytes)).save 4 (b.stop - bytes) bytes, ?_, ?_, ?_, ?_⟩
  · unfold carveTail
    simp only [hsub, blockSize_setSize m (.refl b.start) hlen, if_true, hret, hpay]
  · have hfields : ∀ c ∈ as ++ b :: bs,
        c.start + sizeofFreeBlock ≤ b.stop - bytes ∨ b.stop - bytes + 4 ≤ c.start := by
      intro c hc
      have hcwide := (h.stop_lt hc).1
      cases h.eq_or_apart hc hb with
      | inl heq => rw [heq]; omega
      | inr hap =>
          unfold Extent.Apart at hap
          unfold sizeofSizeT at hpos
          omega
    refine h.shrink rfl (Nat.sub_le _ _) (by simp only; omega) ?_ ?_ ?_
    · intro c hc
      rw [(fields_save_header (hfields c hc)).2.1,
        blockNext_setSize m (h.nodesApart hb hc) hlen]
    · intro c hc
      rw [(fields_save_header (hfields c hc)).2.2,
        blockPrev_setSize m (h.nodesApart hb hc) hlen]
    · have hsize : ∀ c ∈ as ++ b :: bs,
          blockSize ((setSize m b.start (b.len - bytes)).save 4 (b.stop - bytes) bytes) c.start =
            if c.start = b.start then b.len - bytes else c.len := by
        intro c hc
        rw [(fields_save_header (hfields c hc)).1,
          blockSize_setSize m (h.nodesApart hb hc) hlen, h.size c hc]
      intro c hc
      simp only [List.mem_append, List.mem_cons] at hc
      rcases hc with hc | rfl | hc
      · rw [hsize c (by simp [hc]), if_neg (h.start_ne (.inl hc))]
      · exact (hsize b hb).trans (if_pos rfl)
      · rw [hsize c (by simp [hc]), if_neg (h.start_ne (.inr hc))]
  · exact blockSize_save_self (by omega)
  · intro y hy
    unfold sizeofSizeT sizeofFreeBlock at *
    rw [Extent.mem_def] at hy
    rw [Store.save_of_notMem _ (by omega), setSize_of_notMem m (by unfold sizeofFreeBlock; omega)]

/-- INTERNAL: the two assignments that make nodes `p` and `n` neighbours. -/
theorem relink_fields {p n q : ℕ} (hp : NodesApart p q) (hn : NodesApart n q) (hplt : p < 2 ^ 32)
    (hnlt : n < 2 ^ 32) :
    blockSize (setPrev (setNext m p n) n p) q = blockSize m q ∧
    blockNext (setPrev (setNext m p n) n p) q = (if q = p then n else blockNext m q) ∧
    blockPrev (setPrev (setNext m p n) n p) q = if q = n then p else blockPrev m q := by
  refine ⟨?_, ?_, ?_⟩
  · rw [blockSize_setPrev _ hn hplt, blockSize_setNext m hp hnlt]
  · rw [blockNext_setPrev _ hn hplt, blockNext_setNext m hp hnlt]
  · rw [blockPrev_setPrev _ hn hplt, blockPrev_setNext m hp hnlt]

/-- INTERNAL: what the list loses when a block leaves it.
SRCLINE: kmm.c:114-116 -/
theorem FreeListAt.unlinkBlock_eq (h : FreeListAt m (as ++ p :: x :: bs)) :
    unlinkBlock m x.start =
      setPrev (setNext m p.start (blockNext m x.start)) (blockNext m x.start) p.start := by
  have hp : p ∈ as ++ p :: x :: bs := by simp
  have hx : x ∈ as ++ p :: x :: bs := by simp
  have hne : x.start ≠ p.start := h.start_ne (.inr List.mem_cons_self)
  have hap := h.nodesApart hp hx
  have hlt := blockNext_lt m x.start
  unfold unlinkBlock
  simp only [h.next_prev.2, blockNext_setNext m hap hlt, if_neg hne, blockPrev_setNext m hap hlt]

/-- INTERNAL: a block leaves the list.
SRCLINE: kmm.c:114-116 -/
theorem unlinkBlock_spec (h : FreeListAt m (as ++ p :: x :: bs)) :
    FreeListAt (unlinkBlock m x.start) (as ++ p :: bs) ∧
      blockSize (unlinkBlock m x.start) x.start = x.len ∧
      ∀ y, (∀ c ∈ as ++ p :: x :: bs, y ∉ c) → unlinkBlock m x.start y = m y := by
  have hp : p ∈ as ++ p :: x :: bs := by simp
  have hx : x ∈ as ++ p :: x :: bs := by simp
  obtain ⟨n, hn, hnx⟩ := h.next_mem hx
  have hmem : ∀ c ∈ as ++ p :: bs, c ∈ as ++ p :: x :: bs := by
    intro c hc
    simp only [List.mem_append, List.mem_cons] at hc ⊢
    tauto
  have hplt := (h.stop_lt hp).2
  have hnlt := (h.stop_lt hn).2
  have hpstop : p.start ≤ p.stop := Nat.le_add_right _ _
  have hnstop : n.start ≤ n.stop := Nat.le_add_right _ _
  have hfields : ∀ c ∈ as ++ p :: x :: bs,
      blockSize (unlinkBlock m x.start) c.start = blockSize m c.start ∧
      blockNext (unlinkBlock m x.start) c.start =
        (if c.start = p.start then n.start else blockNext m c.start) ∧
      blockPrev (unlinkBlock m x.start) c.start =
        if c.start = n.start then p.start else blockPrev m c.start := by
    intro c hc
    rw [h.unlinkBlock_eq, ← hnx]
    exact relink_fields (h.nodesApart hp hc) (h.nodesApart hn hc) (by omega) (by omega)
  refine ⟨h.unlink rfl (.inl rfl) ?_ ?_ ?_, ?_, ?_⟩
  · intro c hc
    rw [(hfields c (hmem c hc)).2.1, hnx]
  · intro c hc
    rw [(hfields c (hmem c hc)).2.2, hnx]
  · intro c hc
    rw [(hfields c (hmem c hc)).1, h.size c (hmem c hc)]
  · rw [(hfields x hx).1, h.size x hx]
  · intro y hy
    have hout : ∀ c ∈ as ++ p :: x :: bs, y < c.start ∨ c.start + sizeofFreeBlock ≤ y := by
      intro c hc
      have hyc := hy c hc
      have := (h.stop_lt hc).1
      rw [Extent.mem_def] at hyc
      omega
    rw [h.unlinkBlock_eq, ← hnx, setPrev_of_notMem _ (hout n hn), setNext_of_notMem m (hout p hp)]

/-- INTERNAL: a block becomes an allocated block.
SRCLINE: kmm.c:112-118 -/
theorem takeWhole_spec (h : FreeListAt m (as ++ p :: x :: bs)) (hfit : bytes ≤ x.len) :
    ∃ m', takeWhole m x.start bytes = (x.start + sizeofSizeT, m') ∧
      FreeListAt m' (as ++ p :: bs) ∧ blockSize m' x.start = bytes ∧
      ∀ y, (∀ c ∈ as ++ p :: x :: bs, y ∉ c) → m' y = m y := by
  have hx : x ∈ as ++ p :: x :: bs := by simp
  obtain ⟨hxwide, hxlt⟩ := h.stop_lt hx
  have hpay : add32 x.start sizeofSizeT = x.start + sizeofSizeT :=
    add32_eq (by unfold sizeofSizeT sizeofFreeBlock at *; omega)
  obtain ⟨hlist, -, hframe⟩ := unlinkBlock_spec h
  have hheader : ∀ y, y ∉ x → (unlinkBlock m x.start).save 4 x.start bytes y =
      unlinkBlock m x.start y := by
    intro y hy
    rw [Extent.mem_def] at hy
    unfold sizeofFreeBlock at hxwide
    exact Store.save_of_notMem _ (by omega)
  refine ⟨(unlinkBlock m x.start).save 4 x.start bytes, ?_, ?_, ?_, ?_⟩
  · unfold takeWhole
    rw [hpay]
  · refine hlist.congr fun c hc y hy => hheader y fun hyx => ?_
    -- the blocks that stay are apart from the one that leaves
    have hcx : c ∈ as ++ p :: x :: bs ∧ c.start ≠ x.start := by
      simp only [List.mem_append, List.mem_cons] at hc ⊢
      refine ⟨by tauto, ?_⟩
      rcases hc with hc | rfl | hc
      · exact h.from_second.start_ne (.inl (by simp [hc]))
      · exact h.from_second.start_ne (.inl (by simp))
      · exact h.from_second.start_ne (.inr hc)
    rw [Extent.mem_def] at hy hyx
    obtain heq | hap := h.eq_or_apart hcx.1 hx
    · exact hcx.2 (congrArg Extent.start heq)
    · unfold Extent.Apart at hap
      omega
  · have := h.size x hx
    have := blockSize_lt m x.start
    exact blockSize_save_self (by omega)
  · intro y hy
    rw [hheader y (hy x hx), hframe y hy]

/-- `find_first_fit` would hand `b` out whole. -/
def WholeFit (fl : List Extent) (bytes : ℕ) (b : Extent) : Prop :=
  firstFit fl bytes = some b ∧ b.len < bytes + sizeofFreeBlock

/-- What an allocation of `bytes` bytes does to the free blocks: `Taken fl bytes fl' e`
says that `fl'` are the free blocks afterwards and `e` is the allocated one. -/
inductive Taken (fl : List Extent) (bytes : ℕ) : List Extent → Extent → Prop
  | tail {as bs : List Extent} {b : Extent} (hfl : fl = as ++ b :: bs)
      (hfit : bytes + sizeofFreeBlock ≤ b.len) :
      Taken fl bytes (as ++ ⟨b.start, b.len - bytes⟩ :: bs) ⟨b.stop - bytes, bytes⟩
  | whole {as bs : List Extent} {p b : Extent} (hfl : fl = as ++ p :: b :: bs)
      (hfit : bytes ≤ b.len) (hwhole : WholeFit fl bytes b) :
      Taken fl bytes (as ++ p :: bs) ⟨b.start, bytes⟩

/-- INTERNAL: the block found is handed out, when it is not the head handed out whole.
SRCLINE: kmm.c:101-121 -/
theorem kmalloc_found (h : FreeListAt m fl) {n : ℕ}
    (hn : allocBytes n + sizeofFreeBlock < 2 ^ 32) (hpos : sizeofSizeT ≤ allocBytes n)
    (hfirst : firstFit fl (allocBytes n) = some b)
    (hhead : WholeFit fl (allocBytes n) b → b.start ≠ heapStart) :
    ∃ m' fl' e, kmalloc m n = some (e.start + sizeofSizeT, m') ∧
      Taken fl (allocBytes n) fl' e ∧ FreeListAt m' fl' ∧ blockSize m' e.start = e.len ∧
      ∀ y, (∀ c ∈ fl, y ∉ c) → m' y = m y := by
  rw [kmalloc_eq h hn, hfirst]
  obtain ⟨hb, hfit⟩ := mem_of_firstFit hfirst
  obtain ⟨as, bs, rfl⟩ := List.append_of_mem hb
  rw [takeFrom]
  split
  next hcarve =>
    obtain ⟨m', heq, hlist, hsize, hframe⟩ := carveTail_spec h hpos hcarve
    exact ⟨m', _, _, by rw [heq], .tail rfl hcarve, hlist, hsize, fun y hy => hframe y (hy b hb)⟩
  next hcarve =>
    have hwhole : WholeFit (as ++ b :: bs) (allocBytes n) b := ⟨hfirst, by omega⟩
    have hne := hhead hwhole
    cases as using List.reverseRecOn with
    | nil => exact absurd (by simpa using h.first) hne
    | append_singleton as p =>
        rw [List.append_assoc, List.singleton_append] at h hwhole ⊢
        obtain ⟨m', heq, hlist, hsize, hframe⟩ := takeWhole_spec h hfit
        exact ⟨m', _, _, by rw [heq], .whole rfl hfit hwhole, hlist, hsize, hframe⟩

/-- **Allocating a block.**  When the head is not handed out, `kmalloc` returns `NULL` and
changes nothing, or takes its bytes from a free block and leaves the others alone.
SRCLINE: kmm.c:89-124 -/
theorem kmalloc_spec (h : FreeListAt m fl) {n : ℕ}
    (hn : allocBytes n + sizeofFreeBlock < 2 ^ 32) (hpos : sizeofSizeT ≤ allocBytes n)
    (hhead : ∀ b, WholeFit fl (allocBytes n) b → b.start ≠ heapStart) :
    kmalloc m n = some (0, m) ∨
    ∃ m' fl' e, kmalloc m n = some (e.start + sizeofSizeT, m') ∧
      Taken fl (allocBytes n) fl' e ∧ FreeListAt m' fl' ∧ blockSize m' e.start = e.len ∧
      ∀ y, (∀ c ∈ fl, y ∉ c) → m' y = m y := by
  cases hfirst : firstFit fl (allocBytes n) with
  | none =>
      left
      rw [kmalloc_eq h hn, hfirst]
      rfl
  | some b => exact .inr (kmalloc_found h hn hpos hfirst (hhead b))

/-! ## Freeing a block -/

/-- INTERNAL: what merging a block into the previous one does to memory. -/
theorem FreeListAt.merge_spec (h : FreeListAt m (as ++ p :: x :: bs)) (htouch : p.stop = x.start) {n : ℕ}
    (hn : n = blockNext m x.start) {m' : Memory}
    (hm' : m' = setSize (setPrev (setNext m p.start n) n p.start) p.start (p.len + x.len)) :
    FreeListAt m' (as ++ ⟨p.start, p.len + x.len⟩ :: bs) ∧
      ∀ y, (∀ c ∈ as ++ p :: x :: bs, y ∉ c) → m' y = m y := by
  have hp : p ∈ as ++ p :: x :: bs := by simp
  have hx : x ∈ as ++ p :: x :: bs := by simp
  have hxlt := (h.stop_lt hx).2
  obtain ⟨c, hc, hcn⟩ := h.next_mem hx
  obtain rfl : c.start = n := hcn.trans hn.symm
  have hclt := h.stop_lt hc
  have hplt := h.stop_lt hp
  have hlen : p.len + x.len < 2 ^ 32 := by
    unfold Extent.stop at *
    omega
  have hfields : ∀ d ∈ as ++ p :: x :: bs,
      blockSize m' d.start = (if d.start = p.start then p.len + x.len else d.len) ∧
      blockNext m' d.start = (if d.start = p.start then c.start else blockNext m d.start) ∧
      blockPrev m' d.start = if d.start = c.start then p.start else blockPrev m d.start := by
    intro d hd
    obtain ⟨hsize, hnext, hprev⟩ := relink_fields (m := m) (h.nodesApart hp hd)
      (h.nodesApart hc hd) (by omega) (by omega)
    rw [hm', blockSize_setSize _ (h.nodesApart hp hd) hlen,
      blockNext_setSize _ (h.nodesApart hp hd) hlen,
      blockPrev_setSize _ (h.nodesApart hp hd) hlen, hsize, hnext, hprev, h.size d hd]
    exact ⟨rfl, rfl, rfl⟩
  have hmem : ∀ d, d ∈ as ∨ d ∈ bs → d ∈ as ++ p :: x :: bs := by
    intro d hd
    simp only [List.mem_append, List.mem_cons]
    tauto
  have hmem' : ∀ d ∈ as ++ p :: bs, d ∈ as ++ p :: x :: bs := by
    intro d hd
    simp only [List.mem_append, List.mem_cons] at hd ⊢
    tauto
  refine ⟨h.unlink rfl (.inr ?_) ?_ ?_ ?_, ?_⟩
  · simp only [Extent.stop] at htouch ⊢
    omega
  · intro d hd
    rw [(hfields d (hmem' d hd)).2.1, hn]
  · intro d hd
    rw [(hfields d (hmem' d hd)).2.2, hn]
  · intro d hd
    simp only [List.mem_append, List.mem_cons] at hd
    rcases hd with hd | rfl | hd
    · rw [(hfields d (hmem d (.inl hd))).1, if_neg (h.start_ne (.inl hd))]
    · exact (hfields p hp).1.trans (if_pos rfl)
    · rw [(hfields d (hmem d (.inr hd))).1,
        if_neg (h.start_ne (.inr (List.mem_cons_of_mem x hd)))]
  · intro y hy
    have hout : ∀ d ∈ as ++ p :: x :: bs, y < d.start ∨ d.start + sizeofFreeBlock ≤ y := by
      intro d hd
      have hyd := hy d hd
      have := (h.stop_lt hd).1
      rw [Extent.mem_def] at hyd
      omega
    rw [hm', setSize_of_notMem _ (hout p hp), setPrev_of_notMem _ (hout c hc),
      setNext_of_notMem m (hout p hp)]

/-- The list from `p` on when `e`, the block behind it, is merged into it if the two
touch. -/
def mergeBack (p e : Extent) (bs : List Extent) : List Extent :=
  if p.stop = e.start then ⟨p.start, p.len + e.len⟩ :: bs else p :: e :: bs

/-- The list from `p` on when `coalesce_neighbors` has looked at `e`, the block behind
it: the next block is merged into `e`, or else `e` into `p`. -/
def coalesced (p e : Extent) : List Extent → List Extent
  | [] => mergeBack p e []
  | n :: bs =>
      if e.stop = n.start then p :: ⟨e.start, e.len + n.len⟩ :: bs else mergeBack p e (n :: bs)

/-- INTERNAL: the second half of `coalesce_neighbors`.
SRCLINE: kmm.c:142-148 -/
theorem mergeBack_spec {e : Extent} (h : FreeListAt m (as ++ p :: e :: bs)) {n : ℕ} {m' : Memory}
    (hn : n = blockNext m e.start)
    (hm' : m' = if p.stop = e.start then
      setSize (setPrev (setNext m p.start n) n p.start) p.start (p.len + e.len) else m) :
    FreeListAt m' (as ++ mergeBack p e bs) ∧
      ∀ y, (∀ c ∈ as ++ p :: e :: bs, y ∉ c) → m' y = m y := by
  unfold mergeBack
  split
  next htouch => exact h.merge_spec htouch hn (hm'.trans (if_pos htouch))
  next htouch =>
    rw [if_neg htouch] at hm'
    subst hm'
    exact ⟨h, fun _ _ => rfl⟩

/-- INTERNAL: the assignments that merge `x` into `p` and the sum they store. -/
theorem FreeListAt.merge_size (h : FreeListAt m fl) {n : Extent} (hp : p ∈ fl) (hx : x ∈ fl)
    (hn : n ∈ fl) (htouch : p.stop = x.start) :
    add32 (blockSize (setPrev (setNext m p.start n.start) n.start p.start) p.start)
      (blockSize (setPrev (setNext m p.start n.start) n.start p.start) x.start) =
      p.len + x.len := by
  have hplt := h.stop_lt hp
  have hnlt := h.stop_lt hn
  have hxlt := h.stop_lt hx
  rw [(relink_fields (h.nodesApart hp hp) (h.nodesApart hn hp) (by omega) (by omega)).1,
    (relink_fields (h.nodesApart hp hx) (h.nodesApart hn hx) (by omega) (by omega)).1,
    h.size p hp, h.size x hx]
  exact add32_eq (by unfold Extent.stop at *; omega)

/-- INTERNAL: `coalesce_neighbors` on a block that is not alone, `n` being the next block
and `k` the one behind it.
SRCLINE: kmm.c:126-149 -/
theorem coalesceNeighbors_eq {e n k : Extent} (h : FreeListAt m (as ++ p :: e :: bs))
    (hn : n ∈ as ++ p :: e :: bs) (hk : k ∈ as ++ p :: e :: bs)
    (hen : blockNext m e.start = n.start) (hnk : blockNext m n.start = k.start)
    (hne : n.start ≠ e.start) :
    coalesceNeighbors m e.start =
      if e.stop = n.start then
        setSize (setPrev (setNext m e.start k.start) k.start e.start) e.start (e.len + n.len)
      else if p.stop = e.start then
        setSize (setPrev (setNext m p.start n.start) n.start p.start) p.start (p.len + e.len)
      else m := by
  have hp : p ∈ as ++ p :: e :: bs := by simp
  have he : e ∈ as ++ p :: e :: bs := by simp
  have hplt := h.stop_lt hp
  have helt := h.stop_lt he
  have hklt := h.stop_lt hk
  have hpe : p.start ≠ e.start := (h.start_ne (.inr List.mem_cons_self)).symm
  have hadd : add32 e.start e.len = e.stop := add32_eq (by unfold Extent.stop at helt; omega)
  have hadd' : add32 p.start p.len = p.stop := add32_eq (by unfold Extent.stop at hplt; omega)
  have hnk' : blockNext (setPrev m k.start e.start) n.start = k.start := by
    rw [blockNext_setPrev m (h.nodesApart hk hn) (by omega), hnk]
  unfold coalesceNeighbors
  simp only [h.next_prev.2, h.size e he, h.size p hp, hadd, hadd', hen, hne, hpe, or_self,
    if_false, hnk, hnk']
  split
  next htouch =>
    rw [setNext_setPrev_comm m (h.nodesApart he hk), h.merge_size he hn hk htouch]
  next =>
    split
    next htouch => rw [h.merge_size hp he hn htouch]
    next => rfl

/-- INTERNAL: a block is merged with the next one or else with the previous one.
SRCLINE: kmm.c:126-149 -/
theorem coalesceNeighbors_spec {e : Extent} (h : FreeListAt m (as ++ p :: e :: bs)) :
    FreeListAt (coalesceNeighbors m e.start) (as ++ coalesced p e bs) ∧
      ∀ y, (∀ c ∈ as ++ p :: e :: bs, y ∉ c) → coalesceNeighbors m e.start y = m y := by
  have he : e ∈ as ++ p :: e :: bs := by simp
  cases bs with
  | nil =>
      obtain ⟨n, hn, hen⟩ := h.next_mem he
      obtain ⟨k, hk, hnk⟩ := h.next_mem hn
      have hlast := h.from_second.next_last
      have hp := h.inside p (by simp)
      have hpe := (Extent.ascending_middle.mp h.ascending).2.2 e List.mem_cons_self
      have hwide := h.stop_lt (b := p) (by simp)
      unfold sizeofFreeBlock at hwide
      have hstop : e.start ≤ e.stop := Nat.le_add_right _ _
      have heq := coalesceNeighbors_eq h hn hk hen.symm hnk.symm (by omega)
      rw [if_neg (by omega)] at heq
      exact mergeBack_spec h hen heq
  | cons n bs =>
      have hn : n ∈ as ++ p :: e :: n :: bs := by simp
      have hen := h.from_second.next_prev.1
      obtain ⟨k, hk, hnk⟩ := h.next_mem hn
      have hne := h.from_second.start_ne (.inr (List.mem_cons_self (a := n) (l := bs)))
      have heq := coalesceNeighbors_eq h hn hk hen hnk.symm hne
      rw [coalesced]
      split
      next htouch =>
        rw [if_pos htouch] at heq
        obtain ⟨hlist, hframe⟩ := h.from_second.merge_spec htouch hnk heq
        refine ⟨by simpa using hlist, fun y hy => hframe y (by simpa using hy)⟩
      next htouch =>
        rw [if_neg htouch] at heq
        exact mergeBack_spec h hen.symm heq

/-- INTERNAL: the four stores, with the block `n` behind `p`. -/
theorem linkBlock_eq {p n : ℕ} (e : ℕ) (hnext : n = blockNext m p) : linkBlock m p e =
    setPrev (setNext (setNext (setPrev m n e) p e) e n) e p := by
  unfold linkBlock
  rw [← hnext]

/-- INTERNAL: what a node holds afterwards that is one of the three or apart from them. -/
theorem linkBlock_fields {p n e c : ℕ} (hnext : n = blockNext m p) (hcn : NodesApart n c)
    (hcp : NodesApart p c) (hce : NodesApart e c) (hn : n < 2 ^ 32) (hp : p < 2 ^ 32)
    (he : e < 2 ^ 32) :
    blockSize (linkBlock m p e) c = blockSize m c ∧
    blockNext (linkBlock m p e) c =
      (if c = e then n else if c = p then e else blockNext m c) ∧
    blockPrev (linkBlock m p e) c =
      if c = e then p else if c = n then e else blockPrev m c := by
  rw [linkBlock_eq e hnext]
  refine ⟨?_, ?_, ?_⟩
  · rw [blockSize_setPrev _ hce hp, blockSize_setNext _ hce hn, blockSize_setNext _ hcp he,
      blockSize_setPrev _ hcn he]
  · rw [blockNext_setPrev _ hce hp, blockNext_setNext _ hce hn, blockNext_setNext _ hcp he,
      blockNext_setPrev _ hcn he]
  · rw [blockPrev_setPrev _ hce hp, blockPrev_setNext _ hce hn, blockPrev_setNext _ hcp he,
      blockPrev_setPrev _ hcn he]

/-- INTERNAL: a block enters the list behind `p`.
SRCLINE: kmm.c:72-78 -/
theorem linkBlock_spec {e : Extent} (h : FreeListAt m (as ++ p :: bs)) (hpe : p.stop ≤ e.start)
    (heb : ∀ b ∈ bs, e.stop ≤ b.start) (hwide : sizeofFreeBlock ≤ e.len)
    (hstop : e.stop ≤ heapStart + heapSize) (hsize : blockSize m e.start = e.len) :
    FreeListAt (linkBlock m p.start e.start) (as ++ p :: e :: bs) ∧
      ∀ y, (∀ c ∈ as ++ p :: bs, y ∉ c) → y ∉ e → linkBlock m p.start e.start y = m y := by
  have hp : p ∈ as ++ p :: bs := by simp
  obtain ⟨n, hn, hnext⟩ := h.next_mem hp
  have hasc := h.ascending.insert hpe heb
  have hw := h.wide
  have hall : ∀ b ∈ as ++ p :: e :: bs, sizeofFreeBlock ≤ b.len := by
    simp only [List.forall_mem_append, List.forall_mem_cons] at hw ⊢
    exact ⟨hw.1, hw.2.1, hwide, hw.2.2⟩
  have hap : ∀ {a b}, a ∈ as ++ p :: e :: bs → b ∈ as ++ p :: e :: bs →
      NodesApart a.start b.start := nodesApart_of_ascending hasc hall
  have hmem : ∀ c ∈ as ++ p :: bs, c ∈ as ++ p :: e :: bs := by
    intro c hc
    simp only [List.mem_append, List.mem_cons] at hc ⊢
    tauto
  have he : e ∈ as ++ p :: e :: bs := by simp
  have hnlt := h.stop_lt hn
  have hplt := h.stop_lt hp
  have helt : e.start < 2 ^ 32 := by
    unfold Extent.stop heapStart heapSize at *
    omega
  have hfields := fun c (hc : c ∈ as ++ p :: e :: bs) =>
    linkBlock_fields hnext (hap (hmem n hn) hc) (hap (hmem p hp) hc) (hap he hc)
      (show n.start < 2 ^ 32 by omega) (show p.start < 2 ^ 32 by omega) helt
  constructor
  · refine h.link hpe heb hwide hstop ?_ ?_ ?_
    · intro c hc
      rw [(hfields c hc).2.1, hnext]
    · intro c hc
      rw [(hfields c hc).2.2, hnext]
    · intro c hc
      rw [(hfields c hc).1]
      simp only [List.mem_append, List.mem_cons] at hc
      rcases hc with hc | rfl | rfl | hc
      · exact h.size c (by simp [hc])
      · exact h.size c hp
      · exact hsize
      · exact h.size c (by simp [hc])
  · intro y hy hye
    have hout : ∀ c ∈ as ++ p :: bs, y < c.start ∨ c.start + sizeofFreeBlock ≤ y := by
      intro c hc
      have hyc := hy c hc
      have := (h.stop_lt hc).1
      rw [Extent.mem_def] at hyc
      omega
    have houte : y < e.start ∨ e.start + sizeofFreeBlock ≤ y := by
      rw [Extent.mem_def] at hye
      unfold Extent.stop at hye
      omega
    rw [linkBlock_eq _ hnext, setPrev_of_notMem _ houte, setNext_of_notMem _ houte,
      setNext_of_notMem _ (hout p hp), setPrev_of_notMem _ (hout n hn)]

/-- INTERNAL: the search for the place of a freed block stops behind the last free block
below it.
SRCLINE: kmm.c:68-70 -/
theorem kfreeSeek_spec {e : Extent} {fuel : ℕ} (h : FreeListAt m (as ++ p :: bs))
    (hpe : p.stop ≤ e.start) (hapart : ∀ b ∈ bs, e.Apart b) (hfuel : bs.length ≤ fuel) :
    ∃ as' q bs', as ++ p :: bs = as' ++ q :: bs' ∧ kfreeSeek m e.start fuel p.start = q.start ∧
      q.stop ≤ e.start ∧ ∀ b ∈ bs', e.stop ≤ b.start := by
  induction bs generalizing as p fuel with
  | nil =>
      refine ⟨as, p, [], rfl, ?_, hpe, by simp⟩
      have hnext := h.next_last
      have hle := (h.inside p (by simp)).1
      cases fuel with
      | zero => rfl
      | succ fuel =>
          rw [kfreeSeek, hnext, if_neg (by omega)]
  | cons c bs ih =>
      obtain ⟨fuel, rfl⟩ := Nat.exists_eq_succ_of_ne_zero (Nat.ne_zero_of_lt hfuel)
      have hnext := h.next_prev.1
      have hpc := (Extent.ascending_middle.mp h.ascending).2.2 c List.mem_cons_self
      have hpwide := (h.stop_lt (b := p) (by simp)).1
      have hcwide := (h.stop_lt (b := c) (by simp)).1
      unfold sizeofFreeBlock at hpwide hcwide
      have hec := hapart c List.mem_cons_self
      unfold Extent.Apart at hec
      rw [kfreeSeek, hnext]
      by_cases hlt : c.start < e.start
      · rw [if_pos ⟨hlt, by omega⟩]
        have hstop : e.start ≤ e.stop := Nat.le_add_right _ _
        obtain ⟨as', q, bs', hsplit, hseek, hq, hbs⟩ := ih h.from_second (by omega)
          (fun b hb => hapart b (List.mem_cons_of_mem c hb)) (by simpa using hfuel)
        exact ⟨as', q, bs', by rw [← hsplit, List.append_assoc]; rfl, hseek, hq, hbs⟩
      · rw [if_neg (by omega)]
        have hce : e.stop ≤ c.start := by omega
        refine ⟨as, p, c :: bs, rfl, rfl, hpe, List.forall_mem_cons.mpr ⟨hce, ?_⟩⟩
        intro b hb
        have := (Extent.ascending_middle.mp h.from_second.ascending).2.2 b hb
        omega

/-- **Freeing a block.**  A block above the head and apart from the free blocks is put
between the last free block below it and the rest of the list, and merged there.
SRCLINE: kmm.c:60-81 -/
theorem kfree_spec {e : Extent} (h : FreeListAt m fl) (hstart : heapStart < e.start)
    (hstop : e.stop ≤ heapStart + heapSize) (hwide : sizeofFreeBlock ≤ e.len)
    (hsize : blockSize m e.start = e.len) (hapart : ∀ b ∈ fl, e.Apart b) :
    ∃ as p bs, fl = as ++ p :: bs ∧ p.stop ≤ e.start ∧ (∀ b ∈ bs, e.stop ≤ b.start) ∧
      FreeListAt (kfree m (e.start + sizeofSizeT)) (as ++ coalesced p e bs) ∧
      ∀ y, (∀ c ∈ fl, y ∉ c) → y ∉ e → kfree m (e.start + sizeofSizeT) y = m y := by
  obtain ⟨hd, tl, rfl⟩ := List.exists_cons_of_ne_nil h.ne_nil
  have hhd : hd.start = heapStart := by simpa using h.first
  have hhdlt := h.stop_lt (b := hd) (by simp)
  have hestart : e.start < 2 ^ 32 - 8 := by
    unfold Extent.stop heapStart heapSize sizeofFreeBlock at *
    omega
  have hsub : sub32 (e.start + sizeofSizeT) sizeofSizeT = e.start := by
    unfold sizeofSizeT
    rw [sub32_eq (by omega) (by omega), Nat.add_sub_cancel]
  have hhde : hd.stop ≤ e.start := by
    have hap := hapart hd (by simp)
    unfold Extent.Apart Extent.stop at *
    omega
  -- with a single block the search stops at once
  have hiter : (if heapStart ≠ blockNext m heapStart then
      kfreeSeek m e.start e.start heapStart else heapStart) =
        kfreeSeek m e.start e.start hd.start := by
    rw [hhd]
    split
    next => rfl
    next heq =>
      obtain ⟨fuel, hfuel⟩ := Nat.exists_eq_succ_of_ne_zero (Nat.ne_zero_of_lt hstart)
      rw [hfuel, kfreeSeek, if_neg (by omega)]
  have hfuel : tl.length ≤ e.start := by
    have hlen := h.length_le
    rw [List.length_cons] at hlen
    unfold heapStart heapSize at *
    omega
  obtain ⟨as, p, bs, hsplit, hseek, hpe, heb⟩ := kfreeSeek_spec
    (show FreeListAt m ([] ++ hd :: tl) from h) hhde
    (fun b hb => hapart b (List.mem_cons_of_mem hd hb)) hfuel
  rw [List.nil_append] at hsplit
  rw [hsplit] at h ⊢
  obtain ⟨hlist, hframe⟩ := linkBlock_spec h hpe heb hwide hstop hsize
  obtain ⟨hlist', hframe'⟩ := coalesceNeighbors_spec hlist
  have hkfree : kfree m (e.start + sizeofSizeT) =
      coalesceNeighbors (linkBlock m p.start e.start) e.start := by
    unfold kfree
    simp only [hsub, hiter, hseek]
  refine ⟨as, p, bs, rfl, hpe, heb, hkfree ▸ hlist', fun y hy hye => ?_⟩
  rw [hkfree, hframe' y ?_, hframe y hy hye]
  intro c hc
  simp only [List.mem_append, List.mem_cons] at hc hy
  rcases hc with hc | rfl | rfl | hc
  · exact hy c (.inl hc)
  · exact hy c (.inr (.inl rfl))
  · exact hye
  · exact hy c (.inr (.inr hc))

end LakeOS.Analysis
