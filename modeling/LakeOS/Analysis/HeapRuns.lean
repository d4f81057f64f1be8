import LakeOS.Analysis.HeapOperations

/-!
# Runs of the kernel heap

A run starts after `KMM_init`.  Its steps are calls of `kmalloc(n)` with `n` at most
`HEAP_SIZE`, calls of `kfree` on a pointer that `kmalloc` returned and that was not freed
since, and assignments of a client to a byte of its payload.

`HeapRep m fl live` ties a memory to its free blocks and its allocated ones.  It holds in
every run that does not hand out the head of the free list (`HeapRep.step`), and
`HeapChange` says what each step does to the two lists of blocks.
-/

set_option autoImplicit false

namespace LakeOS.Analysis

open LakeOS.Library LakeOS.Model

/-- Memory and the allocations that were not freed yet. -/
structure HeapState where
  mem : Memory
  live : List ℕ

/-- The block of the allocation `p`: the size header comes first. -/
def liveBlock (m : Memory) (p : ℕ) : Extent :=
  ⟨p - sizeofSizeT, blockSize m (p - sizeofSizeT)⟩

/-- What the users of the heap do. -/
inductive HeapOp where
  | kmalloc (n : ℕ)
  | kfree (p : ℕ)
  | store (x : ℕ) (v : Byte)

/-- One step of a run. -/
inductive HeapStep (s : HeapState) : HeapOp → HeapState → Prop
  | null {n : ℕ} {m' : Memory} (hn : n ≤ heapSize) (hrun : kmalloc s.mem n = some (0, m')) :
      HeapStep s (.kmalloc n) ⟨m', s.live⟩
  | kmalloc {n p : ℕ} {m' : Memory} (hn : n ≤ heapSize)
      (hrun : kmalloc s.mem n = some (p, m')) (hp : p ≠ 0) :
      HeapStep s (.kmalloc n) ⟨m', p :: s.live⟩
  | kfree {p : ℕ} {l₁ l₂ : List ℕ} (hlive : s.live = l₁ ++ p :: l₂) :
      HeapStep s (.kfree p) ⟨kfree s.mem p, l₁ ++ l₂⟩
  | store {p x : ℕ} {v : Byte} (hp : p ∈ s.live) (hx : p ≤ x ∧ x < (liveBlock s.mem p).stop) :
      HeapStep s (.store x v) ⟨Function.update s.mem x v, s.live⟩

/-- The state after `KMM_init`. -/
def heapInit (m : Memory) : HeapState := ⟨kmmInit m, []⟩

/-- `s` is reached from `KMM_init` by steps that meet `Allowed`. -/
def HeapRun (Allowed : HeapState → HeapOp → Prop) (m : Memory) (s : HeapState) : Prop :=
  Relation.ReflTransGen (fun s s' => ∃ op, Allowed s op ∧ HeapStep s op s') (heapInit m) s

/-- The nodes from `iter` round to the head. -/
def freeListLoop (m : Memory) : ℕ → ℕ → Option (List Extent)
  | 0, _ => none
  | fuel + 1, iter =>
      if blockNext m iter = heapStart then some [⟨iter, blockSize m iter⟩]
      else (freeListLoop m fuel (blockNext m iter)).map (⟨iter, blockSize m iter⟩ :: ·)

/-- The blocks on the free list, read from memory. -/
def freeList (m : Memory) : Option (List Extent) := freeListLoop m heapSize heapStart

variable {m m' : Memory} {fl fl' live as bs : List Extent} {e p : Extent} {bytes : ℕ}

theorem freeListLoop_eq (h : FreeListAt m (as ++ p :: bs)) {fuel : ℕ} (hfuel : bs.length < fuel) :
    freeListLoop m fuel p.start = some (p :: bs) := by
  induction bs generalizing as p fuel with
  | nil =>
      obtain ⟨fuel, rfl⟩ := Nat.exists_eq_succ_of_ne_zero (Nat.ne_zero_of_lt hfuel)
      rw [freeListLoop, if_pos h.next_last, h.size p (by simp)]
  | cons c bs ih =>
      obtain ⟨fuel, rfl⟩ := Nat.exists_eq_succ_of_ne_zero (Nat.ne_zero_of_lt hfuel)
      have hpc := (Extent.ascending_middle.mp h.ascending).2.2 c List.mem_cons_self
      have hp := (h.inside p (by simp)).1
      have hpwide := (h.stop_lt (b := p) (by simp)).1
      unfold sizeofFreeBlock at hpwide
      rw [freeListLoop, h.next_prev.1, if_neg (by omega), h.size p (by simp),
        ih h.from_second (by simpa using hfuel)]
      rfl

/-- The free list read from memory is the list memory holds. -/
theorem FreeListAt.freeList_eq (h : FreeListAt m fl) : freeList m = some fl := by
  obtain ⟨hd, tl, rfl⟩ := List.exists_cons_of_ne_nil h.ne_nil
  have hhd : hd.start = heapStart := by simpa using h.first
  have hlen := h.length_le
  unfold freeList
  rw [← hhd]
  exact freeListLoop_eq (show FreeListAt m ([] ++ hd :: tl) from h) hlen

/-- Memory `m` holds the free blocks `fl` and the allocated blocks `live`. -/
structure HeapRep (m : Memory) (fl live : List Extent) : Prop where
  free : FreeListAt m fl
  header : ∀ e ∈ live, blockSize m e.start = e.len
  wide : ∀ e ∈ live, sizeofFreeBlock ≤ e.len
  packed : Extent.Packed heapStart (heapStart + heapSize) (fl ++ live)

/-! ## The blocks of one step -/

theorem Taken.packed (h : Taken fl bytes fl' e)
    (hp : Extent.Packed heapStart (heapStart + heapSize) (fl ++ live)) :
    Extent.Packed heapStart (heapStart + heapSize) (fl' ++ e :: live) := by
  cases h with
  | @tail as bs b hfl hfit =>
      have hperm : (fl ++ live).Perm (b :: (as ++ bs ++ live)) := by
        rw [hfl, List.append_assoc, List.append_assoc]
        exact List.perm_middle
      have hstop : b.stop - bytes + bytes = b.stop := by
        unfold Extent.stop
        omega
      have hsplit : Extent.Packed heapStart (heapStart + heapSize)
          (⟨b.start, b.len - bytes⟩ :: ⟨b.stop - bytes, bytes⟩ :: (as ++ bs ++ live)) := by
        refine (hp.perm hperm).split rfl ?_ hstop
        simp only [Extent.stop]
        omega
      refine hsplit.perm ?_
      rw [List.perm_iff_count]
      intro a
      simp only [List.count_append, List.count_cons]
      omega
  | @whole as bs p b hfl hfit hwhole =>
      have hperm : (fl ++ live).Perm (b :: (as ++ p :: bs ++ live)) := by
        rw [hfl, List.perm_iff_count]
        intro a
        simp only [List.count_append, List.count_cons]
        omega
      have hshrink : Extent.Packed heapStart (heapStart + heapSize)
          (⟨b.start, bytes⟩ :: (as ++ p :: bs ++ live)) :=
        (hp.perm hperm).shrink le_rfl (by simp only [Extent.stop]; omega)
      exact hshrink.perm List.perm_middle.symm

/-- INTERNAL: no byte is lost when a block handed out whole has the size asked for. -/
theorem Taken.total (h : Taken fl bytes fl' e) (hexact : ∀ b, WholeFit fl bytes b → b.len = bytes) :
    Extent.total fl' + e.len = Extent.total fl := by
  cases h with
  | tail hfl hfit =>
      simp only [hfl, Extent.total_append, Extent.total_cons]
      omega
  | whole hfl hfit hwhole =>
      have := hexact _ hwhole
      simp only [hfl, Extent.total_append, Extent.total_cons]
      omega

theorem Taken.len_eq (h : Taken fl bytes fl' e) : e.len = bytes := by
  cases h with
  | tail => rfl
  | whole => rfl

theorem total_coalesced (p e : Extent) (bs : List Extent) :
    Extent.total (coalesced p e bs) = p.len + e.len + Extent.total bs := by
  have hback : ∀ bs, Extent.total (mergeBack p e bs) = p.len + e.len + Extent.total bs := by
    intro bs
    unfold mergeBack
    split
    next => rfl
    next =>
      simp only [Extent.total_cons]
      omega
  cases bs with
  | nil => exact hback []
  | cons n bs =>
      rw [coalesced]
      split
      next =>
        simp only [Extent.total_cons]
        omega
      next => exact hback (n :: bs)

/-- INTERNAL: merging touches no address outside the merged blocks. -/
theorem coalesced_packed {rest : List Extent}
    (hp : Extent.Packed heapStart (heapStart + heapSize) (p :: e :: bs ++ rest))
    (hpos : ∀ b ∈ p :: e :: bs ++ rest, 0 < b.len) :
    Extent.Packed heapStart (heapStart + heapSize) (coalesced p e bs ++ rest) := by
  have hback : Extent.Packed heapStart (heapStart + heapSize) (mergeBack p e bs ++ rest) := by
    unfold mergeBack
    split
    next htouch =>
      refine Extent.Packed.merge hp rfl htouch ?_ (fun b hb => hpos b (by simp_all))
      simp only [Extent.stop] at htouch ⊢
      omega
    next => exact hp
  cases bs with
  | nil => exact hback
  | cons n bs =>
      rw [coalesced]
      split
      next htouch =>
        have hperm : (p :: e :: n :: bs ++ rest).Perm (e :: n :: (p :: (bs ++ rest))) :=
          (List.Perm.swap e p _).trans ((List.Perm.swap n p _).cons e)
        have hmerged : Extent.Packed heapStart (heapStart + heapSize)
            (⟨e.start, e.len + n.len⟩ :: p :: (bs ++ rest)) := by
          refine Extent.Packed.merge (hp.perm hperm) rfl htouch ?_ ?_
          · simp only [Extent.stop] at htouch ⊢
            omega
          · intro b hb
            refine hpos b ?_
            simp only [List.cons_append, List.mem_cons] at hb ⊢
            tauto
        exact hmerged.perm (List.Perm.swap _ _ _)
      next => exact hback

/-! ## What the steps keep -/

namespace HeapRep

theorem init (m : Memory) : HeapRep (kmmInit m) [⟨heapStart, heapSize⟩] [] := by
  refine ⟨⟨rfl, ?_, ?_, ?_, ?_, ?_⟩, by simp, by simp, ?_, ?_⟩
  · exact List.isChain_cons_cons.mpr ⟨⟨kmmInit_next m, kmmInit_prev m⟩, List.isChain_singleton _⟩
  · simpa using kmmInit_size m
  · simp only [List.mem_singleton, forall_eq]
    decide
  · exact List.pairwise_singleton _ _
  · simp only [List.mem_singleton, forall_eq]
    decide
  · simp only [List.append_nil, List.mem_singleton, forall_eq]
    decide
  · exact List.pairwise_singleton _ _

variable (h : HeapRep m fl live)

include h in
theorem apart {b : Extent} (hb : b ∈ fl) (he : e ∈ live) : b.Apart e :=
  (List.pairwise_append.mp h.packed.apart).2.2 b hb e he

include h in
theorem inside (he : e ∈ live) : heapStart ≤ e.start ∧ e.stop ≤ heapStart + heapSize :=
  h.packed.inside e (List.mem_append_right fl he)

include h in
theorem wide_all : ∀ b ∈ fl ++ live, sizeofFreeBlock ≤ b.len :=
  List.forall_mem_append.mpr ⟨h.free.wide, h.wide⟩

include h in
/-- INTERNAL: the head of the free list is below every allocated block. -/
theorem head_lt (he : e ∈ live) : heapStart < e.start := by
  obtain ⟨hd, tl, rfl⟩ := List.exists_cons_of_ne_nil h.free.ne_nil
  have hhd : hd.start = heapStart := by simpa using h.free.first
  have hap := h.apart List.mem_cons_self he
  have hin := h.inside he
  have hwide := h.wide e he
  have hwide' := h.free.wide hd List.mem_cons_self
  unfold Extent.Apart Extent.stop sizeofFreeBlock at *
  omega

include h in
/-- INTERNAL: bytes outside the free blocks are all that an allocated block is read from. -/
theorem header_congr (he : e ∈ live) (hframe : ∀ y, (∀ c ∈ fl, y ∉ c) → m' y = m y) :
    blockSize m' e.start = e.len := by
  rw [← h.header e he]
  refine Store.load_congr fun y hlo hhi => hframe y fun c hc hyc => ?_
  have hap := h.apart hc he
  have hwide := h.wide e he
  rw [Extent.mem_def] at hyc
  unfold Extent.Apart Extent.stop sizeofFreeBlock at *
  omega

include h in
theorem kmalloc (htaken : Taken fl bytes fl' e) (hlist : FreeListAt m' fl')
    (hsize : blockSize m' e.start = e.len) (hbytes : sizeofFreeBlock ≤ bytes)
    (hframe : ∀ y, (∀ c ∈ fl, y ∉ c) → m' y = m y) : HeapRep m' fl' (e :: live) where
  free := hlist
  header := List.forall_mem_cons.mpr ⟨hsize, fun _ ha => h.header_congr ha hframe⟩
  wide := List.forall_mem_cons.mpr ⟨htaken.len_eq ▸ hbytes, h.wide⟩
  packed := htaken.packed h.packed

end HeapRep

/-- INTERNAL: `kfree` moves a block from the allocated ones to the free ones.
SRCLINE: kmm.c:60-81 -/
theorem HeapRep.kfree {l₁ l₂ : List Extent} (h : HeapRep m fl (l₁ ++ e :: l₂)) :
    ∃ as p bs, fl = as ++ p :: bs ∧ p.stop ≤ e.start ∧ (∀ b ∈ bs, e.stop ≤ b.start) ∧
      HeapRep (kfree m (e.start + sizeofSizeT)) (as ++ coalesced p e bs) (l₁ ++ l₂) := by
  have he : e ∈ l₁ ++ e :: l₂ := by simp
  obtain ⟨as, p, bs, rfl, hpe, heb, hlist, hframe⟩ := kfree_spec h.free (h.head_lt he)
    (h.inside he).2 (h.wide e he) (h.header e he) fun b hb => (h.apart hb he).symm
  have hmem : ∀ a ∈ l₁ ++ l₂, a ∈ l₁ ++ e :: l₂ := by
    intro a ha
    simp only [List.mem_append, List.mem_cons] at ha ⊢
    tauto
  have hfront : Extent.Packed heapStart (heapStart + heapSize)
      (e :: (as ++ p :: bs ++ (l₁ ++ l₂))) := by
    refine h.packed.perm ?_
    rw [← List.append_assoc, ← List.append_assoc]
    exact List.perm_middle
  have hape := (Extent.packed_cons.mp hfront).2.1
  refine ⟨as, p, bs, rfl, hpe, heb, hlist, ?_, fun a ha => h.wide a (hmem a ha), ?_⟩
  · intro a ha
    rw [← h.header a (hmem a ha)]
    have hwide := h.wide a (hmem a ha)
    have hae := hape a (List.mem_append_right _ ha)
    refine Store.load_congr fun y hlo hhi => hframe y (fun c hc hyc => ?_) fun hye => ?_
    · have hac := h.apart hc (hmem a ha)
      rw [Extent.mem_def] at hyc
      unfold Extent.Apart Extent.stop sizeofFreeBlock at *
      omega
    · rw [Extent.mem_def] at hye
      unfold Extent.Apart Extent.stop sizeofFreeBlock at *
      omega
  · have hperm : (as ++ p :: bs ++ (l₁ ++ e :: l₂)).Perm
        (p :: e :: bs ++ (as ++ (l₁ ++ l₂))) := by
      rw [List.perm_iff_count]
      intro a
      simp only [List.count_append, List.count_cons]
      omega
    have hpos : ∀ b ∈ p :: e :: bs ++ (as ++ (l₁ ++ l₂)), 0 < b.len := by
      intro b hb
      exact Nat.lt_of_lt_of_le (by decide) (h.wide_all b (hperm.mem_iff.mpr hb))
    refine (coalesced_packed (h.packed.perm hperm) hpos).perm ?_
    rw [List.perm_iff_count]
    intro a
    simp only [List.count_append]
    omega

/-- INTERNAL: `kfree` writes to the free blocks and the freed block only. -/
theorem HeapRep.kfree_frame (h : HeapRep m fl live) (he : e ∈ live) :
    ∀ y, (∀ c ∈ fl, y ∉ c) → y ∉ e → Model.kfree m (e.start + sizeofSizeT) y = m y := by
  obtain ⟨as, p, bs, -, -, -, -, hframe⟩ := kfree_spec h.free (h.head_lt he) (h.inside he).2
    (h.wide e he) (h.header e he) fun b hb => (h.apart hb he).symm
  exact hframe

/-- INTERNAL: two allocated blocks are the same or do not overlap. -/
theorem HeapRep.eq_or_apart (h : HeapRep m fl live) {a : Extent} (ha : a ∈ live) (he : e ∈ live) :
    a = e ∨ a.Apart e := by
  have : Std.Symm fun a b : Extent => a = b ∨ a.Apart b :=
    ⟨fun _ _ h => h.imp Eq.symm Extent.Apart.symm⟩
  have hpair : live.Pairwise fun a b => a = b ∨ a.Apart b :=
    (List.pairwise_append.mp h.packed.apart).2.1.imp .inr
  exact hpair.forall_of_forall (fun _ _ => .inl rfl) ha he

/-- INTERNAL: what is written to the payload of an allocated block is its client's. -/
theorem HeapRep.payload (h : HeapRep m fl live) (he : e ∈ live)
    (hframe : ∀ y, ¬ (e.start + sizeofSizeT ≤ y ∧ y < e.stop) → m' y = m y) :
    HeapRep m' fl live := by
  refine ⟨h.free.congr ?_, ?_, h.wide, h.packed⟩
  · intro b hb x hx
    refine hframe x fun hin => ?_
    have hap := h.apart hb he
    rw [Extent.mem_def] at hx
    unfold Extent.Apart at hap
    unfold sizeofSizeT at hin
    omega
  · intro a ha
    rw [← h.header a ha]
    refine Store.load_congr fun x hlo hhi => hframe x fun hin => ?_
    have hwide := h.wide a ha
    unfold sizeofSizeT at hin
    cases h.eq_or_apart ha he with
    | inl heq =>
        rw [heq] at hhi hlo
        omega
    | inr hap =>
        unfold Extent.Apart Extent.stop sizeofFreeBlock at *
        omega

theorem HeapRep.store (h : HeapRep m fl live) {y : ℕ} {v : Byte} (he : e ∈ live)
    (hy : e.start + sizeofSizeT ≤ y ∧ y < e.stop) : HeapRep (Function.update m y v) fl live := by
  have hother : ∀ x, x ≠ y → Function.update m y v x = m x :=
    fun x hx => Function.update_of_ne hx v m
  refine h.payload he fun x hx => hother x ?_
  rintro rfl
  exact hx hy

/-! ## Runs -/

/-- The free blocks and the allocated blocks of a state. -/
def HeapHolds (s : HeapState) (fl live : List Extent) : Prop :=
  s.live = live.map (fun e => e.start + sizeofSizeT) ∧ HeapRep s.mem fl live

/-- What a step does to the free blocks and the allocated blocks. -/
inductive HeapChange (fl live : List Extent) : HeapOp → List Extent → List Extent → Prop
  | none {op : HeapOp} : HeapChange fl live op fl live
  | taken {n : ℕ} {fl' : List Extent} {e : Extent} (htaken : Taken fl (allocBytes n) fl' e) :
      HeapChange fl live (.kmalloc n) fl' (e :: live)
  | freed {as bs l₁ l₂ : List Extent} {p e : Extent} (hfl : fl = as ++ p :: bs)
      (hlive : live = l₁ ++ e :: l₂) (hpe : p.stop ≤ e.start)
      (heb : ∀ b ∈ bs, e.stop ≤ b.start) :
      HeapChange fl live (.kfree (e.start + sizeofSizeT)) (as ++ coalesced p e bs) (l₁ ++ l₂)

/-- The step does not hand out the head of the free list, which `freelist` would still
point to. -/
def HeadKept (s : HeapState) : HeapOp → Prop
  | .kmalloc n => ∀ fl b, freeList s.mem = some fl → WholeFit fl (allocBytes n) b →
      b.start ≠ heapStart
  | _ => True

theorem heapHolds_init (m : Memory) : HeapHolds (heapInit m) [⟨heapStart, heapSize⟩] [] :=
  ⟨rfl, .init m⟩

/-- INTERNAL: a request of at most `HEAP_SIZE` bytes does not wrap around. -/
theorem allocBytes_bounds {n : ℕ} (hn : n ≤ heapSize) :
    sizeofFreeBlock ≤ allocBytes n ∧ allocBytes n + sizeofFreeBlock < 2 ^ 32 := by
  unfold heapSize at hn
  rw [allocBytes_eq (by unfold sizeofSizeT; omega)]
  unfold sizeofFreeBlock sizeofSizeT
  omega

/-- The block of a live pointer is the one its state holds. -/
theorem liveBlock_eq (h : HeapRep m fl live) (he : e ∈ live) :
    liveBlock m (e.start + sizeofSizeT) = e := by
  unfold liveBlock
  rw [Nat.add_sub_cancel, h.header e he]

/-- **One step of a run** that keeps the head of the free list. -/
theorem HeapStep.change {s s' : HeapState} {op : HeapOp} (hstep : HeapStep s op s')
    (hkept : HeadKept s op) (h : HeapHolds s fl live) :
    ∃ fl' live', HeapHolds s' fl' live' ∧ HeapChange fl live op fl' live' := by
  obtain ⟨hlive, hrep⟩ := h
  have hlist := hrep.free.freeList_eq
  cases hstep with
  | @null n m' hn hrun =>
      obtain ⟨hwide, hlt⟩ := allocBytes_bounds hn
      rcases kmalloc_spec hrep.free hlt (Nat.le_trans (by decide) hwide)
          (fun b => hkept fl b hlist) with hnone | ⟨m'', fl', e, hsome, -⟩
      · obtain rfl : s.mem = m' := by simpa [hrun] using hnone.symm
        exact ⟨fl, live, ⟨hlive, hrep⟩, .none⟩
      · rw [hrun] at hsome
        simp [sizeofSizeT] at hsome
  | @kmalloc n p m' hn hrun hp =>
      obtain ⟨hwide, hlt⟩ := allocBytes_bounds hn
      rcases kmalloc_spec hrep.free hlt (Nat.le_trans (by decide) hwide)
          (fun b => hkept fl b hlist) with hnone | ⟨m'', fl', e, hsome, htaken, hfl', hsize, hframe⟩
      · rw [hrun, Option.some.injEq, Prod.mk.injEq] at hnone
        exact absurd hnone.1 hp
      · rw [hrun, Option.some.injEq, Prod.mk.injEq] at hsome
        obtain ⟨rfl, rfl⟩ := hsome
        refine ⟨fl', e :: live, ⟨?_, hrep.kmalloc htaken hfl' hsize hwide hframe⟩, .taken htaken⟩
        simp [hlive]
  | @kfree p l₁ l₂ hp =>
      rw [hlive, List.map_eq_append_iff] at hp
      obtain ⟨k₁, k, rfl, rfl, hk⟩ := hp
      obtain ⟨e, k₂, rfl, rfl, rfl⟩ := List.map_eq_cons_iff.mp hk
      obtain ⟨as, q, bs, hfl, hqe, heb, hrep'⟩ := hrep.kfree
      refine ⟨as ++ coalesced q e bs, k₁ ++ k₂, ⟨?_, ?_⟩, .freed hfl rfl hqe heb⟩
      · exact List.map_append.symm
      · simpa only using hrep'
  | @store p x v hp hx =>
      rw [hlive, List.mem_map] at hp
      obtain ⟨e, he, rfl⟩ := hp
      rw [liveBlock_eq hrep he] at hx
      exact ⟨fl, live, ⟨hlive, hrep.store he hx⟩, .none⟩

/-- **Runs of the heap.**  A property of the free and the allocated blocks that holds
after `KMM_init` and that every step keeps holds in every run that never hands out the
head of the free list. -/
theorem HeapRun.invariant {Allowed : HeapState → HeapOp → Prop} {P : List Extent → List Extent → Prop}
    {s : HeapState} (hrun : HeapRun Allowed m s)
    (hkept : ∀ s op, Allowed s op → HeadKept s op) (hinit : P [⟨heapStart, heapSize⟩] [])
    (hstep : ∀ s op fl live fl' live', HeapHolds s fl live → Allowed s op →
      HeapChange fl live op fl' live' → P fl live → P fl' live') :
    ∃ fl live, HeapHolds s fl live ∧ P fl live := by
  induction hrun with
  | refl => exact ⟨_, _, heapHolds_init m, hinit⟩
  | tail _ hlast ih =>
      obtain ⟨op, hallowed, hop⟩ := hlast
      obtain ⟨fl, live, hholds, hP⟩ := ih
      obtain ⟨fl', live', hholds', hchange⟩ := hop.change (hkept _ _ hallowed) hholds
      exact ⟨fl', live', hholds', hstep _ _ _ _ _ _ hholds hallowed hchange hP⟩

end LakeOS.Analysis
