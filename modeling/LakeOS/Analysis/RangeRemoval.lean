import Mathlib.Data.Finset.Card
import Mathlib.Order.Interval.Finset.Nat
import Mathlib.Data.List.Count
import LakeOS.Analysis.BlockRemoval

/-!
# Removing a range of pages

`PagesFreed` says what freeing a set of pages does to the page tables, with the frames that
are given back on a log: each page gives back its frame once, whether it is freed once or
twice.  `umm_unmap_range` frees the pages of the range that lie in blocks.  It removes the
range unless it would split the first block, whose predecessor is `NULL`.
-/

set_option autoImplicit false

namespace LakeOS.Analysis

open LakeOS.Library LakeOS.Model Vmm

/-- A physical memory manager that keeps a log of the frames it is given back. -/
def logFrees {α : Type} (A : FrameAllocator α) : FrameAllocator (α × List ℕ) where
  allocPage s := ((A.allocPage s.1).1, (A.allocPage s.1).2, s.2)
  freePage page s := (A.freePage page s.1, page :: s.2)

section

variable {α : Type}

/-- The frame of a page, `0` where it is not mapped. -/
def frameOf (k : KernelLayout) (s : Vmm α) (v : ℕ) : ℕ :=
  s.translation k (pageDirIndex v) (pageTableIndex v)

variable {k : KernelLayout} {s s' s'' : Vmm α} {v w f : ℕ}

theorem frameOf_congr (h : entryOf k s' v = entryOf k s v) : frameOf k s' v = frameOf k s v :=
  translation_congr h

/-- INTERNAL: the addresses of a page have its frame. -/
theorem frameOf_page (s : Vmm α) (hv : v < 2 ^ 32) (hw : w < 2 ^ 32)
    (hpage : w / 0x1000 = v / 0x1000) : frameOf k s w = frameOf k s v := by
  obtain ⟨hdir, htable⟩ := (page_eq_iff hv hw).mpr hpage
  unfold frameOf
  rw [hdir, htable]

theorem mul_page_lt (hv : v < 2 ^ 32) : 0x1000 * (v / 0x1000) < 2 ^ 32 := by
  omega

/-- INTERNAL: a page is edited as its first address is. -/
theorem EditedPage.page (hv : EditedPage k v) : EditedPage k (0x1000 * (v / 0x1000)) := by
  have hlt := mul_page_lt hv.1
  obtain ⟨hdir, htable⟩ := (page_eq_iff hv.1 hlt).mpr (Nat.mul_div_cancel_left _ (by decide))
  refine ⟨hlt, ?_⟩
  rw [hdir, htable]
  exact hv.2

end

section

variable {α : Type} {k : KernelLayout} {s s' s'' : Vmm (α × List ℕ)} {v : ℕ} {P Q : Finset ℕ}

/-- The pages with the numbers `P` are freed: none of them is mapped, and each gives its
frame back.  The frames of page tables are left aside, which are given back with the last
page that they map. -/
structure PagesFreed (k : KernelLayout) (P : Finset ℕ) (s s' : Vmm (α × List ℕ)) : Prop where
  ready : PagingReady k s'
  paging : ∀ f, IsPaging k s' f → IsPaging k s f
  frames : ∀ v, EditedPage k v →
    frameOf k s' v = if v / 0x1000 ∈ P then 0 else frameOf k s v
  freed : ∀ f, f ≠ 0 → ¬ IsPaging k s f →
    s'.alloc.2.count f = s.alloc.2.count f + (P.filter fun n => frameOf k s (0x1000 * n) = f).card

theorem PagesFreed.refl (h : PagingReady k s) : PagesFreed k ∅ s s where
  ready := h
  paging _ hf := hf
  frames v _ := (if_neg (Finset.notMem_empty _)).symm
  freed f _ _ := by simp

/-- INTERNAL: of pages that are freed twice only the first time counts. -/
theorem PagesFreed.trans (h : PagesFreed k P s s') (h' : PagesFreed k Q s' s'')
    (hQ : ∀ n ∈ Q, EditedPage k (0x1000 * n)) : PagesFreed k (P ∪ Q) s s'' where
  ready := h'.ready
  paging f hf := h.paging f (h'.paging f hf)
  frames v hv := by
    rw [h'.frames v hv, h.frames v hv]
    simp only [Finset.mem_union]
    by_cases hP : v / 0x1000 ∈ P
    · simp [hP]
    · simp [hP]
  freed f hne hf := by
    have hlater : Q.filter (fun n => frameOf k s' (0x1000 * n) = f) =
        (Q \ P).filter fun n => frameOf k s (0x1000 * n) = f := by
      ext n
      simp only [Finset.mem_filter, Finset.mem_sdiff]
      by_cases hn : n ∈ Q
      · have hframe := h.frames _ (hQ n hn)
        rw [Nat.mul_div_cancel_left n (by decide)] at hframe
        by_cases hP : n ∈ P
        · simp [hframe, hP, hne.symm]
        · simp [hframe, hP]
      · simp [hn]
    have hunion : (P ∪ Q).filter (fun n => frameOf k s (0x1000 * n) = f) =
        P.filter (fun n => frameOf k s (0x1000 * n) = f) ∪
          (Q \ P).filter fun n => frameOf k s (0x1000 * n) = f := by
      rw [← Finset.filter_union, Finset.union_sdiff_self_eq_union]
    rw [h'.freed f hne fun hf' => hf (h.paging f hf'), h.freed f hne hf, hlater, hunion,
      Finset.card_union_of_disjoint, Nat.add_assoc]
    exact Finset.disjoint_filter_filter Finset.disjoint_sdiff

/-- INTERNAL: unmapping a page takes its frame away, and gives back none but that of its page
table.
SRCLINE: vmm.c:120-149 -/
theorem vmmUnmapPage_frames (A : FrameAllocator α) (h : PagingReady k s) (hv : EditedPage k v)
    (hpres : entryPresent (s.slot k (pageDirIndex v))) :
    let s' := vmmUnmapPage k (logFrees A) v s
    PagingReady k s' ∧ (∀ f, IsPaging k s' f → IsPaging k s f) ∧
      (∀ w, EditedPage k w →
        frameOf k s' w = if w / 0x1000 = v / 0x1000 then 0 else frameOf k s w) ∧
      ∀ f, ¬ IsPaging k s f → s'.alloc.2.count f = s.alloc.2.count f := by
  obtain ⟨hwell, hread, hshown, hpaging, halloc⟩ :=
    vmmUnmapPage_entries (logFrees A) h.wellMapped hv.2 hpres fun _ => h.shown
  refine ⟨⟨hwell, hshown.trans h.shown⟩, hpaging, fun w hw => ?_, fun f hf => ?_⟩
  · have hw' := hread _ (pageDirIndex_lt w) _ (pageTableIndex_lt w) hw.2
    simp only [page_eq_iff hv.1 hw.1] at hw'
    unfold frameOf
    split
    next hsame =>
      rw [if_pos hsame] at hw'
      rw [translation_eq, hw']
      rfl
    next hother =>
      rw [if_neg hother] at hw'
      obtain hsame | ⟨hzero, habsent⟩ := hw'
      · exact translation_congr hsame
      · rw [translation_eq, translation_eq, hzero, habsent]
        rfl
  · obtain hsame | ⟨hdropped, -⟩ := halloc
    · rw [hsame]
    · -- the frame of the page table is given back as well
      have htable : s.table k (pageDirIndex v) ≠ f := fun heq =>
        hf (.inr ⟨_, pageDirIndex_lt v, hpres, heq⟩)
      rw [hdropped]
      exact List.count_cons_of_ne htable

/-- INTERNAL: **freeing one page** that may or may not be mapped.
SRCLINE: vmm.c:156-163 -/
theorem pagesFreed_vfreePage (A : FrameAllocator α) (h : PagingReady k s) (hv : EditedPage k v) :
    PagesFreed k {v / 0x1000} s (vfreePage k (logFrees A) v s) := by
  have hread := virtToPhys_read h.wellMapped hv.2
  obtain ⟨-, hslot, hpaging, halloc⟩ := virtToPhys_keeps h.wellMapped v
  obtain ⟨hready, hentry⟩ := lookup_entries h v
  have hframe : frameOf k s (0x1000 * (v / 0x1000)) = frameOf k s v :=
    frameOf_page s hv.1 (mul_page_lt hv.1) (Nat.mul_div_cancel_left _ (by decide))
  change (virtToPhys k v s).1 = frameOf k s v at hread
  unfold vfreePage
  simp only [hread]
  split
  next hmapped =>
    obtain ⟨s₁, hs₁⟩ : ∃ s₁, s₁ = { (virtToPhys k v s).2 with
      alloc := (logFrees A).freePage (frameOf k s v) (virtToPhys k v s).2.alloc } := ⟨_, rfl⟩
    have h₁ : PagingReady k s₁ := by
      rw [hs₁]
      exact ⟨hready.wellMapped.congr rfl (fun _ => rfl) fun _ => rfl, hready.shown⟩
    have hpaging₁ : ∀ f, IsPaging k s₁ f → IsPaging k s f := by
      intro f hf
      rw [hs₁] at hf
      exact (hpaging f).mp hf
    have hentry₁ : ∀ w, EditedPage k w → entryOf k s₁ w = entryOf k s w := by
      intro w hw
      rw [hs₁]
      exact hentry w hw
    have hlog₁ : s₁.alloc.2 = frameOf k s v :: s.alloc.2 := by
      rw [hs₁, ← halloc]
      rfl
    have hpres₁ : entryPresent (s₁.slot k (pageDirIndex v)) := by
      by_contra habsent
      apply hmapped
      rw [hs₁] at habsent
      change ¬ entryPresent ((virtToPhys k v s).2.slot k (pageDirIndex v)) at habsent
      rw [hslot] at habsent
      exact translation_of_slot_absent (Bool.not_eq_true _ ▸ habsent)
    rw [← hs₁]
    obtain ⟨hready', hpaging', hframes, hcount⟩ := vmmUnmapPage_frames A h₁ hv hpres₁
    refine ⟨hready', fun f hf => hpaging₁ f (hpaging' f hf), fun w hw => ?_, fun f hne hf => ?_⟩
    · simp only [hframes w hw, frameOf_congr (hentry₁ w hw), Finset.mem_singleton]
    · rw [hcount f fun hf₁ => hf (hpaging₁ f hf₁), hlog₁, Finset.filter_singleton, hframe,
        List.count_cons]
      by_cases hmine : frameOf k s v = f
      · simp [hmine]
      · simp [hmine]
  next hmapped =>
    have hzero : frameOf k s v = 0 := not_not.mp hmapped
    refine ⟨hready, fun f hf => (hpaging f).mp hf, fun w hw => ?_, fun f hne _ => ?_⟩
    · simp only [frameOf_congr (hentry w hw), Finset.mem_singleton]
      split
      next hsame => rw [frameOf_page s hv.1 hw.1 hsame, hzero]
      next => rfl
    · rw [halloc, Finset.filter_singleton, hframe, hzero, if_neg hne.symm, Finset.card_empty,
        Nat.add_zero]

/-- INTERNAL: **freeing pages one after the other**.
SRCLINE: umm.c:211-214 -/
theorem pagesFreed_foldl (A : FrameAllocator α) (vs : List ℕ) (h : PagingReady k s)
    (hvs : ∀ v ∈ vs, EditedPage k v) :
    PagesFreed k (vs.map (· / 0x1000)).toFinset s
      (vs.foldl (fun s v => vfreePage k (logFrees A) v s) s) := by
  induction vs generalizing s with
  | nil => exact .refl h
  | cons v vs ih =>
      obtain ⟨hv, hrest⟩ := List.forall_mem_cons.mp hvs
      have hfirst := pagesFreed_vfreePage A h hv
      rw [List.map_cons, List.toFinset_cons, Finset.insert_eq]
      apply hfirst.trans (ih hfirst.ready hrest)
      intro n hn
      obtain ⟨w, hw, rfl⟩ := List.mem_map.mp (List.mem_toFinset.mp hn)
      exact (hrest w hw).page

/-- The numbers of the pages of a range that are mapped to a frame. -/
def pagesTo (k : KernelLayout) (vaddr len f : ℕ) (s : Vmm α) : Finset ℕ :=
  (Finset.Ico (vaddr / 0x1000) ((vaddr + len) / 0x1000)).filter fun n =>
    EditedPage k (0x1000 * n) ∧ frameOf k s (0x1000 * n) = f

/-- Exactly the range is removed.  What is covered afterwards, with its prot and flags, is
what was covered outside of the range; no page of the range is mapped and every other page is
mapped as before; and a frame is given back once for each page of the range that was mapped
to it. -/
structure RangeUnmapped (k : KernelLayout) (vaddr len : ℕ) (blocks r : List UmmBlock)
    (s s' : Vmm (α × List ℕ)) : Prop where
  ordered : Ordered r
  covered : ∀ x prot flags, (∃ c ∈ r, x ∈ ummExtent c ∧ c.prot = prot ∧ c.flags = flags) ↔
    (x < vaddr ∨ vaddr + len ≤ x) ∧
      ∃ b ∈ blocks, x ∈ ummExtent b ∧ b.prot = prot ∧ b.flags = flags
  unmapped : ∀ v, EditedPage k v → vaddr ≤ v → v < vaddr + len → frameOf k s' v = 0
  others : ∀ v, EditedPage k v → v < vaddr ∨ vaddr + len ≤ v → frameOf k s' v = frameOf k s v
  freed : ∀ f, f ≠ 0 → ¬ IsPaging k s f →
    s'.alloc.2.count f = s.alloc.2.count f + (pagesTo k vaddr len f s).card

/-- The call ends, and removes the range. -/
def RangeRemoved (k : KernelLayout) (A : FrameAllocator α) (vaddr len : ℕ)
    (blocks : List UmmBlock) (s : Vmm (α × List ℕ)) : Prop :=
  ∃ r s', ummUnmapRange (pageOps k (logFrees A)) vaddr len blocks s = some (r, s') ∧
    RangeUnmapped k vaddr len blocks r s s'

/-- A range of pages that does not wrap around.  What it removes is neither the window nor
`curr_page_directory`, through which the page tables are reached. -/
structure PageRange (k : KernelLayout) (vaddr len : ℕ) (blocks : List UmmBlock)
    (s : Vmm (α × List ℕ)) : Prop where
  ordered : Ordered blocks
  ready : PagingReady k s
  vaddr_dvd : 0x1000 ∣ vaddr
  len_dvd : 0x1000 ∣ len
  stop_lt : vaddr + len < 2 ^ 32
  edited : ∀ v, vaddr ≤ v → v < vaddr + len → Covered blocks v → EditedPage k v

/-- The range is empty or does not split the first block, and each of its pages that is
mapped lies in a block. -/
def RangeInBlocks (k : KernelLayout) (vaddr len : ℕ) (blocks : List UmmBlock)
    (s : Vmm (α × List ℕ)) : Prop :=
  (len = 0 ∨ NoSplit blocks vaddr) ∧
    ∀ v, EditedPage k v → vaddr ≤ v → v < vaddr + len → frameOf k s v ≠ 0 → Covered blocks v

/-- INTERNAL: a block that has an address of a page has all of them. -/
theorem Ordered.covered_page {blocks : List UmmBlock} (h : Ordered blocks) {v w : ℕ}
    (hpage : w / 0x1000 = v / 0x1000) (hcovered : Covered blocks v) : Covered blocks w := by
  obtain ⟨b, hb, hlo, hhi⟩ := hcovered
  change b.start ≤ v at hlo
  change v < b.start + b.len at hhi
  obtain ⟨hstart, hlen⟩ := h.aligned b hb
  have hlo' : b.start ≤ w := by omega
  have hhi' : w < b.start + b.len := by omega
  exact ⟨b, hb, hlo', hhi'⟩

section

variable {blocks : List UmmBlock} {vaddr len : ℕ}

/-- INTERNAL: the numbers of the pages that are freed.
SRCLINE: umm.c:211-214 -/
theorem ummUnmapRange_spec (A : FrameAllocator α) (h : PageRange k vaddr len blocks s)
    (hno : len = 0 ∨ NoSplit blocks vaddr) :
    ∃ r s' P, ummUnmapRange (pageOps k (logFrees A)) vaddr len blocks s = some (r, s') ∧
      Ordered r ∧ KeepsOutside vaddr (vaddr + len) blocks r ∧
      ComesFrom vaddr (vaddr + len) blocks r ∧
      (∀ n, n ∈ P ↔ n ∈ Finset.Ico (vaddr / 0x1000) ((vaddr + len) / 0x1000) ∧
        Covered blocks (0x1000 * n)) ∧ PagesFreed k P s s' := by
  obtain ⟨hord, hready, hvaddr, ⟨n, rfl⟩, hlt, hedited⟩ := h
  obtain ⟨r, s', hrun, hord', hkeep, hfrom, vs, hs', hvs⟩ :=
    unmapPages_spec (pageOps k (logFrees A)) (s := s) (n := n) hord hvaddr
      (hno.imp_left fun h => by omega)
  rw [Nat.mul_comm n] at hkeep hfrom
  have hin : ∀ v ∈ vs, vaddr ≤ v ∧ v < vaddr + 0x1000 * n := by
    intro v hv
    obtain ⟨i, hi, rfl⟩ := List.mem_range'.mp ((hvs v).mp hv).1
    omega
  have hfreed := pagesFreed_foldl A vs hready fun v hv =>
    hedited v (hin v hv).1 (hin v hv).2 ((hvs v).mp hv).2
  refine ⟨r, s', _, ?_, hord', hkeep, hfrom, fun p => ?_, hs' ▸ hfreed⟩
  · unfold ummUnmapRange
    rw [add32_eq hlt, Nat.mul_comm, pageRange_add]
    exact hrun
  · rw [List.mem_toFinset, List.mem_map, Finset.mem_Ico]
    constructor
    · rintro ⟨v, hv, rfl⟩
      obtain ⟨hlo, hhi⟩ := hin v hv
      obtain ⟨hrange, hcovered⟩ := (hvs v).mp hv
      exact ⟨by omega, hord.covered_page (Nat.mul_div_cancel_left _ (by decide)) hcovered⟩
    · rintro ⟨hp, hcovered⟩
      refine ⟨0x1000 * p, (hvs _).mpr ⟨List.mem_range'.mpr ?_, hcovered⟩,
        Nat.mul_div_cancel_left p (by decide)⟩
      exact ⟨p - vaddr / 0x1000, by omega, by omega⟩

/-- INTERNAL: splitting the first block follows the `NULL` predecessor.
SRCLINE: umm.c:154-176 -/
theorem ummUnmapRange_split {σ : Type} (pages : PageOps σ) {s : σ} {first : UmmBlock}
    {rest : List UmmBlock} (hord : Ordered (first :: rest)) (hlen : 0 < len)
    (hlt : vaddr + len < 2 ^ 32) (hlo : first.start < vaddr)
    (hhi : vaddr + 0x1000 < first.start + first.len) :
    ummUnmapRange pages vaddr len (first :: rest) s = none := by
  obtain ⟨-, -, -, hstop, -⟩ := ordered_cons.mp hord
  have hend : add32 first.start first.len = first.start + first.len := add32_eq hstop
  have hlast : sub32 (first.start + first.len) 0x1000 = first.start + first.len - 0x1000 :=
    sub32_eq (by omega) (by omega)
  have hmiddle : first.start < vaddr ∧ vaddr < first.start + first.len - 0x1000 := by omega
  have hnone : ummUnmapPage pages vaddr (first :: rest) s = none := by
    unfold ummUnmapPage ummUnmapPageLoop
    simp only [hend, hlast]
    rw [if_neg hlo.ne, if_pos hmiddle]
    rfl
  have hrange : ∃ vs, pageRange vaddr (vaddr + len) = vaddr :: vs := by
    unfold pageRange
    obtain ⟨n, hn⟩ : ∃ n, (vaddr + len - vaddr + 0xFFF) / 0x1000 = n + 1 :=
      ⟨(vaddr + len - vaddr + 0xFFF) / 0x1000 - 1, by omega⟩
    rw [hn, List.range'_succ]
    exact ⟨_, rfl⟩
  obtain ⟨vs, hvs⟩ := hrange
  unfold ummUnmapRange
  rw [add32_eq hlt, hvs, List.foldlM_cons]
  simp only [hnone]
  rfl

/-- INTERNAL: the call removes the range if it may.
SRCLINE: umm.c:178-214 -/
theorem PageRange.removed (A : FrameAllocator α) (h : PageRange k vaddr len blocks s)
    (hok : RangeInBlocks k vaddr len blocks s) : RangeRemoved k A vaddr len blocks s := by
  obtain ⟨hno, hmapped⟩ := hok
  obtain ⟨r, s', P, hrun, hord, hkeep, hfrom, hP, hfreed⟩ := ummUnmapRange_spec A h hno
  have hv := h.vaddr_dvd
  have hl := h.len_dvd
  -- of the pages of the range that are in no block none is mapped
  have hmem : ∀ v, EditedPage k v → frameOf k s v ≠ 0 →
      (v / 0x1000 ∈ P ↔ vaddr ≤ v ∧ v < vaddr + len) := by
    intro v hedited hne
    rw [hP, Finset.mem_Ico]
    constructor
    · rintro ⟨hrange, -⟩
      omega
    · rintro ⟨hlo, hhi⟩
      refine ⟨by omega, h.ordered.covered_page ?_ (hmapped v hedited hlo hhi hne)⟩
      exact Nat.mul_div_cancel_left _ (by decide)
  refine ⟨r, s', hrun, hord, covered_iff hkeep hfrom, fun v hedited hlo hhi => ?_,
    fun v hedited hout => ?_, fun f hne hf => ?_⟩
  · rw [hfreed.frames v hedited]
    by_cases hzero : frameOf k s v = 0
    · rw [hzero, ite_self]
    · exact if_pos ((hmem v hedited hzero).mpr ⟨hlo, hhi⟩)
  · rw [hfreed.frames v hedited]
    by_cases hzero : frameOf k s v = 0
    · rw [hzero, ite_self]
    · refine if_neg fun hin => ?_
      have := (hmem v hedited hzero).mp hin
      omega
  · rw [hfreed.freed f hne hf]
    congr 2
    ext n
    unfold pagesTo
    rw [Finset.mem_filter, Finset.mem_filter, hP]
    constructor
    · rintro ⟨⟨hrange, hcovered⟩, hframe⟩
      rw [Finset.mem_Ico] at hrange
      exact ⟨Finset.mem_Ico.mpr hrange, h.edited _ (by omega) (by omega) hcovered, hframe⟩
    · rintro ⟨hrange, hedited, hframe⟩
      refine ⟨⟨hrange, ?_⟩, hframe⟩
      rw [Finset.mem_Ico] at hrange
      exact hmapped _ hedited (by omega) (by omega) (hframe ▸ hne)

/-- INTERNAL: otherwise it does not.
SRCLINE: umm.c:178-214 -/
theorem PageRange.inBlocks (A : FrameAllocator α) (h : PageRange k vaddr len blocks s)
    (hremoved : RangeRemoved k A vaddr len blocks s) : RangeInBlocks k vaddr len blocks s := by
  obtain ⟨r, s', hrun, hunmapped⟩ := hremoved
  have hno : len = 0 ∨ NoSplit blocks vaddr := by
    by_contra hcon
    rw [not_or] at hcon
    obtain ⟨hlen, hsplit⟩ := hcon
    cases blocks with
    | nil => exact hsplit (by simp [NoSplit])
    | cons first rest =>
        apply hsplit
        intro b hb hmiddle
        obtain rfl : first = b := by simpa using hb
        have hnone := ummUnmapRange_split (pageOps k (logFrees A)) (s := s) h.ordered
          (Nat.pos_of_ne_zero hlen) h.stop_lt hmiddle.1 hmiddle.2
        exact absurd (hrun.symm.trans hnone) (Option.some_ne_none _)
  refine ⟨hno, fun v hedited hlo hhi hne => ?_⟩
  obtain ⟨r₁, s₁, P, hrun₁, -, -, -, hP, hfreed⟩ := ummUnmapRange_spec A h hno
  obtain ⟨rfl, rfl⟩ := Prod.mk.inj (Option.some.inj (hrun.symm.trans hrun₁))
  by_contra houtside
  -- a page in no block stays mapped
  have hframe := hfreed.frames v hedited
  rw [hunmapped.unmapped v hedited hlo hhi, if_neg] at hframe
  · exact hne hframe.symm
  · intro hin
    apply houtside
    exact h.ordered.covered_page (Nat.mul_div_cancel_left _ (by decide)).symm ((hP _).mp hin).2

/-- **Removing a range.**  `umm_unmap_range` removes exactly the range if and only if it is
empty or does not split the first block, and every mapped page of it lies in a block.
SRCLINE: umm.c:178-214 -/
theorem umm_unmap_range_iff (A : FrameAllocator α) (h : PageRange k vaddr len blocks s) :
    RangeRemoved k A vaddr len blocks s ↔ RangeInBlocks k vaddr len blocks s :=
  ⟨h.inBlocks A, h.removed A⟩

end

end

/-! ## One page, and the middle of three -/

/-- An empty directory, and nothing given back yet. -/
def loggedDirectory : Vmm (List ℕ × List ℕ) where
  phys := shownDirectory.phys
  alloc := (shownDirectory.alloc, [])

theorem loggedDirectory_ready : PagingReady twoFrames loggedDirectory := by
  have h := shownDirectory_ready
  exact ⟨⟨h.wellMapped.slot_ne, h.wellMapped.higherHalf, h.wellMapped.table_ne,
    h.wellMapped.distinct⟩, h.shown⟩

/-- A page at 4 MiB is mapped to frame 5. -/
def loggedPage : Vmm (List ℕ × List ℕ) :=
  vmmMapPage twoFrames (logFrees stackOfFrames) 0x5000 0x400000 true true loggedDirectory

/-- INTERNAL: a range in user memory. -/
theorem pageRange_user {α : Type} {k : KernelLayout} {s : Vmm (α × List ℕ)} {b : UmmBlock}
    {vaddr len : ℕ} (hready : PagingReady k s) (hb : PageBlock b) (hvaddr : 0x1000 ∣ vaddr)
    (hlen : 0x1000 ∣ len) (hlt : vaddr + len < 2 ^ 32) : PageRange k vaddr len [b] s where
  ordered := (wellFormed_singleton hb).ordered
  ready := hready
  vaddr_dvd := hvaddr
  len_dvd := hlen
  stop_lt := hlt
  edited v _ _ hcovered := by
    obtain ⟨c, hc, -, hhi⟩ := hcovered
    obtain rfl := List.mem_singleton.mp hc
    exact (outsideWindow_of_lt (Nat.lt_of_lt_of_le hhi hb.stop_le)).edited

theorem umm_unmap_range_iff_page :
    frameOf twoFrames loggedPage 0x400000 = 0x5000 ∧
    RangeRemoved twoFrames stackOfFrames 0x400000 0x1000 [onePageBlock] loggedPage := by
  have hedited : EditedPage twoFrames 0x400000 := by decide
  have hready : PagingReady twoFrames loggedPage :=
    (map_entries (logFrees stackOfFrames) loggedDirectory_ready hedited 0x5000 true true
      fun _ => by decide +kernel).1
  refine ⟨by decide +kernel, (umm_unmap_range_iff stackOfFrames ?_).mpr ⟨.inr ?_, ?_⟩⟩
  · exact pageRange_user hready ⟨by decide, by decide, by decide, by decide⟩ (by decide)
      (by decide) (by decide)
  · intro first hfirst
    obtain rfl : onePageBlock = first := by simpa using hfirst
    decide
  · intro v _ hlo hhi _
    exact ⟨onePageBlock, List.mem_singleton_self _, hlo, hhi⟩

/-- Three pages at 4 MiB. -/
def threePageBlock : UmmBlock := ⟨0x400000, 0x3000, 3, 0x22⟩

/-- The middle page of the only block is not removed. -/
theorem umm_unmap_range_splits_first :
    PageRange twoFrames 0x401000 0x1000 [threePageBlock] loggedDirectory ∧
    ¬ RangeRemoved twoFrames stackOfFrames 0x401000 0x1000 [threePageBlock] loggedDirectory := by
  have hrange : PageRange twoFrames 0x401000 0x1000 [threePageBlock] loggedDirectory :=
    pageRange_user loggedDirectory_ready ⟨by decide, by decide, by decide, by decide⟩ (by decide)
      (by decide) (by decide)
  refine ⟨hrange, ?_⟩
  rintro ⟨r, s', hrun, -⟩
  have hnone : ummUnmapRange (pageOps twoFrames (logFrees stackOfFrames)) 0x401000 0x1000
      [threePageBlock] loggedDirectory = none :=
    ummUnmapRange_split _ hrange.ordered (by decide) hrange.stop_lt (by decide) (by decide)
  exact absurd (hrun.symm.trans hnone) (Option.some_ne_none _)

end LakeOS.Analysis
