import LakeOS.Analysis.UserMapping

/-!
# Removing a block

`umm_unmap_pages` looks at the successor of each node, so it never looks at the first
block, and behind a block that it removed it goes on at the node after the next, which the
last block does not have.  Of the pages it unmaps it does not free the frames.  Only where
no block starts at the address does it what it should.
-/

set_option autoImplicit false

namespace LakeOS.Analysis

open LakeOS.Library LakeOS.Model Vmm

variable {k : KernelLayout} {s : Vmm Pmm} {blocks as : List UmmBlock} {b : UmmBlock}

/-- A page of the block. -/
def IsPageOf (b : UmmBlock) (v : ℕ) : Prop := b.start ≤ v ∧ v < b.start + b.len

/-- The block is removed: its pages are unmapped and their frames free, and no other page
is mapped otherwise. -/
structure BlockRemoved (k : KernelLayout) (b : UmmBlock) (others r : List UmmBlock)
    (s s' : Vmm Pmm) : Prop where
  list : r = others
  unmapped : ∀ v, IsPageOf b v → entryPresent (entryOf k s' v) = false
  returned : ∀ v, IsPageOf b v → ∀ frame, MappedTo k s v frame → ¬ s'.alloc.used (frame / 0x1000)
  kept : ∀ v, EditedPage k v → ¬ IsPageOf b v →
    s'.translation k (pageDirIndex v) (pageTableIndex v) =
      s.translation k (pageDirIndex v) (pageTableIndex v)

/-- The call ends; it removes the block that starts at `vaddr`, or changes nothing. -/
def UnmapPagesOk (k : KernelLayout) (vaddr : ℕ) (blocks : List UmmBlock) (s : Vmm Pmm) : Prop :=
  ∃ r s', ummUnmapPages (pageOps k pmmFrames) vaddr blocks s = some (r, s') ∧
    ((∀ b ∈ blocks, b.start ≠ vaddr) → r = blocks ∧ s' = s) ∧
    ∀ as b bs, blocks = as ++ b :: bs → b.start = vaddr → BlockRemoved k b (as ++ bs) r s s'

/-- There is a block, and none starts at `vaddr`. -/
def NothingToRemove (vaddr : ℕ) (blocks : List UmmBlock) : Prop :=
  blocks ≠ [] ∧ ∀ b ∈ blocks, b.start ≠ vaddr

instance (vaddr : ℕ) (blocks : List UmmBlock) : Decidable (NothingToRemove vaddr blocks) :=
  inferInstanceAs (Decidable (_ ∧ _))

/-- The pages of a process: each page of a block is mapped to a used frame that is no page
table. -/
structure Resident (k : KernelLayout) (blocks : List UmmBlock) (s : Vmm Pmm) : Prop where
  wellFormed : WellFormed blocks
  paging : PagingUsed k s
  mapped : ∀ b ∈ blocks, ∀ v, IsPageOf b v → ∃ frame, MappedTo k s v frame ∧
    s.alloc.used (frame / 0x1000) ∧ ∀ f, IsPaging k s f → f / 0x1000 ≠ frame / 0x1000

/-! ## The three places of a block -/

/-- INTERNAL: no block starts at the address.
SRCLINE: umm.c:50-66 -/
theorem unmapPagesOk_of_nothing {vaddr : ℕ} (h : NothingToRemove vaddr blocks) :
    UnmapPagesOk k vaddr blocks s := by
  obtain ⟨first, rest, rfl⟩ := List.exists_cons_of_ne_nil h.1
  refine ⟨_, _, ummUnmapPagesLoop_of_ne _ fun c hc => h.2 c (List.mem_cons_of_mem first hc),
    fun _ => ⟨rfl, rfl⟩, fun as b bs hsplit hstart => ?_⟩
  exact absurd hstart (h.2 b (by rw [hsplit]; simp))

/-- INTERNAL: behind the last block the loop follows a `NULL` link.
SRCLINE: umm.c:50-66 -/
theorem ummUnmapPagesLoop_last {σ : Type} (pages : PageOps σ) {a : UmmBlock} {s : σ}
    (has : ∀ d ∈ as, d.start ≠ b.start) :
    ummUnmapPagesLoop pages b.start a (as ++ [b]) s = none := by
  induction as generalizing a with
  | nil =>
      rw [List.nil_append, ummUnmapPagesLoop, if_pos rfl]
  | cons d as ih =>
      rw [List.cons_append, ummUnmapPagesLoop, if_neg (has d List.mem_cons_self),
        ih fun e he => has e (List.mem_cons_of_mem d he)]
      rfl

/-- INTERNAL: the frames of a block stay used when its pages are unmapped.
SRCLINE: umm.c:58-61 -/
theorem Resident.used_after (h : Resident k blocks s) (hb : b ∈ blocks) {frame : ℕ}
    (hused : s.alloc.used (frame / 0x1000))
    (hapart : ∀ f, IsPaging k s f → f / 0x1000 ≠ frame / 0x1000) :
    (unmapBlock (pageOps k pmmFrames) b s).alloc.used (frame / 0x1000) := by
  have hpage := h.wellFormed.pages b hb
  obtain ⟨-, hout, hnodup⟩ := pageRange_spec hpage.start_dvd hpage.len_dvd hpage.stop_le
  have hstop := hpage.stop_le
  unfold userMemoryEnd at hstop
  obtain ⟨-, hin, -⟩ := mem_pageRange hpage.start_dvd hpage.len_dvd
    (Nat.lt_of_le_of_lt hstop (by decide))
  have hkeeps : Keeps k (frame / 0x1000) s := ⟨h.paging, hused, hapart⟩
  have hall : AllMapped k s (pageRange b.start (add32 b.start b.len)) := by
    intro v hv
    obtain ⟨f, ⟨hpres, hframe, hne⟩, -⟩ := h.mapped b hb v (hin v hv)
    rw [translation_eq]
    unfold entryOf at hpres hframe
    rw [if_pos hpres, hframe]
    exact hne
  have hkept := (hkeeps.unmapPages _ hout hnodup hall).kept
  simpa only [unmapBlock, pageOps] using hkept

/-- INTERNAL: a block that starts at the address is not removed as it should.
SRCLINE: umm.c:50-66 -/
theorem Resident.nothing_of_ok (h : Resident k blocks s) {vaddr : ℕ}
    (hok : UnmapPagesOk k vaddr blocks s) : NothingToRemove vaddr blocks := by
  obtain ⟨r, s', hrun, -, hremoved⟩ := hok
  refine ⟨?_, fun b hb hstart => ?_⟩
  · rintro rfl
    exact absurd hrun (Option.some_ne_none _).symm
  obtain ⟨as, bs, rfl⟩ := List.append_of_mem hb
  have hgone := hremoved as b bs rfl hstart
  subst hstart
  cases as with
  | nil =>
      -- the first block stays
      have hfirst := ummUnmapPages_first (pageOps k pmmFrames) (s := s) h.wellFormed
      have hsame := (Prod.mk.inj (Option.some.inj (hrun.symm.trans hfirst))).1
      have hlist := hgone.list
      rw [hsame] at hlist
      exact absurd (congrArg List.length hlist) (by simp)
  | cons a as =>
      have hbefore : ∀ d ∈ as, d.start ≠ b.start := fun d hd =>
        Nat.ne_of_lt (h.wellFormed.lt_start (List.mem_cons_of_mem a hd))
      cases bs with
      | nil =>
          -- behind the last block
          have hlast := ummUnmapPagesLoop_last (pageOps k pmmFrames) (a := a) (s := s) hbefore
          exact absurd (hrun.symm.trans hlast) (Option.some_ne_none _)
      | cons c bs =>
          -- a block between others keeps its frames
          have hmiddle := ummUnmapPages_middle (pageOps k pmmFrames) (s := s) h.wellFormed
          have hstate := (Prod.mk.inj (Option.some.inj (hrun.symm.trans hmiddle))).2
          have hpage := h.wellFormed.pages b hb
          have hin : IsPageOf b b.start := ⟨le_rfl, Nat.lt_add_of_pos_right hpage.len_pos⟩
          obtain ⟨frame, hmapped, hused, hapart⟩ := h.mapped b hb _ hin
          apply hgone.returned b.start hin frame hmapped
          rw [hstate]
          exact h.used_after hb hused hapart

/-- **Removing one block.**  `umm_unmap_pages` does what it should where there is a block
and none starts at the address; with every page of every block mapped, only there.
SRCLINE: umm.c:50-66 -/
theorem umm_unmap_pages_iff (k : KernelLayout) (vaddr : ℕ) (blocks : List UmmBlock) (s : Vmm Pmm) :
    (NothingToRemove vaddr blocks → UnmapPagesOk k vaddr blocks s) ∧
    (Resident k blocks s → (UnmapPagesOk k vaddr blocks s ↔ NothingToRemove vaddr blocks)) :=
  ⟨unmapPagesOk_of_nothing, fun h => ⟨h.nothing_of_ok, unmapPagesOk_of_nothing⟩⟩

/-! ## A process with one block -/

/-- One page at 4 MiB. -/
def onePageBlock : UmmBlock := ⟨0x400000, 0x1000, 3, 0x22⟩

/-- It is mapped. -/
def onePagePaging : Vmm Pmm := mapFresh twoFrames pmmFrames 0x400000 true emptyProcess.paging

theorem onePage_resident : Resident twoFrames [onePageBlock] onePagePaging := by
  have hcan := emptyProcess_canMap 0x22 (by decide)
  have hout : OutsideWindow 0x400000 := outsideWindow_of_lt (by decide)
  have hframe : emptyProcess.paging.alloc.allocPage.1 ≠ 0 := by decide +kernel
  obtain ⟨hkeeps, -, -⟩ :=
    mapFresh_keeps (hcan.paging.allocPage hframe) hout true (n := 0) hcan.supply
  obtain ⟨-, hmapped, -⟩ := hcan.paging.mapFresh hout.edited
    ⟨hframe, fun _ => by decide +kernel⟩ true
  refine ⟨wellFormed_singleton ⟨by decide, by decide, by decide, by decide⟩,
    hkeeps.toPagingUsed, fun b hb v hin => ?_⟩
  obtain rfl := List.mem_singleton.mp hb
  have hlo : 0x400000 ≤ v := hin.1
  have hhi : v < 0x400000 + 0x1000 := hin.2
  obtain ⟨hdir, htab⟩ : pageDirIndex v = pageDirIndex 0x400000 ∧
      pageTableIndex v = pageTableIndex 0x400000 :=
    (page_eq_iff (by decide) (by omega)).mpr (by omega)
  refine ⟨emptyProcess.paging.alloc.allocPage.1, ?_, hkeeps.kept, hkeeps.apart⟩
  unfold MappedTo entryOf at hmapped ⊢
  rw [hdir, htab]
  exact hmapped

theorem umm_unmap_pages_iff_page :
    UnmapPagesOk twoFrames 0x500000 [onePageBlock] onePagePaging ∧
    (UnmapPagesOk twoFrames 0x400000 [onePageBlock] onePagePaging ↔
      NothingToRemove 0x400000 [onePageBlock]) :=
  ⟨(umm_unmap_pages_iff twoFrames 0x500000 [onePageBlock] onePagePaging).1 (by decide),
    (umm_unmap_pages_iff twoFrames 0x400000 [onePageBlock] onePagePaging).2 onePage_resident⟩

/-- The only block of a process is not removed. -/
theorem umm_unmap_pages_keeps_first :
    ¬ ∀ (k : KernelLayout) (vaddr : ℕ) (blocks : List UmmBlock) (s : Vmm Pmm),
      Resident k blocks s → UnmapPagesOk k vaddr blocks s := by
  intro hclaim
  have hok := hclaim twoFrames 0x400000 [onePageBlock] onePagePaging onePage_resident
  exact absurd (onePage_resident.nothing_of_ok hok) (by decide)

end LakeOS.Analysis
