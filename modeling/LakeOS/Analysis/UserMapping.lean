import LakeOS.Analysis.MmapAtomic
import LakeOS.Analysis.PagePermissions

/-!
# Mapping user memory

`umap_pages` puts a block of a free range between the blocks below and above it, and maps
the pages of the range to fresh frames.  Frames are taken to be found: `FramesFor` says so
of a page, for the page itself and for a page table that is missing.
-/

set_option autoImplicit false

namespace LakeOS.Analysis

open LakeOS.Library LakeOS.Model Vmm

variable {k : KernelLayout} {s : Vmm Pmm} {v : ℕ} {write : Bool}

theorem OutsideWindow.edited (h : OutsideWindow v) : EditedPage k v := ⟨h.1, .inl h.2⟩

/-- `alloc_page` finds the frames that mapping a fresh page at `v` asks for. -/
def FramesFor (k : KernelLayout) (v : ℕ) (s : Vmm Pmm) : Prop :=
  s.alloc.allocPage.1 ≠ 0 ∧
    (entryPresent (s.directoryEntry k v) = false → s.alloc.allocPage.2.allocPage.1 ≠ 0)

/-- The page of an address is mapped to a frame other than frame 0. -/
def MappedTo (k : KernelLayout) (s : Vmm Pmm) (v frame : ℕ) : Prop :=
  entryPresent (entryOf k s v) ∧ entryFrame (entryOf k s v) = frame ∧ frame ≠ 0

/-- INTERNAL: **a fresh page** is mapped, and no other entry changes.
SRCLINE: umm.c:43-46 -/
theorem PagingUsed.mapFresh (h : PagingUsed k s) (hv : EditedPage k v) (hok : FramesFor k v s)
    (write : Bool) :
    let s' := mapFresh k pmmFrames v write s
    PagingUsed k s' ∧ MappedTo k s' v s.alloc.allocPage.1 ∧
      ∀ w, EditedPage k w → w / 0x1000 ≠ v / 0x1000 → entryOf k s' w = entryOf k s w := by
  intro s'
  obtain ⟨hmod, hlt, -, -⟩ := Pmm.allocPage_spec hok.1
  have h₁ := (h.allocPage hok.1).toPagingUsed
  obtain ⟨hwell, hread, -, htakes⟩ := vmmMapPage_entries pmmFrames h₁.wellMapped hv.2
    s.alloc.allocPage.1 write true fun habsent => h₁.canBeTable (hok.2 habsent)
  refine ⟨h₁.of_takes hwell htakes hok.2, ?_, fun w hw hne => ?_⟩
  · have hentry := hread _ (pageDirIndex_lt v) (pageTableIndex v) hv.2
    rw [if_pos ⟨rfl, rfl⟩] at hentry
    have hspec := mapEntry_spec (s.pageEntry k (pageDirIndex v) (pageTableIndex v)) write true
      (Nat.dvd_of_mod_eq_zero hmod) hlt
    have hself : entryOf k s' v = mapEntry s.alloc.allocPage.1 write true
        (s.pageEntry k (pageDirIndex v) (pageTableIndex v)) := hentry
    unfold MappedTo
    rw [hself]
    exact ⟨hspec.1, hspec.2, hok.1⟩
  · have hentry := hread _ (pageDirIndex_lt w) (pageTableIndex w) hw.2
    rw [if_neg fun heq => hne ((page_eq_iff hv.1 hw.1).mp heq)] at hentry
    exact hentry

/-- INTERNAL: **the pages of a list** are mapped, and no other entry changes. -/
theorem PagingUsed.mapFreshAll {vs : List ℕ} (h : PagingUsed k s)
    (hvs : ∀ v ∈ vs, EditedPage k v) (hnodup : (vs.map (· / 0x1000)).Nodup)
    (hok : EachCall (fun v s => Vmm.mapFresh k pmmFrames v write s) (FramesFor k) vs s) :
    let s' := vs.foldl (fun s v => Vmm.mapFresh k pmmFrames v write s) s
    PagingUsed k s' ∧ (∀ v ∈ vs, ∃ frame, MappedTo k s' v frame) ∧
      ∀ w, EditedPage k w → w / 0x1000 ∉ vs.map (· / 0x1000) →
        entryOf k s' w = entryOf k s w := by
  induction vs generalizing s with
  | nil => exact ⟨h, by simp, fun w _ _ => rfl⟩
  | cons v vs ih =>
      have hv := hvs v List.mem_cons_self
      rw [List.map_cons, List.nodup_cons] at hnodup
      obtain ⟨h₁, hmapped, hkept⟩ := h.mapFresh hv hok.1 write
      obtain ⟨h', hall, hkept'⟩ :=
        ih h₁ (fun w hw => hvs w (List.mem_cons_of_mem v hw)) hnodup.2 hok.2
      refine ⟨h', List.forall_mem_cons.mpr ⟨⟨s.alloc.allocPage.1, ?_⟩, hall⟩, fun w hw hother => ?_⟩
      · have hsame := hkept' v hv hnodup.1
        unfold MappedTo at hmapped ⊢
        rw [List.foldl_cons, hsame]
        exact hmapped
      · rw [List.map_cons, List.mem_cons, not_or] at hother
        rw [List.foldl_cons, hkept' w hw hother.2, hkept w hw hother.1]

/-- INTERNAL: the pages of a range that does not wrap around. -/
theorem mem_pageRange {lo len : ℕ} (hlo : 0x1000 ∣ lo) (hlen : 0x1000 ∣ len)
    (hlt : lo + len < 2 ^ 32) :
    (pageRange lo (add32 lo len)).length = len / 0x1000 ∧
    (∀ v ∈ pageRange lo (add32 lo len), lo ≤ v ∧ v < lo + len) ∧
    ∀ v, v / 0x1000 ∈ (pageRange lo (add32 lo len)).map (· / 0x1000) ↔ lo ≤ v ∧ v < lo + len := by
  obtain ⟨p, rfl⟩ := hlo
  obtain ⟨n, rfl⟩ := hlen
  have hstop : add32 (0x1000 * p) (0x1000 * n) = 0x1000 * p + n * 0x1000 := by
    rw [add32_eq hlt, Nat.mul_comm n]
  rw [hstop, pageRange_add]
  refine ⟨?_, fun v hv => ?_, fun v => ?_⟩
  · rw [List.length_range']
    omega
  · obtain ⟨i, hi, rfl⟩ := List.mem_range'.mp hv
    omega
  · rw [List.mem_map]
    constructor
    · rintro ⟨w, hw, heq⟩
      obtain ⟨i, hi, rfl⟩ := List.mem_range'.mp hw
      omega
    · intro hin
      refine ⟨0x1000 * p + 0x1000 * (v / 0x1000 - p), ?_, by omega⟩
      apply List.mem_range'.mpr
      exact ⟨v / 0x1000 - p, by omega, rfl⟩

/-- **`umap_pages` inserts in order**: the list has the block in its place and all blocks it
had, and exactly the pages of the range are mapped.
SRCLINE: umm.c:13-48 -/
theorem umap_pages_in_order {blocks : List UmmBlock} (vaddr len prot flags : ℕ)
    (h : Ordered blocks) (hvaddr : 0x1000 ∣ vaddr) (hlen : 0x1000 ∣ len) (hpos : 0 < len)
    (hlt : vaddr + len < 2 ^ 32) (hfree : FreeRange blocks vaddr (vaddr + len))
    (hs : PagingUsed k s) (hout : ∀ v, vaddr ≤ v → v < vaddr + len → EditedPage k v)
    (hok : EachCall (fun v s => Vmm.mapFresh k pmmFrames v (hasFlag prot ummBlockProtWrite) s)
      (FramesFor k) (pageRange vaddr (add32 vaddr len)) s) :
    let r := umapPages (pageOps k pmmFrames) vaddr len prot flags blocks s
    Ordered r.1 ∧ r.1.Perm (⟨vaddr, len, prot, flags⟩ :: blocks) ∧
    (pageRange vaddr (add32 vaddr len)).length = len / 0x1000 ∧
    (∀ v, vaddr ≤ v → v < vaddr + len → ∃ frame, MappedTo k r.2 v frame) ∧
    ∀ v, EditedPage k v → ¬ (vaddr ≤ v ∧ v < vaddr + len) → entryOf k r.2 v = entryOf k s v := by
  intro r
  obtain ⟨hcount, hin, hmem⟩ := mem_pageRange hvaddr hlen hlt
  let new : UmmBlock := ⟨vaddr, len, prot, flags⟩
  have hnew : FreeRange blocks new.start (new.start + new.len) := hfree
  obtain ⟨as, bs, rfl, hins, has, hbs⟩ := insertBlock_spec h hpos hnew
  obtain ⟨-, hmapped, hkept⟩ := hs.mapFreshAll (fun v hv => hout v (hin v hv).1 (hin v hv).2)
    (pageRange_nodup vaddr (add32 vaddr len)) hok
  have hlist : r.1 = as ++ new :: bs := hins
  rw [hlist]
  refine ⟨ordered_middle.mpr ⟨h, ⟨hvaddr, hlen⟩, hpos, hlt, has, hbs⟩, List.perm_middle, hcount,
    fun v hv hvlt => ?_, fun v hv hother => ?_⟩
  · obtain ⟨w, hw, heq⟩ := List.mem_map.mp ((hmem v).mpr ⟨hv, hvlt⟩)
    obtain ⟨frame, hframe⟩ := hmapped w hw
    have hw' := hout w (hin w hw).1 (hin w hw).2
    obtain ⟨hdir, htab⟩ := (page_eq_iff hw'.1 (hout v hv hvlt).1).mpr heq.symm
    refine ⟨frame, ?_⟩
    unfold MappedTo entryOf at hframe ⊢
    rw [hdir, htab]
    exact hframe
  · exact hkept v hv fun hin => hother ((hmem v).mp hin)

/-- A page behind a block of one page. -/
theorem umap_pages_in_order_page :
    let r := umapPages (pageOps twoFrames pmmFrames) 0x400000 0x1000 3 0x22
      [⟨0x1000, 0x1000, 3, 0x22⟩] emptyProcess.paging
    Ordered r.1 ∧ ∃ frame, MappedTo twoFrames r.2 0x400000 frame := by
  have hpages : pageRange 0x400000 (add32 0x400000 0x1000) = [0x400000] := by decide
  have hordered : Ordered [⟨0x1000, 0x1000, 3, 0x22⟩] :=
    ⟨by simp, by simp, by simp, List.pairwise_singleton _ _⟩
  have hin := umap_pages_in_order (k := twoFrames) 0x400000 0x1000 3 0x22 hordered
    (by decide) (by decide) (by decide) (by decide) (by simp [FreeRange])
    (emptyProcess_canMap 0x22 (by decide)).paging
    (fun v hv hlt => (outsideWindow_of_lt (hlt.trans (by decide))).edited)
    (by
      rw [hpages]
      exact ⟨⟨by decide +kernel, fun _ => by decide +kernel⟩, trivial⟩)
  exact ⟨hin.1, hin.2.2.2.1 0x400000 le_rfl (by decide)⟩

end LakeOS.Analysis
