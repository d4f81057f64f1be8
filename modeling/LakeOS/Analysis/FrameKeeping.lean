import LakeOS.Analysis.PageMap
import LakeOS.Analysis.PmmOwnership

/-!
# Frames that stay taken

The page tables on top of the physical memory manager.  `Keeps k d s` says that block `d`
is marked used and is no frame of the page tables, which are themselves marked used: then
nothing that maps and unmaps pages gives `d` back, for it only frees page tables.
`Supplies n` says that the next `n` calls of `alloc_page` find a block.
-/

set_option autoImplicit false

namespace LakeOS.Model.Pmm

/-- The next `n` calls of `alloc_page` find a block other than block 0, whose address is
`NULL`. -/
def Supplies : ℕ → Pmm → Prop
  | 0, _ => True
  | n + 1, s => s.allocPage.1 ≠ 0 ∧ Supplies n s.allocPage.2

theorem Supplies.mono {n m : ℕ} {s : Pmm} (h : Supplies n s) (hle : m ≤ n) : Supplies m s := by
  induction n generalizing m s with
  | zero =>
      obtain rfl := Nat.le_zero.mp hle
      exact h
  | succ n ih =>
      cases m with
      | zero => trivial
      | succ m => exact ⟨h.1, ih h.2 (Nat.le_of_succ_le_succ hle)⟩

/-- INTERNAL: a page that `alloc_page` returns is a block that was free.
SRCLINE: pmm.c:105-114 -/
theorem allocPage_spec {s : Pmm} (h : s.allocPage.1 ≠ 0) :
    s.allocPage.1 % 0x1000 = 0 ∧ s.allocPage.1 < 2 ^ 32 ∧
    ¬ s.used (s.allocPage.1 / 0x1000) ∧
    ∀ b, s.allocPage.2.used b ↔ b = s.allocPage.1 / 0x1000 ∨ s.used b := by
  cases hb : s.allocPageBlock with
  | none => simp [allocPage, hb] at h
  | some b =>
      have haddr : s.allocPage.1 / 0x1000 = b := allocPage_address hb
      have hpage : s.allocPage.1 = memoryBlockSize * b % 2 ^ 32 := by simp [allocPage, hb]
      refine ⟨?_, ?_, ?_, fun c => ?_⟩
      · rw [hpage]
        unfold memoryBlockSize
        omega
      · rw [hpage]
        exact Nat.mod_lt _ (by decide)
      · rw [haddr]
        exact (allocPageBlock_some hb).2
      · rw [haddr, ← used_setUsed]
        simp [allocPage, hb]

end LakeOS.Model.Pmm

namespace LakeOS.Model.Vmm

theorem IsPaging.dvd {α : Type} {k : KernelLayout} {s : Vmm α} {f : ℕ} (h : IsPaging k s f) :
    0x1000 ∣ f := by
  obtain rfl | ⟨d, -, -, rfl⟩ := h
  · exact dvd_entryFrame _
  · exact dvd_entryFrame _

theorem IsPaging.eq_of_div_eq {α : Type} {k : KernelLayout} {s : Vmm α} {f g : ℕ}
    (hf : IsPaging k s f) (hg : IsPaging k s g) (h : f / 0x1000 = g / 0x1000) : f = g := by
  obtain ⟨a, rfl⟩ := hf.dvd
  obtain ⟨b, rfl⟩ := hg.dvd
  omega

end LakeOS.Model.Vmm

namespace LakeOS.Analysis

open LakeOS.Library LakeOS.Model Vmm

variable {k : KernelLayout} {s : Vmm Pmm} {d v : ℕ}

/-- The frames of the page tables are marked used, and so is block 0. -/
structure PagingUsed (k : KernelLayout) (s : Vmm Pmm) : Prop where
  wellMapped : WellMapped k s
  used : ∀ f, IsPaging k s f → s.alloc.used (f / 0x1000)

/-- Block `d` is marked used, and is no frame of the page tables. -/
structure Keeps (k : KernelLayout) (d : ℕ) (s : Vmm Pmm) : Prop extends PagingUsed k s where
  kept : s.alloc.used d
  apart : ∀ f, IsPaging k s f → f / 0x1000 ≠ d

/-- INTERNAL: a frame that was free can become a page table. -/
theorem PagingUsed.canBeTable (h : PagingUsed k s) (hpage : s.alloc.allocPage.1 ≠ 0) :
    CanBeTable k s s.alloc.allocPage.1 := by
  obtain ⟨hmod, hlt, hfree, -⟩ := Pmm.allocPage_spec hpage
  exact ⟨hpage, hmod, hlt, fun hpaging => hfree (h.used _ hpaging)⟩

/-- INTERNAL: the frames of the page tables stay used when a table may have been taken. -/
theorem PagingUsed.of_takes {s' : Vmm Pmm} (h : PagingUsed k s) (hwell : WellMapped k s')
    (htakes : TakesTable pmmFrames k v s s')
    (hok : entryPresent (s.directoryEntry k v) = false → s.alloc.allocPage.1 ≠ 0) :
    PagingUsed k s' := by
  refine ⟨hwell, fun f hf => ?_⟩
  obtain ⟨-, halloc, hsub⟩ | ⟨habsent, halloc, hsub⟩ := htakes
  · rw [halloc]
    exact h.used f (hsub f hf)
  · obtain ⟨-, -, -, hused⟩ := Pmm.allocPage_spec (hok habsent)
    rw [halloc]
    refine (hused _).mpr ((hsub f hf).symm.imp (fun heq => ?_) (h.used f))
    rw [heq]
    rfl

/-- INTERNAL: taking a frame keeps it, and those kept before. -/
theorem PagingUsed.allocPage (h : PagingUsed k s) (hpage : s.alloc.allocPage.1 ≠ 0) :
    Keeps k (s.alloc.allocPage.1 / 0x1000) { s with alloc := s.alloc.allocPage.2 } := by
  obtain ⟨-, -, hfree, hused⟩ := Pmm.allocPage_spec hpage
  refine ⟨⟨h.wellMapped.congr rfl (fun _ => rfl) fun _ => rfl, fun f hf => ?_⟩, ?_,
    fun f hf heq => ?_⟩
  · exact (hused _).mpr (.inr (h.used f hf))
  · exact (hused _).mpr (.inl rfl)
  · exact hfree (heq ▸ h.used f hf)

theorem Keeps.allocPage (h : Keeps k d s) (hpage : s.alloc.allocPage.1 ≠ 0) :
    Keeps k d { s with alloc := s.alloc.allocPage.2 } := by
  obtain ⟨-, -, -, hused⟩ := Pmm.allocPage_spec hpage
  exact ⟨(h.toPagingUsed.allocPage hpage).toPagingUsed, (hused _).mpr (.inr h.kept), h.apart⟩

/-- INTERNAL: mapping a page keeps the block, whether or not it takes a page table. -/
theorem Keeps.vmmMapPage (h : Keeps k d s) (hv : pageDirIndex v ≠ 768) {paddr : ℕ}
    (hmod : paddr % 0x1000 = 0) (hlt : paddr < 2 ^ 32) (write ring3 : Bool) {n : ℕ}
    (hn : s.alloc.Supplies (n + 1)) :
    Keeps k d (vmmMapPage k pmmFrames paddr v write ring3 s) ∧
      (vmmMapPage k pmmFrames paddr v write ring3 s).alloc.Supplies n := by
  have hfresh := h.toPagingUsed.canBeTable hn.1
  obtain ⟨hwell, -, htakes⟩ := vmmMapPage_spec pmmFrames h.wellMapped hv
    (Nat.dvd_of_mod_eq_zero hmod) hlt write ring3 fun _ => hfresh
  have hused' := h.toPagingUsed.of_takes hwell htakes fun _ => hn.1
  obtain ⟨-, halloc, hsub⟩ | ⟨-, halloc, hsub⟩ := htakes
  · refine ⟨⟨hused', ?_, fun f hf => h.apart f (hsub f hf)⟩, ?_⟩
    · rw [halloc]
      exact h.kept
    · rw [halloc]
      exact hn.mono (Nat.le_succ n)
  · obtain ⟨-, -, hfree, hused⟩ := Pmm.allocPage_spec hn.1
    refine ⟨⟨hused', ?_, fun f hf => ?_⟩, ?_⟩
    · rw [halloc]
      exact (hused _).mpr (.inr h.kept)
    · obtain hold | rfl := hsub f hf
      · exact h.apart f hold
      · exact fun heq => hfree (heq ▸ h.kept)
    · rw [halloc]
      exact hn.2

/-- INTERNAL: unmapping a page keeps the block: only a page table can be freed. -/
theorem Keeps.vmmUnmapPage (h : Keeps k d s) (hv : pageDirIndex v ≠ 768)
    (hpres : entryPresent (s.slot k (pageDirIndex v))) :
    Keeps k d (vmmUnmapPage k pmmFrames v s) := by
  obtain ⟨hwell, -, hsub, halloc⟩ := vmmUnmapPage_spec pmmFrames h.wellMapped hv hpres
  have htable : IsPaging k s (s.table k (pageDirIndex v)) :=
    .inr ⟨_, pageDirIndex_lt v, hpres, rfl⟩
  obtain halloc | ⟨halloc, hgone⟩ := halloc
  · refine ⟨⟨hwell, fun f hf => ?_⟩, ?_, fun f hf => h.apart f (hsub f hf)⟩
    · rw [halloc]
      exact h.used f (hsub f hf)
    · rw [halloc]
      exact h.kept
  · refine ⟨⟨hwell, fun f hf => ?_⟩, ?_, fun f hf => h.apart f (hsub f hf)⟩
    · rw [halloc]
      refine (Pmm.used_freePage _ _ _).mpr ⟨fun heq => hgone ?_, h.used f (hsub f hf)⟩
      rwa [← (hsub f hf).eq_of_div_eq htable heq]
    · rw [halloc]
      exact (Pmm.used_freePage _ _ _).mpr ⟨(h.apart _ htable).symm, h.kept⟩

/-! ## Mapping and unmapping a range -/

/-- The pages of a list are mapped. -/
def AllMapped (k : KernelLayout) (s : Vmm Pmm) (vs : List ℕ) : Prop :=
  ∀ v ∈ vs, s.translation k (pageDirIndex v) (pageTableIndex v) ≠ 0

/-- INTERNAL: a page mapped to a fresh frame is mapped, and so are those mapped before.
SRCLINE: umm.c:43-46 -/
theorem mapFresh_keeps (h' : Keeps k d { s with alloc := s.alloc.allocPage.2 })
    (hv : OutsideWindow v) (write : Bool) {n : ℕ} (hn : s.alloc.Supplies (n + 2)) :
    Keeps k d (mapFresh k pmmFrames v write s) ∧
    (mapFresh k pmmFrames v write s).alloc.Supplies n ∧
    ∀ vs, AllMapped k s vs → (∀ w ∈ vs, OutsideWindow w) →
      AllMapped k (mapFresh k pmmFrames v write s) (v :: vs) := by
  obtain ⟨hmod, hlt, -, -⟩ := Pmm.allocPage_spec hn.1
  obtain ⟨hkeep, hsupply⟩ := h'.vmmMapPage hv.2 hmod hlt write true hn.2
  obtain ⟨-, htrans, -⟩ := vmmMapPage_spec pmmFrames h'.wellMapped hv.2
    (Nat.dvd_of_mod_eq_zero hmod) hlt write true fun _ => h'.toPagingUsed.canBeTable hn.2.1
  refine ⟨hkeep, hsupply, fun vs hvs hout w hw => ?_⟩
  have hw' : OutsideWindow w := (List.mem_cons.mp hw).elim (fun heq => heq ▸ hv) (hout w)
  have hread := htrans _ (pageDirIndex_lt w) hw'.2 (pageTableIndex w)
  unfold Vmm.mapFresh
  rw [show s.alloc.allocPage = pmmFrames.allocPage s.alloc from rfl] at hread
  rw [hread]
  split
  next => exact hn.1
  next hne =>
    refine hvs w ((List.mem_cons.mp hw).resolve_left fun heq => hne ?_)
    rw [heq]
    trivial

/-- INTERNAL: so for the pages of a list. -/
theorem Keeps.mapPages (vs : List ℕ) (hvs : ∀ v ∈ vs, OutsideWindow v) (write : Bool)
    {done : List ℕ} (hdone : ∀ v ∈ done, OutsideWindow v) (h : Keeps k d s)
    (hmapped : AllMapped k s done) (hn : s.alloc.Supplies (2 * vs.length)) :
    let s' := vs.foldl (fun s v => Vmm.mapFresh k pmmFrames v write s) s
    Keeps k d s' ∧ AllMapped k s' (vs ++ done) := by
  induction vs generalizing done s with
  | nil => exact ⟨h, hmapped⟩
  | cons v vs ih =>
      have hv := hvs v List.mem_cons_self
      obtain ⟨hkeep, hsupply, hmore⟩ :=
        mapFresh_keeps (h.allocPage hn.1) hv write (n := 2 * vs.length) hn
      obtain ⟨hkeep', hmapped'⟩ := ih (fun w hw => hvs w (List.mem_cons_of_mem v hw))
        (List.forall_mem_cons.mpr ⟨hv, hdone⟩) hkeep (hmore done hmapped hdone) hsupply
      refine ⟨hkeep', fun w hw => hmapped' w ?_⟩
      simp only [List.mem_append, List.mem_cons] at hw ⊢
      tauto

/-- INTERNAL: unmapping distinct mapped pages keeps the block. -/
theorem Keeps.unmapPages (vs : List ℕ) (hvs : ∀ v ∈ vs, OutsideWindow v)
    (hnodup : (vs.map (· / 0x1000)).Nodup) (h : Keeps k d s) (hmapped : AllMapped k s vs) :
    Keeps k d (vs.foldl (fun s v => Vmm.vmmUnmapPage k pmmFrames v s) s) := by
  induction vs generalizing s with
  | nil => exact h
  | cons v vs ih =>
      have hv := hvs v List.mem_cons_self
      have hpres : entryPresent (s.slot k (pageDirIndex v)) := by
        by_contra habsent
        exact hmapped v List.mem_cons_self
          (translation_of_slot_absent (Bool.not_eq_true _ ▸ habsent))
      obtain ⟨-, htrans, -⟩ := vmmUnmapPage_spec pmmFrames h.wellMapped hv.2 hpres
      rw [List.map_cons, List.nodup_cons] at hnodup
      rw [List.foldl_cons]
      apply ih (fun w hw => hvs w (List.mem_cons_of_mem v hw)) hnodup.2
        (h.vmmUnmapPage hv.2 hpres)
      intro w hw
      have hw' := hvs w (List.mem_cons_of_mem v hw)
      have hne : w / 0x1000 ≠ v / 0x1000 :=
        fun heq => hnodup.1 (heq ▸ List.mem_map_of_mem hw)
      rw [htrans _ (pageDirIndex_lt w) hw'.2 _ (pageTableIndex_lt w),
        if_neg fun heq => hne ((page_eq_iff hv.1 hw'.1).mp heq)]
      exact hmapped w (List.mem_cons_of_mem v hw)

/-- **Mapping leaks.**  After pages are mapped to fresh frames, and also after they are
unmapped again, the block of the first frame taken is still marked used.
SRCLINE: umm.c:42-63 -/
theorem mapped_stays_used {vs : List ℕ} (h : PagingUsed k s) (hpos : vs ≠ [])
    (hvs : ∀ v ∈ vs, OutsideWindow v) (hnodup : (vs.map (· / 0x1000)).Nodup) (write : Bool)
    (hn : s.alloc.Supplies (2 * vs.length)) :
    let s' := vs.foldl (fun s v => mapFresh k pmmFrames v write s) s
    ∃ b, ¬ s.alloc.used b ∧ s'.alloc.used b ∧
      (vs.foldl (fun s v => vmmUnmapPage k pmmFrames v s) s').alloc.used b := by
  intro s'
  obtain ⟨v, vs, rfl⟩ := List.exists_cons_of_ne_nil hpos
  have hv := hvs v List.mem_cons_self
  obtain ⟨-, -, hfree, -⟩ := Pmm.allocPage_spec hn.1
  obtain ⟨hkeep, hsupply, hmapped⟩ :=
    mapFresh_keeps (h.allocPage hn.1) hv write (n := 2 * vs.length) hn
  obtain ⟨hkeep', hmapped'⟩ := hkeep.mapPages vs (fun w hw => hvs w (List.mem_cons_of_mem v hw))
    write (by simpa using hv) (hmapped [] (by simp [AllMapped]) (by simp)) hsupply
  have hall : AllMapped k s' (v :: vs) := fun w hw => hmapped' w (by simpa [or_comm] using hw)
  exact ⟨_, hfree, hkeep'.kept, (hkeep'.unmapPages (v :: vs) hvs hnodup hall).kept⟩

end LakeOS.Analysis
