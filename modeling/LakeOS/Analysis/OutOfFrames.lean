import LakeOS.Analysis.AddressSpaces
import LakeOS.Analysis.MmapAtomic
import LakeOS.Library.Runs
import Mathlib.Data.Finset.Card

/-!
# Mapping without a free frame

`alloc_page` answers `NULL` when it finds no block, and none of its callers looks at the
answer: `NULL` is a frame like any other, and the page, or the page table, of the call
becomes the physical page 0.

A page that frame 0 is mapped to stays so for the rest of the call, and a directory slot
that names frame 0 keeps it whatever follows, although the page tables are no longer apart
then: only the directory and `higher_half_page_table` are still left alone (`Stands`).
-/

set_option autoImplicit false

namespace LakeOS.Analysis

open LakeOS.Library LakeOS.Model Vmm

variable {k : KernelLayout} {v : ℕ}

/-! ## One mapping, whatever the frames are -/

section

variable {α : Type} {A : FrameAllocator α} {s : Vmm α}

/-- The table that a mapping uses: the one that is there, or the frame that `alloc_page`
returns. -/
def tableFor (A : FrameAllocator α) (k : KernelLayout) (v : ℕ) (s : Vmm α) : ℕ :=
  if entryPresent (s.directoryEntry k v) then s.table k (pageDirIndex v)
  else (A.allocPage s.alloc).1

/-- What opening the table of an address changes: a slot, the window and a table. -/
structure Opened (k : KernelLayout) (v t : ℕ) (s s' : Vmm α) : Prop where
  directory : s'.directory k = s.directory k
  slots : ∀ d, d ≠ pageDirIndex v → s'.slot k d = s.slot k d
  present : entryPresent (s'.slot k (pageDirIndex v))
  table : s'.table k (pageDirIndex v) = t
  window : s'.window k = t
  frames : ∀ f, f ≠ s.directory k → f ≠ k.higherHalf → f ≠ t → s'.phys f = s.phys f

/-- INTERNAL: the window moves to the table of a slot. -/
theorem opened_mapWindow (hslot : k.directorySlot ≠ windowSlot)
    (hdir : s.directory k ≠ k.higherHalf) (hpres : entryPresent (s.directoryEntry k v)) :
    Opened k v (s.table k (pageDirIndex v)) s
      (s.mapWindow k (entryFrame (s.directoryEntry k v))) := by
  have hdirectory := directory_mapWindow hslot (s := s) (entryFrame (s.directoryEntry k v))
  have hslots : ∀ d, (s.mapWindow k (entryFrame (s.directoryEntry k v))).slot k d =
      s.slot k d := by
    intro d
    unfold slot
    rw [hdirectory, mapWindow_phys_of_ne (.inl hdir)]
  refine ⟨hdirectory, fun d _ => hslots d, ?_, ?_, window_mapWindow_entry _, fun f _ hf _ => ?_⟩
  · rw [hslots]
    exact hpres
  · unfold Vmm.table
    rw [hslots]
  · funext i
    exact mapWindow_phys_of_ne (.inl hf)

/-- INTERNAL: a slot gets the frame `page` as its table. -/
theorem opened_newTable {page : ℕ} (hslot : k.directorySlot ≠ windowSlot)
    (hdir : s.directory k ≠ k.higherHalf) (hdvd : 0x1000 ∣ page) (hlt : page < 2 ^ 32)
    (hpdir : page ≠ s.directory k) (hhalf : page ≠ k.higherHalf) :
    let s₁ := s.mapWindow k page
    let s₂ : Vmm α := { s₁ with phys := s₁.phys.clear (s₁.window k) }
    Opened k v page s
      (s₂.setDirectoryEntry k v (tableEntry (s₂.directoryEntry k v) (s₂.window k))) := by
  intro s₁ s₂
  have hwin₁ : s₁.window k = page := window_mapWindow hdvd hlt
  have hphys₁ : ∀ f, f ≠ k.higherHalf → s₁.phys f = s.phys f := by
    intro f hf
    funext i
    exact mapWindow_phys_of_ne (.inl hf)
  have hdir₁ : s₁.directory k = s.directory k := directory_mapWindow hslot page
  have hphys₂ : ∀ f, f ≠ page → s₂.phys f = s₁.phys f := by
    intro f hf
    funext i
    exact PhysMemory.clear_of_ne _ _ (by rw [hwin₁]; exact hf)
  have hdir₂ : s₂.directory k = s.directory k := by
    rw [← hdir₁]
    unfold directory
    rw [hphys₂ _ hhalf.symm]
  have hwin₂ : s₂.window k = page := by
    rw [← hwin₁]
    unfold window
    rw [hphys₂ _ hhalf.symm]
  have hne₂ : s₂.directory k ≠ k.higherHalf := hdir₂ ▸ hdir
  have hentry : entryFrame (tableEntry (s₂.directoryEntry k v) (s₂.window k)) = page := by
    rw [hwin₂]
    exact entryFrame_setFrame _ hdvd hlt
  have hpres := entryPresent_tableEntry (s₂.directoryEntry k v) (s₂.window k)
  generalize tableEntry (s₂.directoryEntry k v) (s₂.window k) = e at hentry hpres ⊢
  have hself := slot_setDirectoryEntry (v := v) (e := e) hne₂ (pageDirIndex v)
  rw [if_pos rfl] at hself
  refine ⟨?_, fun d hd => ?_, ?_, ?_, ?_, fun f hfdir hfhalf hfpage => ?_⟩
  · rw [directory_setDirectoryEntry hne₂, hdir₂]
  · rw [slot_setDirectoryEntry hne₂, if_neg hd]
    unfold slot
    rw [hdir₂, hphys₂ _ hpdir.symm, hphys₁ _ hdir]
  · rw [hself]
    exact hpres
  · unfold Vmm.table
    rw [hself, hentry]
  · rw [window, setDirectoryEntry_phys_of_ne hne₂.symm]
    exact hwin₂
  · funext i
    rw [setDirectoryEntry_phys_of_ne (by rw [hdir₂]; exact hfdir), hphys₂ f hfpage,
      hphys₁ f hfhalf]

/-- INTERNAL: the flag for user access changes no frame but the directory.
SRCLINE: vmm.c:81-82 -/
theorem Opened.grant {s₀ s₁ s₂ : Vmm α} {t : ℕ} (h : Opened k v t s₁ s₂)
    (hdir : s₁.directory k = s₀.directory k)
    (hslots : ∀ d, d ≠ pageDirIndex v → s₁.slot k d = s₀.slot k d)
    (hframes : ∀ f, f ≠ s₀.directory k → s₁.phys f = s₀.phys f) : Opened k v t s₀ s₂ where
  directory := h.directory.trans hdir
  slots d hd := (h.slots d hd).trans (hslots d hd)
  present := h.present
  table := h.table
  window := h.window
  frames f hf hhalf ht := (h.frames f (hdir ▸ hf) hhalf ht).trans (hframes f hf)

/-- INTERNAL: **opening a table**, with any frame for it but the two that the kernel works
through.
SRCLINE: vmm.c:81-103 -/
theorem openTable_opened (hslot : k.directorySlot ≠ windowSlot)
    (hdir : s.directory k ≠ k.higherHalf) (ring3 : Bool)
    (hnew : entryPresent (s.directoryEntry k v) = false →
      0x1000 ∣ (A.allocPage s.alloc).1 ∧ (A.allocPage s.alloc).1 < 2 ^ 32 ∧
        (A.allocPage s.alloc).1 ≠ s.directory k ∧ (A.allocPage s.alloc).1 ≠ k.higherHalf) :
    Opened k v (tableFor A k v s) s (s.openTable k A v ring3) ∧
      (s.openTable k A v ring3).alloc =
        if entryPresent (s.directoryEntry k v) then s.alloc else (A.allocPage s.alloc).2 := by
  obtain ⟨s₁, hs₁⟩ : ∃ s₁, s₁ = if ring3 then
      s.setDirectoryEntry k v
        (entryAddAttribute (s.directoryEntry k v) pageStructEntryUserAccess) else s := ⟨_, rfl⟩
  have hgrant : s₁.directory k = s.directory k ∧
      (∀ d, d ≠ pageDirIndex v → s₁.slot k d = s.slot k d) ∧
      (∀ f, f ≠ s.directory k → s₁.phys f = s.phys f) ∧ s₁.alloc = s.alloc ∧
      entryPresent (s₁.directoryEntry k v) = entryPresent (s.directoryEntry k v) ∧
      s₁.table k (pageDirIndex v) = s.table k (pageDirIndex v) := by
    cases ring3 with
    | false =>
        rw [hs₁]
        exact ⟨rfl, fun _ _ => rfl, fun _ _ => rfl, rfl, rfl, rfl⟩
    | true =>
        have hself := slot_setDirectoryEntry (v := v)
          (e := entryAddAttribute (s.directoryEntry k v) pageStructEntryUserAccess) hdir
          (pageDirIndex v)
        rw [if_pos rfl] at hself
        rw [hs₁, if_pos rfl]
        refine ⟨directory_setDirectoryEntry hdir, fun d hd => ?_, fun f hf => ?_, rfl, ?_, ?_⟩
        · rw [slot_setDirectoryEntry hdir, if_neg hd]
        · funext i
          exact setDirectoryEntry_phys_of_ne hf
        · exact (congrArg entryPresent hself).trans (entryPresent_addAttribute _ (by decide))
        · exact (congrArg entryFrame hself).trans (entryFrame_addAttribute _ (by decide))
  obtain ⟨hdir₁, hslots₁, hframes₁, halloc₁, hpres₁, htable₁⟩ := hgrant
  have hdirne₁ : s₁.directory k ≠ k.higherHalf := hdir₁ ▸ hdir
  unfold tableFor
  cases hpres : entryPresent (s.directoryEntry k v) with
  | true =>
      have hrun : s.openTable k A v ring3 =
          s₁.mapWindow k (entryFrame (s₁.directoryEntry k v)) := by
        rw [openTable, ← hs₁, hpres₁, hpres]
        rfl
      rw [hrun, if_pos rfl, if_pos rfl, ← htable₁]
      refine ⟨?_, halloc₁⟩
      exact (opened_mapWindow hslot hdirne₁ (hpres₁.trans hpres)).grant hdir₁ hslots₁ hframes₁
  | false =>
      obtain ⟨hdvd, hlt, hpdir, hhalf⟩ := hnew hpres
      have hrun : s.openTable k A v ring3 =
          let s₂ := ({ s₁ with alloc := (A.allocPage s.alloc).2 } : Vmm α).mapWindow k
            (A.allocPage s.alloc).1
          let s₃ : Vmm α := { s₂ with phys := s₂.phys.clear (s₂.window k) }
          s₃.setDirectoryEntry k v (tableEntry (s₃.directoryEntry k v) (s₃.window k)) := by
        rw [openTable, ← hs₁, hpres₁, hpres, ← halloc₁]
        rfl
      rw [hrun, if_neg Bool.false_ne_true, if_neg Bool.false_ne_true]
      refine ⟨?_, rfl⟩
      have hopened := opened_newTable (v := v)
        (s := { s₁ with alloc := (A.allocPage s.alloc).2 }) hslot hdirne₁ hdvd hlt
        (fun heq => hpdir (heq.trans hdir₁)) hhalf
      exact hopened.grant hdir₁ hslots₁ hframes₁

/-- INTERNAL: **mapping a page** writes to the directory, to `higher_half_page_table` and to
the table of the page.
SRCLINE: vmm.c:70-118 -/
theorem vmmMapPage_opened (hslot : k.directorySlot ≠ windowSlot)
    (hdir : s.directory k ≠ k.higherHalf) (paddr : ℕ) (write ring3 : Bool)
    (htdir : tableFor A k v s ≠ s.directory k) (hthalf : tableFor A k v s ≠ k.higherHalf)
    (hnew : entryPresent (s.directoryEntry k v) = false →
      0x1000 ∣ (A.allocPage s.alloc).1 ∧ (A.allocPage s.alloc).1 < 2 ^ 32) :
    Opened k v (tableFor A k v s) s (vmmMapPage k A paddr v write ring3 s) ∧
      (vmmMapPage k A paddr v write ring3 s).alloc =
        if entryPresent (s.directoryEntry k v) then s.alloc else (A.allocPage s.alloc).2 := by
  have hnew' : entryPresent (s.directoryEntry k v) = false →
      0x1000 ∣ (A.allocPage s.alloc).1 ∧ (A.allocPage s.alloc).1 < 2 ^ 32 ∧
        (A.allocPage s.alloc).1 ≠ s.directory k ∧ (A.allocPage s.alloc).1 ≠ k.higherHalf := by
    intro habsent
    unfold tableFor at htdir hthalf
    rw [habsent, if_neg Bool.false_ne_true] at htdir hthalf
    exact ⟨(hnew habsent).1, (hnew habsent).2, htdir, hthalf⟩
  obtain ⟨hopened, halloc⟩ := openTable_opened (A := A) hslot hdir ring3 hnew'
  have hphys : ∀ f, f ≠ tableFor A k v s →
      (vmmMapPage k A paddr v write ring3 s).phys f = (s.openTable k A v ring3).phys f := by
    intro f hf
    funext i
    exact setWindowEntry_phys_of_ne (.inl (by rw [hopened.window]; exact hf))
  have hdirectory : (vmmMapPage k A paddr v write ring3 s).directory k = s.directory k := by
    rw [← hopened.directory]
    exact directory_setWindowEntry (.inl (by rw [hopened.window]; exact hthalf))
  have hslots : ∀ d, (vmmMapPage k A paddr v write ring3 s).slot k d =
      (s.openTable k A v ring3).slot k d := by
    intro d
    unfold slot
    rw [hdirectory, hopened.directory, hphys _ htdir.symm]
  refine ⟨⟨hdirectory, fun d hd => (hslots d).trans (hopened.slots d hd), ?_, ?_, ?_, ?_⟩, halloc⟩
  · rw [hslots]
    exact hopened.present
  · rw [Vmm.table, hslots]
    exact hopened.table
  · rw [window, hphys _ hthalf.symm]
    exact hopened.window
  · intro f hfdir hfhalf hft
    rw [hphys f hft, hopened.frames f hfdir hfhalf hft]

end

/-! ## The state of the page tables -/

variable {s : Vmm Pmm}

/-- Frame 0 is mapped at entry `i` of the table of slot `d`. -/
def MapsZero (k : KernelLayout) (s : Vmm Pmm) (d i : ℕ) : Prop :=
  entryPresent (s.pageEntry k d i) ∧ entryFrame (s.pageEntry k d i) = 0

/-- A directory slot names frame 0. -/
def NamesZero (k : KernelLayout) (s : Vmm Pmm) : Prop :=
  ∃ d < 1024, entryPresent (s.slot k d) ∧ s.table k d = 0

/-- INTERNAL: what stands even when tables overlap: the directory and
`higher_half_page_table`. -/
structure Stands (k : KernelLayout) (s : Vmm Pmm) : Prop where
  slot_ne : k.directorySlot ≠ windowSlot
  directory_ne : s.directory k ≠ k.higherHalf
  directory : s.directory k ≠ 0 ∧ s.alloc.used (s.directory k / 0x1000)
  higherHalf : k.higherHalf ≠ 0 ∧ s.alloc.used (k.higherHalf / 0x1000)
  tables : ∀ d < 1024, d ≠ 768 → entryPresent (s.slot k d) →
    s.table k d ≠ s.directory k ∧ s.table k d ≠ k.higherHalf

/-- The page tables lie apart in used frames, and frame 0 is none of them. -/
structure ApartFromZero (k : KernelLayout) (s : Vmm Pmm) : Prop extends PagingUsed k s where
  zero : ¬ IsPaging k s 0

/-- Nor is frame 0 mapped outside slot 768. -/
structure ZeroFree (k : KernelLayout) (s : Vmm Pmm) : Prop extends ApartFromZero k s where
  page : ∀ d < 1024, d ≠ 768 → ∀ i, ¬ MapsZero k s d i

/-- No entry for frame 0 is new, and frame 0 is not written. -/
structure LeavesFrameZero (k : KernelLayout) (s s' : Vmm Pmm) : Prop where
  table : ∀ d < 1024, entryPresent (s'.slot k d) → s'.table k d = 0 →
    entryPresent (s.slot k d) ∧ s.table k d = 0
  page : ∀ d < 1024, ∀ i, MapsZero k s' d i → MapsZero k s d i
  memory : s'.phys 0 = s.phys 0

theorem LeavesFrameZero.refl (k : KernelLayout) (s : Vmm Pmm) : LeavesFrameZero k s s :=
  ⟨fun _ _ hpres htable => ⟨hpres, htable⟩, fun _ _ _ hmaps => hmaps, rfl⟩

theorem LeavesFrameZero.trans {s' s'' : Vmm Pmm} (h : LeavesFrameZero k s s')
    (h' : LeavesFrameZero k s' s'') : LeavesFrameZero k s s'' where
  table d hd hpres htable :=
    h.table d hd (h'.table d hd hpres htable).1 (h'.table d hd hpres htable).2
  page d hd i hmaps := h.page d hd i (h'.page d hd i hmaps)
  memory := h'.memory.trans h.memory

/-- INTERNAL: whatever `alloc_page` returns.
SRCLINE: pmm.c:105-114 -/
theorem allocPage_any (s : Pmm) : 0x1000 ∣ s.allocPage.1 ∧ s.allocPage.1 < 2 ^ 32 ∧
    (∀ b, s.used b → s.allocPage.2.used b) ∧
    ∀ f, f ≠ 0 → s.used (f / 0x1000) → s.allocPage.1 ≠ f := by
  by_cases hpage : s.allocPage.1 = 0
  · refine ⟨hpage ▸ Nat.dvd_zero _, by rw [hpage]; norm_num, fun b hb => ?_, fun f hf _ => ?_⟩
    · unfold Pmm.allocPage
      split
      · exact (Pmm.used_setUsed s _ b).mpr (.inr hb)
      · exact hb
    · rw [hpage]
      exact hf.symm
  · obtain ⟨hmod, hlt, hfree, hused⟩ := Pmm.allocPage_spec hpage
    refine ⟨Nat.dvd_of_mod_eq_zero hmod, hlt, fun b hb => (hused b).mpr (.inr hb), fun f _ hf => ?_⟩
    rintro rfl
    exact hfree hf

theorem Stands.alloc (h : Stands k s) : Stands k { s with alloc := s.alloc.allocPage.2 } where
  slot_ne := h.slot_ne
  directory_ne := h.directory_ne
  directory := ⟨h.directory.1, (allocPage_any s.alloc).2.2.1 _ h.directory.2⟩
  higherHalf := ⟨h.higherHalf.1, (allocPage_any s.alloc).2.2.1 _ h.higherHalf.2⟩
  tables := h.tables

theorem ApartFromZero.alloc (h : ApartFromZero k s) :
    ApartFromZero k { s with alloc := s.alloc.allocPage.2 } where
  wellMapped := h.wellMapped.congr rfl (fun _ => rfl) fun _ => rfl
  used f hf := (allocPage_any s.alloc).2.2.1 _ (h.used f hf)
  zero := h.zero

theorem ApartFromZero.stands (h : ApartFromZero k s) : Stands k s where
  slot_ne := h.wellMapped.slot_ne
  directory_ne := h.wellMapped.directory_ne
  directory := ⟨fun heq => h.zero (.inl heq.symm), h.used _ (.inl rfl)⟩
  higherHalf := ⟨fun heq => h.zero (heq ▸ h.wellMapped.isPaging_higherHalf),
    h.used _ h.wellMapped.isPaging_higherHalf⟩
  tables d hd hd768 hpres :=
    ⟨h.wellMapped.table_ne d hd hpres, h.wellMapped.table_ne_higherHalf hd hd768 hpres⟩

/-- INTERNAL: a mapping, whether or not there was a frame for its table.
SRCLINE: vmm.c:70-118 -/
theorem Stands.map (h : Stands k s) (hv : pageDirIndex v ≠ 768) (paddr : ℕ)
    (write ring3 : Bool) :
    Opened k v (tableFor pmmFrames k v s) s (vmmMapPage k pmmFrames paddr v write ring3 s) ∧
      (vmmMapPage k pmmFrames paddr v write ring3 s).alloc =
        (if entryPresent (s.directoryEntry k v) then s.alloc else s.alloc.allocPage.2) ∧
      Stands k (vmmMapPage k pmmFrames paddr v write ring3 s) := by
  obtain ⟨hdvd, hlt, hmono, hne⟩ := allocPage_any s.alloc
  have htable : tableFor pmmFrames k v s ≠ s.directory k ∧
      tableFor pmmFrames k v s ≠ k.higherHalf := by
    unfold tableFor
    split
    next hpres => exact h.tables _ (pageDirIndex_lt v) hv hpres
    next => exact ⟨hne _ h.directory.1 h.directory.2, hne _ h.higherHalf.1 h.higherHalf.2⟩
  obtain ⟨hopened, halloc⟩ := vmmMapPage_opened (A := pmmFrames) h.slot_ne
    h.directory_ne paddr write ring3 htable.1 htable.2 fun _ => ⟨hdvd, hlt⟩
  have hused : ∀ b, s.alloc.used b →
      (vmmMapPage k pmmFrames paddr v write ring3 s).alloc.used b := by
    intro b hb
    rw [halloc]
    split
    · exact hb
    · exact hmono b hb
  refine ⟨hopened, halloc, h.slot_ne, ?_, ?_, ?_, fun d hd hd768 hpres => ?_⟩
  · rw [hopened.directory]
    exact h.directory_ne
  · rw [hopened.directory]
    exact ⟨h.directory.1, hused _ h.directory.2⟩
  · exact ⟨h.higherHalf.1, hused _ h.higherHalf.2⟩
  · rw [hopened.directory]
    by_cases hslot : d = pageDirIndex v
    · rw [hslot, hopened.table]
      exact htable
    · unfold Vmm.table at *
      rw [hopened.slots d hslot] at hpres ⊢
      exact h.tables d hd hd768 hpres

/-- INTERNAL: a slot that names frame 0 keeps it. -/
theorem Stands.namesZero (h : Stands k s) (hv : pageDirIndex v ≠ 768) (paddr : ℕ)
    (write ring3 : Bool) (hzero : NamesZero k s) :
    NamesZero k (vmmMapPage k pmmFrames paddr v write ring3 s) := by
  obtain ⟨hopened, -, -⟩ := h.map hv paddr write ring3
  obtain ⟨d, hd, hpres, htable⟩ := hzero
  refine ⟨d, hd, ?_⟩
  by_cases hslot : d = pageDirIndex v
  · subst hslot
    refine ⟨hopened.present, hopened.table.trans ?_⟩
    rw [tableFor, if_pos (show entryPresent (s.directoryEntry k v) = true from hpres)]
    exact htable
  · unfold Vmm.table at *
    rw [hopened.slots d hslot]
    exact ⟨hpres, htable⟩

/-- INTERNAL: **no frame for a table**: the slot names frame 0. -/
theorem Stands.namesZero_of_null (h : Stands k s) (hv : pageDirIndex v ≠ 768) (paddr : ℕ)
    (write ring3 : Bool) (habsent : entryPresent (s.directoryEntry k v) = false)
    (hnull : s.alloc.allocPage.1 = 0) :
    NamesZero k (vmmMapPage k pmmFrames paddr v write ring3 s) := by
  obtain ⟨hopened, -, -⟩ := h.map hv paddr write ring3
  refine ⟨pageDirIndex v, pageDirIndex_lt v, hopened.present, hopened.table.trans ?_⟩
  rw [tableFor, habsent, if_neg Bool.false_ne_true]
  exact hnull

/-- INTERNAL: with a frame for the table, only the page of the call may be frame 0. -/
theorem ApartFromZero.map (h : ApartFromZero k s) (hv : pageDirIndex v ≠ 768) (paddr : ℕ)
    (write ring3 : Bool) (hok : entryPresent (s.directoryEntry k v) = false →
      s.alloc.allocPage.1 ≠ 0) :
    let s' := vmmMapPage k pmmFrames paddr v write ring3 s
    ApartFromZero k s' ∧ ∀ d < 1024, ∀ i, Ordinary k d i → s'.pageEntry k d i =
      if d = pageDirIndex v ∧ i = pageTableIndex v then
        mapEntry paddr write ring3 (s.pageEntry k d i)
      else s.pageEntry k d i := by
  intro s'
  obtain ⟨hwell, hread, -, htakes⟩ := vmmMapPage_entries pmmFrames h.wellMapped (.inl hv) paddr
    write ring3 fun habsent => h.canBeTable (hok habsent)
  refine ⟨⟨h.toPagingUsed.of_takes hwell htakes hok, fun hf => ?_⟩, hread⟩
  obtain ⟨-, -, hsub⟩ | ⟨habsent, -, hsub⟩ := htakes
  · exact h.zero (hsub 0 hf)
  · exact (hsub 0 hf).elim h.zero fun heq => hok habsent heq.symm

/-- INTERNAL: the two pages that the kernel works through are not frame 0. -/
theorem ApartFromZero.not_mapsZero (h : ApartFromZero k s) (hwindow : s.window k ≠ 0) {d i : ℕ}
    (hpage : ¬ Ordinary k d i) : ¬ MapsZero k s d i := by
  rintro ⟨-, hframe⟩
  obtain ⟨hd, hi⟩ := not_or.mp hpage
  obtain rfl := not_not.mp hd
  rw [pageEntry_of_slot_present h.wellMapped.higherHalf.1, h.wellMapped.higherHalf.2] at hframe
  by_cases hwin : i = windowSlot
  · rw [hwin] at hframe
    exact hwindow hframe
  · rw [not_not.mp fun hslot => hi ⟨hwin, hslot⟩] at hframe
    exact h.zero (.inl hframe.symm)

/-- INTERNAL: **with all frames**, frame 0 is left alone. -/
theorem ZeroFree.map {paddr : ℕ} (h : ZeroFree k s) (hv : pageDirIndex v ≠ 768) (hdvd : 0x1000 ∣ paddr)
    (hlt : paddr < 2 ^ 32) (hne : paddr ≠ 0) (write ring3 : Bool)
    (hok : entryPresent (s.directoryEntry k v) = false → s.alloc.allocPage.1 ≠ 0) :
    let s' := vmmMapPage k pmmFrames paddr v write ring3 s
    ZeroFree k s' ∧ LeavesFrameZero k s s' := by
  intro s'
  obtain ⟨hapart, hread⟩ := h.toApartFromZero.map hv paddr write ring3 hok
  have hstands := h.toApartFromZero.stands
  obtain ⟨hopened, -, -⟩ := hstands.map hv paddr write ring3
  have htable : tableFor pmmFrames k v s ≠ 0 := by
    rw [← hopened.table]
    exact fun heq => hapart.zero (.inr ⟨_, pageDirIndex_lt v, hopened.present, heq⟩)
  have hpages : ∀ d < 1024, ∀ i, MapsZero k s' d i → MapsZero k s d i := by
    intro d hd i hmaps
    by_cases hpage : Ordinary k d i
    · unfold MapsZero at hmaps ⊢
      rw [hread d hd i hpage] at hmaps
      split at hmaps
      · exact absurd hmaps.2 (by rw [(mapEntry_spec _ write ring3 hdvd hlt).2]; exact hne)
      · exact hmaps
    · exact absurd hmaps (hapart.not_mapsZero (by rw [hopened.window]; exact htable) hpage)
  refine ⟨⟨hapart, fun d hd hd768 i hmaps => h.page d hd hd768 i (hpages d hd i hmaps)⟩,
    fun d hd hpres hzero => ?_, hpages, ?_⟩
  · exact absurd (.inr ⟨d, hd, hpres, hzero⟩) hapart.zero
  · exact hopened.frames 0 hstands.directory.1.symm hstands.higherHalf.1.symm htable.symm

/-! ## Fresh pages -/

/-- `vmm_map_page(alloc_page(), v, write, ring3)`. -/
def mapNew (k : KernelLayout) (write ring3 : Bool) (s : Vmm Pmm) (v : ℕ) : Vmm Pmm :=
  vmmMapPage k pmmFrames s.alloc.allocPage.1 v write ring3 { s with alloc := s.alloc.allocPage.2 }

/-- The directory slots of the pages that have no table. -/
def newTables (k : KernelLayout) (s : Vmm Pmm) (vs : List ℕ) : Finset ℕ :=
  (vs.map pageDirIndex).toFinset.filter fun d => entryPresent (s.slot k d) = false

/-- The frames that mapping fresh pages takes: one for each page, and one for each table. -/
def neededFrames (k : KernelLayout) (s : Vmm Pmm) (vs : List ℕ) : ℕ :=
  vs.length + (newTables k s vs).card

/-- Some page of the list, or some page table, is frame 0. -/
def ReachesZero (k : KernelLayout) (s : Vmm Pmm) (vs : List ℕ) : Prop :=
  NamesZero k s ∨ ∃ v ∈ vs, MapsZero k s (pageDirIndex v) (pageTableIndex v)

variable {vs : List ℕ}

/-- INTERNAL: what stands, and a slot that names frame 0, for the rest of a loop. -/
theorem Stands.mapAll {write ring3 : Bool} (h : Stands k s) (hvs : ∀ v ∈ vs, OutsideWindow v)
    (hzero : NamesZero k s) : NamesZero k (vs.foldl (mapNew k write ring3) s) := by
  induction vs generalizing s with
  | nil => exact hzero
  | cons v vs ih =>
      have hv := (hvs v List.mem_cons_self).2
      refine ih (h.alloc.map hv s.alloc.allocPage.1 write ring3).2.2 (fun w hw => hvs w (List.mem_cons_of_mem v hw)) ?_
      exact h.alloc.namesZero hv s.alloc.allocPage.1 write ring3 hzero

/-- INTERNAL: a page that frame 0 is mapped to, for the rest of a loop over other pages. -/
theorem ApartFromZero.mapAll {w : ℕ} {write ring3 : Bool} (h : ApartFromZero k s)
    (hvs : ∀ v ∈ vs, OutsideWindow v) (hw : OutsideWindow w)
    (hother : w / 0x1000 ∉ vs.map (· / 0x1000))
    (hzero : MapsZero k s (pageDirIndex w) (pageTableIndex w)) :
    NamesZero k (vs.foldl (mapNew k write ring3) s) ∨
      MapsZero k (vs.foldl (mapNew k write ring3) s) (pageDirIndex w) (pageTableIndex w) := by
  induction vs generalizing s with
  | nil => exact .inr hzero
  | cons v vs ih =>
      have hv := hvs v List.mem_cons_self
      have hvs' := fun w hw => hvs w (List.mem_cons_of_mem v hw)
      rw [List.map_cons, List.mem_cons, not_or] at hother
      by_cases hnull : entryPresent (s.directoryEntry k v) = false ∧
          s.alloc.allocPage.2.allocPage.1 = 0
      · apply Or.inl
        have hstands := h.stands.alloc
        refine Stands.mapAll (s := mapNew k write ring3 s v)
          (hstands.map hv.2 s.alloc.allocPage.1 write ring3).2.2 hvs' ?_
        exact hstands.namesZero_of_null hv.2 s.alloc.allocPage.1 write ring3 hnull.1 hnull.2
      · obtain ⟨hapart, hread⟩ := h.alloc.map hv.2 s.alloc.allocPage.1 write ring3
          fun habsent heq => hnull ⟨habsent, heq⟩
        refine ih hapart hvs' hother.2 ?_
        have hentry := hread _ (pageDirIndex_lt w) (pageTableIndex w) (.inl hw.2)
        rw [if_neg fun heq => hother.1 ((page_eq_iff hv.1 hw.1).mp heq)] at hentry
        unfold MapsZero mapNew
        rw [hentry]
        exact hzero

/-- INTERNAL: the frames that are needed after one page more has a table. -/
theorem neededFrames_of_opened (k : KernelLayout) (s : Vmm Pmm) (vs : List ℕ) {s' : Vmm Pmm}
    (hslots : ∀ d, d ≠ pageDirIndex v → s'.slot k d = s.slot k d)
    (hpres : entryPresent (s'.slot k (pageDirIndex v))) :
    neededFrames k s (v :: vs) = neededFrames k s' vs + 1 +
      if entryPresent (s.directoryEntry k v) then 0 else 1 := by
  have hsame : ∀ d, d ≠ pageDirIndex v →
      (d ∈ newTables k s (v :: vs) ↔ d ∈ newTables k s' vs) := by
    intro d hd
    unfold newTables
    rw [Finset.mem_filter, Finset.mem_filter, List.mem_toFinset, List.mem_toFinset, List.map_cons,
      List.mem_cons, hslots d hd]
    tauto
  have hgone : pageDirIndex v ∉ newTables k s' vs := by
    unfold newTables
    rw [Finset.mem_filter, hpres]
    exact fun hin => Bool.noConfusion hin.2
  have hown : pageDirIndex v ∈ newTables k s (v :: vs) ↔
      entryPresent (s.directoryEntry k v) = false := by
    unfold newTables
    rw [Finset.mem_filter, List.mem_toFinset]
    exact ⟨fun hin => hin.2, fun habsent => ⟨List.mem_cons_self, habsent⟩⟩
  unfold neededFrames
  rw [List.length_cons]
  split
  next hp =>
    have heq : newTables k s (v :: vs) = newTables k s' vs := by
      ext d
      by_cases hd : d = pageDirIndex v
      · subst hd
        rw [hown, hp]
        exact iff_of_false (by simp) hgone
      · exact hsame d hd
    rw [heq]
    omega
  next hp =>
    have heq : newTables k s (v :: vs) = insert (pageDirIndex v) (newTables k s' vs) := by
      ext d
      rw [Finset.mem_insert]
      by_cases hd : d = pageDirIndex v
      · subst hd
        exact iff_of_true (hown.mpr (Bool.eq_false_iff.mpr hp)) (.inl rfl)
      · rw [hsame d hd]
        exact ⟨.inr, fun hin => hin.resolve_left hd⟩
    rw [heq, Finset.card_insert_of_notMem hgone]
    omega

/-- INTERNAL: how the frames that are needed relate to those after the first page. -/
theorem Stands.neededFrames_cons (h : Stands k s) (hv : pageDirIndex v ≠ 768) (vs : List ℕ)
    (write ring3 : Bool) :
    neededFrames k s (v :: vs) = neededFrames k (mapNew k write ring3 s v) vs +
      (if entryPresent (s.directoryEntry k v) then 0 else 1) + 1 := by
  obtain ⟨hopened, -, -⟩ := h.alloc.map hv s.alloc.allocPage.1 write ring3
  rw [Nat.add_right_comm]
  exact neededFrames_of_opened k s vs hopened.slots hopened.present

/-- INTERNAL: no frame for the page, or none for its table. -/
theorem Stands.not_supplies (h : Stands k s) (hv : pageDirIndex v ≠ 768)
    (hnull : s.alloc.allocPage.1 = 0 ∨ entryPresent (s.directoryEntry k v) = false ∧
      s.alloc.allocPage.2.allocPage.1 = 0) :
    ¬ s.alloc.Supplies (neededFrames k s (v :: vs)) := by
  rw [h.neededFrames_cons hv vs true true]
  rintro ⟨hpage, hrest⟩
  obtain hnull | ⟨habsent, hnull⟩ := hnull
  · exact hpage hnull
  · rw [habsent, if_neg Bool.false_ne_true] at hrest
    exact hrest.1 hnull

/-- INTERNAL: with frames for the page and its table, the other pages take the rest. -/
theorem Stands.supplies_cons (h : Stands k s) (hv : pageDirIndex v ≠ 768) (vs : List ℕ)
    (write ring3 : Bool) (hpage : s.alloc.allocPage.1 ≠ 0)
    (hok : entryPresent (s.directoryEntry k v) = false → s.alloc.allocPage.2.allocPage.1 ≠ 0) :
    s.alloc.Supplies (neededFrames k s (v :: vs)) ↔
      (mapNew k write ring3 s v).alloc.Supplies
        (neededFrames k (mapNew k write ring3 s v) vs) := by
  have halloc : (mapNew k write ring3 s v).alloc =
      if entryPresent (s.directoryEntry k v) then s.alloc.allocPage.2
      else s.alloc.allocPage.2.allocPage.2 :=
    (h.alloc.map hv s.alloc.allocPage.1 write ring3).2.1
  rw [h.neededFrames_cons hv vs write ring3, halloc]
  refine (and_iff_right hpage).trans ?_
  by_cases hpres : entryPresent (s.directoryEntry k v)
  · rw [if_pos hpres, if_pos hpres]
    exact Iff.rfl
  · rw [if_neg hpres, if_neg hpres]
    exact and_iff_right (hok (Bool.eq_false_iff.mpr hpres))

/-- INTERNAL: a page without a frame is mapped to frame 0. -/
theorem ApartFromZero.mapsZero (h : ApartFromZero k s) (hv : pageDirIndex v ≠ 768)
    (write ring3 : Bool)
    (hok : entryPresent (s.directoryEntry k v) = false → s.alloc.allocPage.2.allocPage.1 ≠ 0)
    (hnull : s.alloc.allocPage.1 = 0) :
    ApartFromZero k (mapNew k write ring3 s v) ∧
      MapsZero k (mapNew k write ring3 s v) (pageDirIndex v) (pageTableIndex v) := by
  obtain ⟨hapart, hread⟩ := h.alloc.map hv s.alloc.allocPage.1 write ring3 hok
  have hentry := hread _ (pageDirIndex_lt v) (pageTableIndex v) (.inl hv)
  rw [if_pos ⟨rfl, rfl⟩] at hentry
  have hspec := mapEntry_spec (s.pageEntry k (pageDirIndex v) (pageTableIndex v)) write ring3
    (allocPage_any s.alloc).1 (allocPage_any s.alloc).2.1
  refine ⟨hapart, ?_⟩
  unfold MapsZero mapNew
  rw [hentry]
  exact ⟨hspec.1, hspec.2.trans hnull⟩

/-- INTERNAL: **one fresh page**, with frames for it and for its table. -/
theorem ZeroFree.mapOne (h : ZeroFree k s) (hv : pageDirIndex v ≠ 768) (write ring3 : Bool)
    (hpage : s.alloc.allocPage.1 ≠ 0)
    (hok : entryPresent (s.directoryEntry k v) = false → s.alloc.allocPage.2.allocPage.1 ≠ 0) :
    ZeroFree k (mapNew k write ring3 s v) ∧ LeavesFrameZero k s (mapNew k write ring3 s v) := by
  have hfree : ZeroFree k { s with alloc := s.alloc.allocPage.2 } :=
    ⟨h.toApartFromZero.alloc, h.page⟩
  obtain ⟨hdvd, hlt, -, -⟩ := allocPage_any s.alloc
  obtain ⟨hfree', hleaves⟩ := hfree.map hv hdvd hlt hpage write ring3 hok
  exact ⟨hfree', hleaves.table, hleaves.page, hleaves.memory⟩

/-- INTERNAL: **a loop over fresh pages** either finds all the frames it needs, and leaves
frame 0 alone, or makes frame 0 one of its pages or tables.
SRCLINE: umm.c:42-47 -/
theorem ZeroFree.mapAll (h : ZeroFree k s) (hvs : ∀ v ∈ vs, OutsideWindow v)
    (hnodup : (vs.map (· / 0x1000)).Nodup) (write ring3 : Bool) :
    let s' := vs.foldl (mapNew k write ring3) s
    s.alloc.Supplies (neededFrames k s vs) ∧ ZeroFree k s' ∧ LeavesFrameZero k s s' ∨
      ¬ s.alloc.Supplies (neededFrames k s vs) ∧ ReachesZero k s' vs := by
  induction vs generalizing s with
  | nil => exact .inl ⟨trivial, h, .refl k s⟩
  | cons v vs ih =>
      intro s'
      have hv := hvs v List.mem_cons_self
      have hvs' := fun w hw => hvs w (List.mem_cons_of_mem v hw)
      rw [List.map_cons, List.nodup_cons] at hnodup
      have hstands := h.stands
      by_cases hnull : entryPresent (s.directoryEntry k v) = false ∧
          s.alloc.allocPage.2.allocPage.1 = 0
      · -- no frame for the table
        refine .inr ⟨hstands.not_supplies hv.2 (.inr hnull), .inl ?_⟩
        exact (hstands.alloc.map hv.2 s.alloc.allocPage.1 write ring3).2.2.mapAll hvs'
          (hstands.alloc.namesZero_of_null hv.2 s.alloc.allocPage.1 write ring3 hnull.1 hnull.2)
      · have hok : entryPresent (s.directoryEntry k v) = false →
            s.alloc.allocPage.2.allocPage.1 ≠ 0 := fun habsent heq => hnull ⟨habsent, heq⟩
        by_cases hpage : s.alloc.allocPage.1 = 0
        · -- no frame for the page
          obtain ⟨hapart, hzero⟩ := h.toApartFromZero.mapsZero hv.2 write ring3 hok hpage
          refine .inr ⟨hstands.not_supplies hv.2 (.inl hpage), ?_⟩
          exact (hapart.mapAll hvs' hv hnodup.1 hzero).imp_right
            fun hmaps => ⟨v, List.mem_cons_self, hmaps⟩
        · obtain ⟨hfree, hleaves⟩ := h.mapOne hv.2 write ring3 hpage hok
          have hsupplies := hstands.supplies_cons hv.2 vs write ring3 hpage hok
          obtain ⟨hrest, hfree', hleaves'⟩ | ⟨hrest, hreaches⟩ := ih hfree hvs' hnodup.2
          · exact .inl ⟨hsupplies.mpr hrest, hfree', hleaves.trans hleaves'⟩
          · refine .inr ⟨fun hall => hrest (hsupplies.mp hall), hreaches.imp_right ?_⟩
            rintro ⟨w, hw, hmaps⟩
            exact ⟨w, List.mem_cons_of_mem v hw, hmaps⟩

/-- INTERNAL: frame 0 in a page or a table is a new entry for it. -/
theorem ZeroFree.not_leaves {s' : Vmm Pmm} (h : ZeroFree k s) (hvs : ∀ v ∈ vs, OutsideWindow v)
    (hreaches : ReachesZero k s' vs) : ¬ LeavesFrameZero k s s' := by
  intro hleaves
  obtain ⟨d, hd, hpres, htable⟩ | ⟨v, hv, hmaps⟩ := hreaches
  · obtain ⟨hpres', htable'⟩ := hleaves.table d hd hpres htable
    exact h.zero (.inr ⟨d, hd, hpres', htable'⟩)
  · exact h.page _ (pageDirIndex_lt v) (hvs v hv).2 _ (hleaves.page _ (pageDirIndex_lt v) _ hmaps)

/-! ## The calls -/

/-- A call that maps pages: `valloc_page`, `vmm_map_page`, or `umap_pages`. -/
inductive FrameCall where
  | vallocPage (vaddr : ℕ)
  | vmmMapPage (paddr vaddr : ℕ) (write ring3 : Bool)
  | umapPages (vaddr len prot flags : ℕ) (blocks : List UmmBlock)

namespace FrameCall

variable (k : KernelLayout)

def run : FrameCall → Vmm Pmm → Vmm Pmm
  | .vallocPage v, s => (Model.vallocPage k v s).2
  | .vmmMapPage paddr v write ring3, s =>
      Vmm.vmmMapPage k pmmFrames paddr v write ring3 s
  | .umapPages v len prot flags blocks, s =>
      (Model.umapPages (pageOps k pmmFrames) v len prot flags blocks s).2

/-- The pages that a call maps to new frames. -/
def newPages (s : Vmm Pmm) : FrameCall → List ℕ
  | .vallocPage v => [if v ≠ 0 then v else s.alloc.allocPage.1]
  | .vmmMapPage .. => []
  | .umapPages v len _ _ _ => pageRange v (add32 v len)

/-- How often a call calls `alloc_page`: once for each new page, and once for each page
table that is missing. -/
def allocCalls (s : Vmm Pmm) : FrameCall → ℕ
  | .vmmMapPage _ v _ _ => if entryPresent (s.directoryEntry k v) then 0 else 1
  | call => neededFrames k s (call.newPages s)

/-- The pages lie outside the region of the window, and a frame that the caller gives is a
page that is not frame 0. -/
def Valid : FrameCall → Vmm Pmm → Prop
  | .vmmMapPage paddr v _ _, _ =>
      OutsideWindow v ∧ 0x1000 ∣ paddr ∧ paddr ≠ 0 ∧ paddr < 2 ^ 32
  | call, s => ∀ v ∈ call.newPages s, OutsideWindow v

/-- Frame 0 is left alone. -/
def LeavesZero (call : FrameCall) (s : Vmm Pmm) : Prop :=
  LeavesFrameZero k s (call.run k s)

/-- `alloc_page` finds a frame whenever the call asks for one. -/
def Supplied (call : FrameCall) (s : Vmm Pmm) : Prop :=
  s.alloc.Supplies (call.allocCalls k s)

end FrameCall

section

variable {k : KernelLayout} {s : Vmm Pmm}

/-- INTERNAL: new pages, whatever the call. -/
theorem ZeroFree.newPages {vs : List ℕ} (h : ZeroFree k s)
    (hvs : ∀ v ∈ vs, OutsideWindow v) (hnodup : (vs.map (· / 0x1000)).Nodup)
    (write ring3 : Bool) :
    let s' := vs.foldl (mapNew k write ring3) s
    (LeavesFrameZero k s s' ↔
      s.alloc.Supplies (neededFrames k s vs)) ∧
    (s.alloc.Supplies (neededFrames k s vs) → ZeroFree k s') := by
  obtain ⟨hall, hfree, hleaves⟩ | ⟨hnone, hreaches⟩ :=
    h.mapAll hvs hnodup write ring3
  · exact ⟨iff_of_true hleaves hall, fun _ => hfree⟩
  · exact ⟨iff_of_false (h.not_leaves hvs hreaches) hnone, fun hall => absurd hall hnone⟩

/-- INTERNAL: **one call** leaves frame 0 alone exactly if it finds all its frames. -/
theorem FrameCall.leavesZero_iff {call : FrameCall} (h : ZeroFree k s)
    (hvalid : call.Valid s) :
    (call.LeavesZero k s ↔ call.Supplied k s) ∧
    (call.Supplied k s → ZeroFree k (call.run k s)) := by
  cases call with
  | vallocPage v =>
      exact h.newPages hvalid (List.nodup_singleton _) true false
  | umapPages v len prot flags blocks =>
      exact h.newPages hvalid (pageRange_nodup v (add32 v len)) (hasFlag prot ummBlockProtWrite)
        true
  | vmmMapPage paddr v write ring3 =>
      obtain ⟨hv, hdvd, hne, hlt⟩ := hvalid
      show (LeavesFrameZero k s _ ↔
        s.alloc.Supplies (if entryPresent (s.directoryEntry k v) then 0 else 1)) ∧
        (s.alloc.Supplies (if entryPresent (s.directoryEntry k v) then 0 else 1) →
          ZeroFree k _)
      by_cases hok : entryPresent (s.directoryEntry k v) = false →
          s.alloc.allocPage.1 ≠ 0
      · obtain ⟨hfree, hleaves⟩ := h.map hv.2 hdvd hlt hne write ring3 hok
        refine ⟨iff_of_true hleaves ?_, fun _ => hfree⟩
        split
        next => trivial
        next habsent => exact ⟨hok (Bool.eq_false_iff.mpr habsent), trivial⟩
      · -- no frame for the table
        obtain ⟨habsent, hnull⟩ := Classical.not_imp.mp hok
        rw [not_not] at hnull
        have hnone : ¬ s.alloc.Supplies 1 := fun hall => hall.1 hnull
        have hzero := h.toApartFromZero.stands.namesZero_of_null hv.2 paddr write ring3
          habsent hnull
        rw [habsent, if_neg Bool.false_ne_true]
        exact ⟨iff_of_false (h.not_leaves (List.forall_mem_nil _) (.inl hzero)) hnone,
          fun hall => absurd hall hnone⟩

/-- **Mapping without a free frame.**  In a run of calls from a state in which frame 0 is
neither a page table nor mapped, every call leaves frame 0 alone exactly if `alloc_page`
finds a frame whenever a call asks for one.
SRCLINE: vmm.c:70-118, 151-154, umm.c:42-48 -/
theorem frame_zero_left_alone_iff {calls : List FrameCall} (h : ZeroFree k s)
    (hvalid : EachCall (FrameCall.run k) FrameCall.Valid calls s) :
    EachCall (FrameCall.run k) (FrameCall.LeavesZero k) calls s ↔
      EachCall (FrameCall.run k) (FrameCall.Supplied k) calls s := by
  induction calls generalizing s with
  | nil => exact Iff.rfl
  | cons call calls ih =>
      obtain ⟨hcall, hkeeps⟩ := FrameCall.leavesZero_iff h hvalid.1
      refine (and_congr_left' hcall).trans (and_congr_right fun hsupplied => ?_)
      exact ih (hkeeps hsupplied) hvalid.2

end

theorem nestedProcess_zeroFree : ZeroFree twoFrames nestedProcess.vmm := by
  have hstart := nestedProcess_startsEmpty
  refine ⟨⟨nestedProcess_started.1, fun hzero => ?_⟩, fun d hd hd768 i hmaps => ?_⟩
  · exact absurd (nestedProcess_paging 0 hzero) (by decide)
  · rw [MapsZero, pageEntry_of_slot_absent (hstart.empty d hd hd768)] at hmaps
    exact absurd hmaps.1 (by decide)

/-- INTERNAL: a page of user memory. -/
theorem onePage_valid (s : Vmm Pmm) :
    FrameCall.Valid (.umapPages 0x400000 0x1000 3 0 []) s := by
  show ∀ v ∈ pageRange 0x400000 (add32 0x400000 0x1000), OutsideWindow v
  rw [show pageRange 0x400000 (add32 0x400000 0x1000) = [0x400000] by decide,
    List.forall_mem_singleton]
  exact ⟨by decide, by decide⟩

/-- A page of the kernel heap, and then a page of user memory. -/
theorem frame_zero_left_alone_iff_nested :
    EachCall (FrameCall.run twoFrames) (FrameCall.LeavesZero twoFrames)
        [.vallocPage 0xD0000000, .umapPages 0x400000 0x1000 3 0 []] nestedProcess.vmm ↔
      EachCall (FrameCall.run twoFrames) (FrameCall.Supplied twoFrames)
        [.vallocPage 0xD0000000, .umapPages 0x400000 0x1000 3 0 []] nestedProcess.vmm := by
  refine frame_zero_left_alone_iff nestedProcess_zeroFree ⟨?_, onePage_valid _, trivial⟩
  simp [FrameCall.Valid, FrameCall.newPages, OutsideWindow, pageDirIndex]

/-- All blocks are used. -/
def noFreeBlocks : Pmm where
  bitmap := fun _ => 0xFF
  bitmapLen := 16
  lastFreedBlock := 0
  bitmapLen_lt := elevenFreeBlocks.bitmapLen_lt

theorem noFreeBlocks_null : noFreeBlocks.allocPage.1 = 0 := by
  decide +kernel

theorem fullProcess_zeroFree :
    ZeroFree twoFrames { nestedProcess.vmm with alloc := noFreeBlocks } := by
  have hzero := nestedProcess_zeroFree
  refine ⟨⟨⟨hzero.wellMapped.congr rfl (fun _ => rfl) fun _ => rfl, fun f hf => ?_⟩, hzero.zero⟩,
    hzero.page⟩
  obtain rfl | rfl := nestedProcess_paging f hf
  · decide +kernel
  · decide +kernel

/-- Without a free block the page table of a page of user memory is frame 0. -/
theorem umap_pages_uses_frame_zero :
    ¬ FrameCall.LeavesZero twoFrames (.umapPages 0x400000 0x1000 3 0 [])
      { nestedProcess.vmm with alloc := noFreeBlocks } := by
  rw [(FrameCall.leavesZero_iff fullProcess_zeroFree (onePage_valid _)).1]
  exact fun hsupplied => hsupplied.1 noFreeBlocks_null

end LakeOS.Analysis
