import LakeOS.Analysis.FrameKeeping
import LakeOS.Model.Exe

/-!
# Address spaces

A process has its own page directory, and the kernel edits the one behind
`curr_page_directory`.  `KernelOk` says what holds of the directory that is shown: its
page tables are in order, and the tables of `kernel_page_directory` are among them.  It
is kept by `valloc_page`, which moves neither.

`new_process` shows the directory it loads into `cr3`; `exit_process` loads another one
and shows none (`edited_directory_is_active`).
-/

set_option autoImplicit false

namespace LakeOS.Analysis

open LakeOS.Library LakeOS.Model Vmm

section

variable {α : Type} {A : FrameAllocator α} {k : KernelLayout} {s : Vmm α} {v : ℕ}

/-! ## What mapping and unmapping leave alone -/

/-- INTERNAL: a slot that is absent gets a cleared table. -/
theorem openTable_absent (habsent : entryPresent (s.directoryEntry k v) = false) :
    let s₁ : Vmm α := { s with alloc := (A.allocPage s.alloc).2 }.mapWindow k
      (A.allocPage s.alloc).1
    let s₂ : Vmm α := { s₁ with phys := s₁.phys.clear (s₁.window k) }
    s.openTable k A v false =
      s₂.setDirectoryEntry k v (tableEntry (s₂.directoryEntry k v) (s₂.window k)) := by
  unfold openTable
  simp only [Bool.false_eq_true, if_false, habsent, Bool.not_false, if_true]
  rfl

/-- INTERNAL: a table that is taken for a page leaves the directory shown, the other slots and
all frames that the directory does not name. -/
theorem openTable_absent_frame (h : WellMapped k s)
    (hpres : entryPresent (s.directoryEntry k v) = false)
    (hnew : CanBeTable k s (A.allocPage s.alloc).1) :
    let s' := s.openTable k A v false
    s'.directory k = s.directory k ∧ s'.window k = (A.allocPage s.alloc).1 ∧
      (∀ d, d ≠ pageDirIndex v → s'.slot k d = s.slot k d) ∧
      ∀ f, ¬ IsPaging k s f → f ≠ (A.allocPage s.alloc).1 → s'.phys f = s.phys f := by
  obtain ⟨hne, hmod, hlt, hfresh⟩ := hnew
  have hdir := h.directory_ne
  have hhalf : (A.allocPage s.alloc).1 ≠ k.higherHalf :=
    fun heq => hfresh (heq ▸ h.isPaging_higherHalf)
  have hpdir : (A.allocPage s.alloc).1 ≠ s.directory k := fun heq => hfresh (.inl heq)
  have hopen := openTable_absent (A := A) hpres
  dsimp only at hopen
  generalize hs₁ : ({ s with alloc := (A.allocPage s.alloc).2 } : Vmm α).mapWindow k
    (A.allocPage s.alloc).1 = s₁ at hopen
  have hwin₁ : s₁.window k = (A.allocPage s.alloc).1 := by
    rw [← hs₁]
    exact window_mapWindow (Nat.dvd_of_mod_eq_zero hmod) hlt
  have hphys₁ : ∀ f, f ≠ k.higherHalf → s₁.phys f = s.phys f := by
    intro f hf
    funext i
    rw [← hs₁, mapWindow_phys_of_ne (.inl hf)]
  have hdir₁ : s₁.directory k = s.directory k := by
    rw [← hs₁, directory_mapWindow h.slot_ne]
    rfl
  rw [hwin₁] at hopen
  generalize hs₂ : ({ s₁ with phys := s₁.phys.clear (A.allocPage s.alloc).1 } : Vmm α) = s₂
    at hopen
  have hphys₂ : ∀ f, f ≠ (A.allocPage s.alloc).1 → s₂.phys f = s₁.phys f := by
    intro f hf
    funext i
    rw [← hs₂]
    exact PhysMemory.clear_of_ne _ _ hf
  have hdir₂ : s₂.directory k = s.directory k := by
    rw [← hdir₁]
    unfold directory
    rw [hphys₂ _ hhalf.symm]
  have hwin₂ : s₂.window k = (A.allocPage s.alloc).1 := by
    rw [← hwin₁]
    unfold window
    rw [hphys₂ _ hhalf.symm]
  generalize tableEntry (s₂.directoryEntry k v) (s₂.window k) = e at hopen
  intro s'
  have hs' : s' = _ := hopen
  rw [hs']
  refine ⟨?_, ?_, fun d hd => ?_, fun f hf hfp => ?_⟩
  · rw [directory_setDirectoryEntry (by rw [hdir₂]; exact hdir), hdir₂]
  · rw [window, setDirectoryEntry_phys_of_ne (by rw [hdir₂]; exact hdir.symm)]
    exact hwin₂
  · rw [slot_setDirectoryEntry (by rw [hdir₂]; exact hdir), if_neg hd]
    unfold slot
    rw [hdir₂, hphys₂ _ hpdir.symm, hphys₁ _ hdir]
  · have hfhalf : f ≠ k.higherHalf := by
      rintro rfl
      exact hf h.isPaging_higherHalf
    have hfdir : f ≠ s.directory k := fun heq => hf (.inl heq)
    funext i
    rw [setDirectoryEntry_phys_of_ne (by rw [hdir₂]; exact hfdir), hphys₂ f hfp,
      hphys₁ f hfhalf]

/-- INTERNAL: a page that is mapped for the kernel leaves the directory shown, the slots
with a table and all frames but those of the page tables. -/
theorem vmmMapPage_frame (h : WellMapped k s) (hv : pageDirIndex v ≠ 768) (paddr : ℕ)
    (hnew : entryPresent (s.directoryEntry k v) = false →
      CanBeTable k s (A.allocPage s.alloc).1) :
    let s' := vmmMapPage k A paddr v true false s
    s'.directory k = s.directory k ∧
      (∀ d, d ≠ pageDirIndex v ∨ entryPresent (s.slot k d) → s'.slot k d = s.slot k d) ∧
      ∀ f, ¬ IsPaging k s f →
        (entryPresent (s.directoryEntry k v) = false → f ≠ (A.allocPage s.alloc).1) →
        s'.phys f = s.phys f := by
  intro s'
  -- the last write is to the table in the window
  have hphys' : ∀ f, f ≠ (s.openTable k A v false).window k →
      s'.phys f = (s.openTable k A v false).phys f := by
    intro f hf
    funext i
    exact setWindowEntry_phys_of_ne (.inl hf)
  have hslots' (hhalf : (s.openTable k A v false).window k ≠ k.higherHalf) :
      s'.directory k = (s.openTable k A v false).directory k :=
    directory_setWindowEntry (.inl hhalf)
  by_cases hpres : entryPresent (s.directoryEntry k v)
  · have hopen : s.openTable k A v false = _ := openTable_present A hpres
    have hwin : (s.openTable k A v false).window k = s.table k (pageDirIndex v) := by
      rw [hopen]
      exact window_mapWindow_entry _
    have htable : s.table k (pageDirIndex v) ≠ k.higherHalf :=
      h.table_ne_higherHalf (pageDirIndex_lt v) hv hpres
    have htdir : s.table k (pageDirIndex v) ≠ s.directory k :=
      h.table_ne _ (pageDirIndex_lt v) hpres
    have hphys : ∀ f, f ≠ k.higherHalf → f ≠ s.table k (pageDirIndex v) →
        s'.phys f = s.phys f := by
      intro f hf hft
      rw [hphys' f (by rw [hwin]; exact hft), hopen]
      funext i
      exact mapWindow_phys_of_ne (.inl hf)
    have hslots : s'.directory k = s.directory k := by
      rw [hslots' (by rw [hwin]; exact htable), hopen, directory_mapWindow h.slot_ne]
    refine ⟨hslots, fun d _ => ?_, fun f hf _ => ?_⟩
    · unfold slot
      rw [hslots, hphys _ h.directory_ne htdir.symm]
    · apply hphys
      · rintro rfl
        exact hf h.isPaging_higherHalf
      · rintro rfl
        exact hf (.inr ⟨_, pageDirIndex_lt v, hpres, rfl⟩)
  · rw [Bool.not_eq_true] at hpres
    have hfresh : ¬ IsPaging k s (A.allocPage s.alloc).1 := (hnew hpres).2.2.2
    obtain ⟨hdir₃, hwin₃, hslot₃, hphys₃⟩ := openTable_absent_frame h hpres (hnew hpres)
    have hslots : s'.directory k = s.directory k := by
      rw [hslots' ?_, hdir₃]
      rw [hwin₃]
      exact fun heq => hfresh (heq ▸ h.isPaging_higherHalf)
    refine ⟨hslots, fun d hd => ?_, fun f hf hfp => ?_⟩
    · have hne : d ≠ pageDirIndex v := by
        rintro rfl
        exact Bool.false_ne_true (hpres.symm.trans (hd.resolve_left (not_not.mpr rfl)))
      rw [← hslot₃ d hne]
      unfold slot
      rw [hslots, hdir₃, hphys' _ ?_]
      rw [hwin₃]
      exact fun heq => hfresh (.inl heq.symm)
    · rw [hphys' f (by rw [hwin₃]; exact hfp hpres), hphys₃ f hf (hfp hpres)]

/-- INTERNAL: so for the page that is unmapped. -/
theorem vmmUnmapPage_frame (h : WellMapped k s) (hv : pageDirIndex v ≠ 768)
    (hpres : entryPresent (s.slot k (pageDirIndex v))) :
    let s' := vmmUnmapPage k A v s
    s'.directory k = s.directory k ∧
      (∀ d, d ≠ pageDirIndex v → s'.slot k d = s.slot k d) ∧
      ∀ f, ¬ IsPaging k s f → s'.phys f = s.phys f := by
  intro s'
  have hdir := h.directory_ne
  have htable : s.table k (pageDirIndex v) ≠ k.higherHalf :=
    h.table_ne_higherHalf (pageDirIndex_lt v) hv hpres
  have htdir : s.table k (pageDirIndex v) ≠ s.directory k := h.table_ne _ (pageDirIndex_lt v) hpres
  generalize hs₁ : s.mapWindow k (entryFrame (s.directoryEntry k v)) = s₁
  have hwin₁ : s₁.window k = s.table k (pageDirIndex v) := by
    rw [← hs₁]
    exact window_mapWindow_entry _
  have hdir₁ : s₁.directory k = s.directory k := by
    rw [← hs₁, directory_mapWindow h.slot_ne]
  generalize hs₂ : s₁.setWindowEntry k (pageTableIndex v) (entryDelAttribute
    (s₁.windowEntry k (pageTableIndex v)) pageStructEntryPresent) = s₂
  have hdir₂ : s₂.directory k = s.directory k := by
    rw [← hs₂, directory_setWindowEntry (.inl (by rw [hwin₁]; exact htable)), hdir₁]
  have hphys₂ : ∀ f, f ≠ k.higherHalf → f ≠ s.table k (pageDirIndex v) →
      s₂.phys f = s.phys f := by
    intro f hf hft
    funext i
    rw [← hs₂, setWindowEntry_phys_of_ne (.inl (by rw [hwin₁]; exact hft)), ← hs₁,
      mapWindow_phys_of_ne (.inl hf)]
  have hout : ∀ f, ¬ IsPaging k s f → f ≠ k.higherHalf ∧ f ≠ s.table k (pageDirIndex v) ∧
      f ≠ s.directory k := by
    intro f hf
    refine ⟨?_, ?_, fun heq => hf (.inl heq)⟩
    · rintro rfl
      exact hf h.isPaging_higherHalf
    · rintro rfl
      exact hf (.inr ⟨_, pageDirIndex_lt v, hpres, rfl⟩)
  have hs' : s' = if (List.range 1024).any fun i => entryPresent (s₂.windowEntry k i) then s₂
      else ({ s₂ with alloc := A.freePage (entryFrame (s₂.directoryEntry k v)) s₂.alloc } :
        Vmm α).setDirectoryEntry k v
          (entryDelAttribute (s₂.directoryEntry k v) pageStructEntryPresent) := by
    rw [← hs₂, ← hs₁]
    rfl
  rw [hs']
  split
  next =>
    refine ⟨hdir₂, fun d _ => ?_, fun f hf => ?_⟩
    · unfold slot
      rw [hdir₂, hphys₂ _ hdir htdir.symm]
    · exact hphys₂ f (hout f hf).1 (hout f hf).2.1
  next =>
    have hdir₃ : ({ s₂ with alloc := A.freePage (entryFrame (s₂.directoryEntry k v)) s₂.alloc } :
        Vmm α).directory k = s.directory k := hdir₂
    refine ⟨?_, fun d hd => ?_, fun f hf => ?_⟩
    · rw [directory_setDirectoryEntry (by rw [hdir₃]; exact hdir), hdir₃]
    · rw [slot_setDirectoryEntry (by rw [hdir₃]; exact hdir), if_neg hd]
      unfold slot
      rw [hdir₃, hphys₂ _ hdir htdir.symm]
    · funext i
      rw [setDirectoryEntry_phys_of_ne (by rw [hdir₃]; exact (hout f hf).2.2)]
      exact congrFun (hphys₂ f (hout f hf).1 (hout f hf).2.1) i

/-- INTERNAL: through the directory that is shown an address is translated by its entry. -/
theorem walk_directory (s : Vmm α) (v : ℕ) :
    walk s.phys (s.directory k) v =
      if entryPresent (s.pageEntry k (pageDirIndex v) (pageTableIndex v)) then
        some (entryFrame (s.pageEntry k (pageDirIndex v) (pageTableIndex v)))
      else none := by
  unfold walk
  by_cases hpres : entryPresent (s.slot k (pageDirIndex v))
  · have hslot : entryPresent (s.phys (s.directory k) (pageDirIndex v)) = true := hpres
    rw [pageEntry_of_slot_present hpres]
    simp only [hslot, Bool.not_true, Bool.false_eq_true, if_false]
    by_cases hpte : entryPresent (s.phys (s.table k (pageDirIndex v)) (pageTableIndex v))
    · have hpte' : entryPresent (s.phys (entryFrame (s.phys (s.directory k) (pageDirIndex v)))
          (pageTableIndex v)) = true := hpte
      rw [if_pos hpte]
      simp only [hpte', Bool.not_true, Bool.false_eq_true, if_false]
      rfl
    · rw [Bool.not_eq_true] at hpte
      have hpte' : entryPresent (s.phys (entryFrame (s.phys (s.directory k) (pageDirIndex v)))
          (pageTableIndex v)) = false := hpte
      rw [hpte]
      simp only [hpte', Bool.not_false, if_true, Bool.false_eq_true, if_false]
  · rw [Bool.not_eq_true] at hpres
    have hslot : entryPresent (s.phys (s.directory k) (pageDirIndex v)) = false := hpres
    rw [pageEntry_of_slot_absent hpres]
    simp only [hslot, Bool.not_false, if_true]
    rfl

/-- INTERNAL: a frame that is no page table can be written. -/
theorem write_spec (h : WellMapped k s) {f : ℕ} (hf : ¬ IsPaging k s f) (words : ℕ → BitVec 32) :
    let s' : Vmm α := { s with phys := Function.update s.phys f words }
    WellMapped k s' ∧ (∀ g, IsPaging k s' g ↔ IsPaging k s g) ∧
      s'.directory k = s.directory k ∧ (∀ d, s'.slot k d = s.slot k d) ∧
      ∀ d < 1024, ∀ i, s'.pageEntry k d i = s.pageEntry k d i := by
  intro s'
  have hphys : ∀ g, IsPaging k s g → s'.phys g = s.phys g := by
    intro g hg
    apply Function.update_of_ne
    rintro rfl
    exact hf hg
  have hdir : s'.directory k = s.directory k := by
    unfold directory
    rw [hphys _ h.isPaging_higherHalf]
  have hslot : ∀ d, s'.slot k d = s.slot k d := by
    intro d
    unfold slot
    rw [hdir, hphys _ (.inl rfl)]
  have htable : ∀ d, s'.table k d = s.table k d := fun d => by rw [table, hslot, table]
  refine ⟨h.congr hdir (fun d => by rw [hslot]) htable,
    isPaging_congr hdir (fun d => by rw [hslot]) htable, hdir, hslot, fun d hd i => ?_⟩
  unfold pageEntry
  rw [hslot, htable]
  split
  next hpres => rw [hphys _ (.inr ⟨d, hd, hpres, rfl⟩)]
  next => rfl

end

/-! ## The directory that is shown -/

section

variable {k : KernelLayout} {s : Vmm Pmm} {v : ℕ}

/-- From `s` to `s'` the directory that is shown keeps its kernel slots, and the frames that
are kept for other use keep their words. -/
structure KeepsOthers (k : KernelLayout) (s s' : Vmm Pmm) : Prop where
  directory : s'.directory k = s.directory k
  slots : ∀ d, 768 ≤ d → d < 1024 → s'.slot k d = s.slot k d
  words : ∀ f, Keeps k (f / 0x1000) s →
    Keeps k (f / 0x1000) s' ∧ s'.phys f = s.phys f

theorem KeepsOthers.trans {s' s'' : Vmm Pmm} (h : KeepsOthers k s s')
    (h' : KeepsOthers k s' s'') : KeepsOthers k s s'' where
  directory := h'.directory.trans h.directory
  slots d hd hd' := (h'.slots d hd hd').trans (h.slots d hd hd')
  words f hf :=
    ⟨(h'.words f (h.words f hf).1).1, (h'.words f (h.words f hf).1).2.trans (h.words f hf).2⟩

/-- INTERNAL: what `valloc_page` leaves alone, if it makes no page table of the kernel
half. -/
theorem PagingUsed.valloc_keepsOthers (h : PagingUsed k s) (hv : pageDirIndex v ≠ 768)
    (hshared : pageDirIndex v < 768 ∨ entryPresent (s.slot k (pageDirIndex v)))
    {n : ℕ} (hn : s.alloc.Supplies (n + 2)) :
    KeepsOthers k s (vmmMapPage k pmmFrames s.alloc.allocPage.1 v true false
      { s with alloc := s.alloc.allocPage.2 }) := by
  obtain ⟨hmod, hlt, -, -⟩ := Pmm.allocPage_spec hn.1
  have h₀ := h.allocPage hn.1
  obtain ⟨hdir, hslots, hphys⟩ := vmmMapPage_frame (A := pmmFrames) h₀.wellMapped hv
    s.alloc.allocPage.1 (fun _ => h₀.toPagingUsed.canBeTable hn.2.1)
  refine ⟨hdir, fun d hd hd' => hslots d ?_, fun f hf => ?_⟩
  · by_cases hne : d = pageDirIndex v
    · subst hne
      exact .inr (hshared.resolve_left (by omega))
    · exact .inl hne
  · have hf₀ := hf.allocPage hn.1
    refine ⟨(hf₀.vmmMapPage hv hmod hlt true false hn.2).1, ?_⟩
    refine hphys f (fun hpaging => hf₀.apart f hpaging rfl) fun _ heq => ?_
    have hfree := (Pmm.allocPage_spec hn.2.1).2.2.1
    exact hfree (heq ▸ hf₀.kept)

/-- INTERNAL: mapping a page frees no block. -/
theorem vmmMapPage_used (h : PagingUsed k s) (hv : pageDirIndex v ≠ 768) {paddr : ℕ}
    (hmod : 0x1000 ∣ paddr) (hlt : paddr < 2 ^ 32) (hn : s.alloc.allocPage.1 ≠ 0) :
    ∀ b, s.alloc.used b →
      (vmmMapPage k pmmFrames paddr v true false s).alloc.used b := by
  intro b hb
  obtain ⟨-, -, htakes⟩ := vmmMapPage_spec pmmFrames h.wellMapped hv hmod hlt true false
    fun _ => h.canBeTable hn
  obtain ⟨-, halloc, -⟩ | ⟨-, halloc, -⟩ := htakes
  · rw [halloc]
    exact hb
  · rw [halloc]
    exact ((Pmm.allocPage_spec hn).2.2.2 b).mpr (.inr hb)

/-- INTERNAL: what `valloc_page` keeps. -/
theorem PagingUsed.valloc (h : PagingUsed k s) (hv : pageDirIndex v ≠ 768) {n : ℕ}
    (hn : s.alloc.Supplies (n + 2)) :
    let s' := vmmMapPage k pmmFrames s.alloc.allocPage.1 v true false
      { s with alloc := s.alloc.allocPage.2 }
    PagingUsed k s' ∧ s'.directory k = s.directory k ∧ s'.alloc.Supplies n := by
  intro s'
  obtain ⟨hmod, hlt, -, -⟩ := Pmm.allocPage_spec hn.1
  have h₀ := h.allocPage hn.1
  obtain ⟨hkeep, hsupplies⟩ := h₀.vmmMapPage hv hmod hlt true false hn.2
  obtain ⟨hdir, -, -⟩ := vmmMapPage_frame (A := pmmFrames) h₀.wellMapped hv
    s.alloc.allocPage.1 (fun _ => h₀.toPagingUsed.canBeTable hn.2.1)
  exact ⟨hkeep.toPagingUsed, hdir, hsupplies⟩

/-- An address whose page `valloc_page` can be asked for. -/
def PlainAddress (v : ℕ) : Prop := v ≠ 0 ∧ pageDirIndex v ≠ 768

theorem PagingUsed.heapFaults (addrs : List ℕ) (haddrs : ∀ v ∈ addrs, PlainAddress v)
    (h : PagingUsed k s) {n : ℕ} (hn : s.alloc.Supplies (2 * addrs.length + n)) :
    PagingUsed k (heapFaults k addrs s) ∧
      (Model.heapFaults k addrs s).directory k = s.directory k ∧
      (Model.heapFaults k addrs s).alloc.Supplies n := by
  induction addrs generalizing s with
  | nil =>
      refine ⟨h, rfl, ?_⟩
      show s.alloc.Supplies n
      simpa using hn
  | cons v addrs ih =>
      obtain ⟨hne, hv⟩ := haddrs v List.mem_cons_self
      have hn' : s.alloc.Supplies (2 * addrs.length + n + 2) := by
        rw [List.length_cons] at hn
        rwa [show 2 * (addrs.length + 1) + n = 2 * addrs.length + n + 2 by omega] at hn
      obtain ⟨h', hdir, hsupplies⟩ := h.valloc hv hn'
      have hstep : Model.heapFaults k (v :: addrs) s = Model.heapFaults k addrs
          (vmmMapPage k pmmFrames s.alloc.allocPage.1 v true false
            { s with alloc := s.alloc.allocPage.2 }) := by
        simp only [Model.heapFaults, List.foldl_cons, vallocPage, if_pos hne]
      obtain ⟨hok, hdir', hrest⟩ :=
        ih (fun w hw => haddrs w (List.mem_cons_of_mem v hw)) h' hsupplies
      rw [hstep]
      exact ⟨hok, hdir'.trans hdir, hrest⟩

/-- The page table of the address is one of the user half, or the directory that is shown
names it. -/
def SharedAddress (k : KernelLayout) (s : Vmm Pmm) (v : ℕ) : Prop :=
  pageDirIndex v < 768 ∨ entryPresent (s.slot k (pageDirIndex v))

theorem SharedAddress.keeps {s' : Vmm Pmm} (hv : SharedAddress k s v)
    (h : KeepsOthers k s s') : SharedAddress k s' v := by
  by_cases huser : pageDirIndex v < 768
  · exact .inl huser
  · refine .inr ?_
    rw [h.slots _ (by omega) (pageDirIndex_lt v)]
    exact hv.resolve_left huser

theorem heapFaults_keepsOthers (addrs : List ℕ) (haddrs : ∀ v ∈ addrs, PlainAddress v)
    (h : PagingUsed k s) (hshared : ∀ v ∈ addrs, SharedAddress k s v) {n : ℕ}
    (hn : s.alloc.Supplies (2 * addrs.length + n)) :
    KeepsOthers k s (Model.heapFaults k addrs s) := by
  induction addrs generalizing s with
  | nil => exact ⟨rfl, fun _ _ _ => rfl, fun _ hf => ⟨hf, rfl⟩⟩
  | cons v addrs ih =>
      obtain ⟨hne, hv⟩ := haddrs v List.mem_cons_self
      have hn' : s.alloc.Supplies (2 * addrs.length + n + 2) := by
        rw [List.length_cons] at hn
        rwa [show 2 * (addrs.length + 1) + n = 2 * addrs.length + n + 2 by omega] at hn
      obtain ⟨h', -, hsupplies⟩ := h.valloc hv hn'
      have hkeeps := h.valloc_keepsOthers hv (hshared v List.mem_cons_self) hn'
      have hstep : Model.heapFaults k (v :: addrs) s = Model.heapFaults k addrs
          (vmmMapPage k pmmFrames s.alloc.allocPage.1 v true false
            { s with alloc := s.alloc.allocPage.2 }) := by
        simp only [Model.heapFaults, List.foldl_cons, vallocPage, if_pos hne]
      rw [hstep]
      refine hkeeps.trans (ih (fun w hw => haddrs w (List.mem_cons_of_mem v hw)) h' ?_ hsupplies)
      exact fun w hw => (hshared w (List.mem_cons_of_mem v hw)).keeps hkeeps

/-- INTERNAL: a frame that is kept for other use can be written. -/
theorem PagingUsed.write (h : PagingUsed k s) {f : ℕ} (hf : ¬ IsPaging k s f)
    (words : ℕ → BitVec 32) :
    PagingUsed k { s with phys := Function.update s.phys f words } := by
  obtain ⟨hwell, hpaging, -⟩ := write_spec h.wellMapped hf words
  exact ⟨hwell, fun g hg => h.used g ((hpaging g).mp hg)⟩

theorem Keeps.write {d : ℕ} (h : Keeps k d s) {f : ℕ} (hf : ¬ IsPaging k s f)
    (words : ℕ → BitVec 32) :
    Keeps k d { s with phys := Function.update s.phys f words } := by
  obtain ⟨-, hpaging, -⟩ := write_spec h.wellMapped hf words
  exact ⟨h.toPagingUsed.write hf words, h.kept, fun g hg => h.apart g ((hpaging g).mp hg)⟩

/-! ## A new directory -/

/-- What `new_page_directory` makes, for a process without blocks: an empty user half and
the kernel entries of the directory that is shown. -/
structure NewDirectory (k : KernelLayout) (page : ℕ) (s : Vmm Pmm) : Prop where
  keeps : Keeps k (page / 0x1000) s
  aligned : 0x1000 ∣ page
  lt : page < 2 ^ 32
  words : ∀ d, s.phys page d =
    if 768 ≤ d ∧ d < 1024 then s.slot k d else 0

/-- A page has been mapped at its own address, `page`, and cleared. -/
structure ClearedPage (k : KernelLayout) (e : Exe) (page : ℕ) (s : Vmm Pmm) : Prop where
  address : (vallocPage k 0 e.vmm).1 = page
  made : Exe.storePage page (fun _ _ => 0) { e with vmm := (vallocPage k 0 e.vmm).2 } =
    some { e with vmm := s }
  keeps : Keeps k (page / 0x1000) s
  others : KeepsOthers k e.vmm s
  words : s.phys page = fun _ => 0
  mapped : entryPresent (s.pageEntry k (pageDirIndex page) (pageTableIndex page)) ∧
    entryFrame (s.pageEntry k (pageDirIndex page) (pageTableIndex page)) = page
  read : ∀ v, pageDirIndex v ≠ 768 →
    ¬ (pageDirIndex v = pageDirIndex page ∧ pageTableIndex v = pageTableIndex page) →
    s.pageEntry k (pageDirIndex v) (pageTableIndex v) =
      e.vmm.pageEntry k (pageDirIndex v) (pageTableIndex v)
  used : ∀ b, e.vmm.alloc.used b → s.alloc.used b

theorem ClearedPage.walk {e : Exe} {page : ℕ} {s s' : Vmm Pmm} (h : ClearedPage k e page s)
    (hcr3 : e.cr3 = e.vmm.directory k)
    (hdir : s'.directory k = s.directory k)
    (hread : s'.pageEntry k (pageDirIndex page) (pageTableIndex page) =
      s.pageEntry k (pageDirIndex page) (pageTableIndex page)) :
    walk s'.phys e.cr3 page = some page := by
  rw [hcr3, ← h.others.directory, ← hdir, walk_directory, hread, if_pos h.mapped.1, h.mapped.2]

/-- INTERNAL: what is left to do in `new_page_directory`. -/
theorem ClearedPage.newPageDirectory {e : Exe} {page : ℕ} {s : Vmm Pmm} {process : Process}
    {rest : List Process} (h : ClearedPage k e page s) (hstack : e.processStack = process :: rest) :
    e.newPageDirectory k =
      (Exe.copyBlocks k page process.blocks { e with vmm := s }).bind fun s =>
        (s.storePage page fun old i =>
            if 768 ≤ i ∧ i < 1024 then s.vmm.slot k i else old i).map fun s =>
          (page, { s with vmm := vmmUnmapPage k pmmFrames page s.vmm }) := by
  unfold Exe.newPageDirectory
  dsimp only
  rw [h.address, h.made, Option.bind_some]
  dsimp only
  rw [hstack]
  rfl

/-- INTERNAL: the page of a new directory is mapped and cleared. -/
theorem clearedPage_spec {e : Exe} (h : PagingUsed k e.vmm)
    (hcr3 : e.cr3 = e.vmm.directory k) {n : ℕ}
    (hn : e.vmm.alloc.Supplies (n + 2)) (hlow : e.vmm.alloc.allocPage.1 < 0xC0000000) :
    ∃ s, ClearedPage k e e.vmm.alloc.allocPage.1 s ∧ s.alloc.Supplies n := by
  obtain ⟨hmod, hlt, hfree, hused⟩ := Pmm.allocPage_spec hn.1
  generalize hp : e.vmm.alloc.allocPage.1 = p at hmod hlt hfree hused hlow
  have hv : pageDirIndex p ≠ 768 := by
    unfold pageDirIndex
    omega
  have hlow' : pageDirIndex p < 768 := by
    unfold pageDirIndex
    omega
  -- the page is mapped at its own address
  obtain ⟨h₁, hdir₁, hsupplies₁⟩ := h.valloc hv (n := n) hn
  have hothers₁ := h.valloc_keepsOthers hv (.inl hlow') (n := n) hn
  have hkeep₀ := h.allocPage hn.1
  obtain ⟨hkeep₁, -⟩ := hkeep₀.vmmMapPage hv (hp ▸ hmod) (hp ▸ hlt) true false hn.2
  obtain ⟨-, hread, -, -⟩ := vmmMapPage_entries pmmFrames hkeep₀.wellMapped (.inl hv) p true false
    fun _ => hkeep₀.toPagingUsed.canBeTable hn.2.1
  have hused₁ := vmmMapPage_used hkeep₀.toPagingUsed hv (Nat.dvd_of_mod_eq_zero (hp ▸ hmod))
    (hp ▸ hlt) hn.2.1
  rw [hp] at h₁ hdir₁ hkeep₁ hothers₁ hsupplies₁ hused₁
  generalize hs₁ : vmmMapPage k pmmFrames p p true false
    { e.vmm with alloc := e.vmm.alloc.allocPage.2 } = s₁
    at h₁ hdir₁ hkeep₁ hothers₁ hread hsupplies₁ hused₁
  have hentry : entryPresent (s₁.pageEntry k (pageDirIndex p) (pageTableIndex p)) ∧
      entryFrame (s₁.pageEntry k (pageDirIndex p) (pageTableIndex p)) = p := by
    rw [hread _ (pageDirIndex_lt p) _ (.inl hv), if_pos ⟨rfl, rfl⟩]
    exact mapEntry_spec _ true false (Nat.dvd_of_mod_eq_zero hmod) hlt
  have hfresh₁ : ¬ IsPaging k s₁ p := fun hpaging => hkeep₁.apart p hpaging rfl
  -- it is cleared
  obtain ⟨-, hpaging₂, hdir₂, hslot₂, hread₂⟩ := write_spec h₁.wellMapped hfresh₁ fun _ => 0
  have hvalloc : vallocPage k 0 e.vmm = (p, s₁) := by
    unfold vallocPage
    dsimp only
    rw [hp, if_neg (not_not.mpr rfl), hs₁]
  refine ⟨{ s₁ with phys := Function.update s₁.phys p fun _ => 0 },
    ⟨by rw [hvalloc], ?_, hkeep₁.write hfresh₁ _, ?_,
      Function.update_self _ _ _, ?_, fun v hv' hne => ?_, fun b hb => ?_⟩, hsupplies₁⟩
  · have hwalk : walk s₁.phys e.cr3 p = some p := by
      rw [hcr3, ← hdir₁, walk_directory, if_pos hentry.1, hentry.2]
    rw [hvalloc]
    simp only [Exe.storePage, hwalk, Option.map_some]
  · refine ⟨hdir₂.trans hdir₁, fun d hd hd' => (hslot₂ d).trans (hothers₁.slots d hd hd'),
      fun f hf => ?_⟩
    obtain ⟨hf₁, hwords₁⟩ := hothers₁.words f hf
    refine ⟨hf₁.write hfresh₁ _, ?_⟩
    have hfp : f ≠ p := by
      rintro rfl
      exact hfree hf.kept
    exact (Function.update_of_ne hfp _ _).trans hwords₁
  · rw [hread₂ _ (pageDirIndex_lt p)]
    exact hentry
  · rw [hread₂ _ (pageDirIndex_lt v), hread _ (pageDirIndex_lt v) _ (.inl hv'), if_neg hne]
    rfl
  · exact hused₁ b ((hused b).mpr (.inr hb))

theorem newPageDirectory_spec {e : Exe} {process : Process} {rest : List Process}
    (h : PagingUsed k e.vmm) (hcr3 : e.cr3 = e.vmm.directory k)
    (hstack : e.processStack = process :: rest) (hblocks : process.blocks = [])
    (hn : e.vmm.alloc.Supplies 2) (hlow : e.vmm.alloc.allocPage.1 < 0xC0000000) :
    ∃ s', e.newPageDirectory k = some (e.vmm.alloc.allocPage.1, { e with vmm := s' }) ∧
      NewDirectory k e.vmm.alloc.allocPage.1 s' ∧ KeepsOthers k e.vmm s' := by
  obtain ⟨s₂, hcleared, -⟩ := clearedPage_spec h hcr3 (n := 0) hn hlow
  obtain ⟨hmod, hlt, hfree, -⟩ := Pmm.allocPage_spec hn.1
  generalize e.vmm.alloc.allocPage.1 = p at hcleared hmod hlt hfree hlow
  have hlow' : pageDirIndex p < 768 := by
    unfold pageDirIndex
    omega
  have hfresh₂ : ¬ IsPaging k s₂ p :=
    fun hpaging => hcleared.keeps.apart p hpaging rfl
  -- the page takes the kernel entries
  generalize hwords : (fun i => if 768 ≤ i ∧ i < 1024 then s₂.slot k i else s₂.phys p i)
    = words
  obtain ⟨-, -, hdir₃, hslot₃, -⟩ := write_spec hcleared.keeps.wellMapped hfresh₂ words
  have hkeep₃ := hcleared.keeps.write hfresh₂ words
  generalize hs₃ : ({ s₂ with phys := Function.update s₂.phys p words } : Vmm Pmm) = s₃
    at hdir₃ hslot₃ hkeep₃
  have hpres₃ : entryPresent (s₃.slot k (pageDirIndex p)) := by
    by_contra habsent
    rw [Bool.not_eq_true, hslot₃] at habsent
    have hzero := hcleared.mapped.1
    rw [pageEntry_of_slot_absent habsent] at hzero
    exact absurd hzero (by decide)
  have hfresh₃ : ¬ IsPaging k s₃ p := fun hpaging => hkeep₃.apart p hpaging rfl
  obtain ⟨hdir₄, hslot₄, hphys₄⟩ := vmmUnmapPage_frame (A := pmmFrames) hkeep₃.wellMapped
    (by omega) hpres₃
  refine ⟨vmmUnmapPage k pmmFrames p s₃, ?_, ?_, ?_⟩
  · simp only [hcleared.newPageDirectory hstack, hblocks, Exe.copyBlocks, Option.bind_some,
      Exe.storePage, hcleared.walk hcr3 rfl rfl, Option.map_some]
    rw [← hs₃, ← hwords]
  · refine ⟨hkeep₃.vmmUnmapPage (by omega) hpres₃, Nat.dvd_of_mod_eq_zero hmod, hlt,
      fun d => ?_⟩
    have hpage : s₃.phys p = words := by
      rw [← hs₃]
      exact Function.update_self _ _ _
    rw [hphys₄ p hfresh₃, hpage, ← hwords, hcleared.words]
    dsimp only
    split
    next hd => rw [hslot₄ d (by omega), hslot₃]
    next => rfl
  · refine ⟨by rw [hdir₄, hdir₃, hcleared.others.directory], fun d hd hd' => ?_, fun f hf => ?_⟩
    · rw [hslot₄ d (by omega), hslot₃, hcleared.others.slots d hd hd']
    · have hfp : f ≠ p := by
        rintro rfl
        exact hfree hf.kept
      obtain ⟨hf₂, hwords₂⟩ := hcleared.others.words f hf
      have hf₃ := hf₂.write hfresh₂ words
      rw [hs₃] at hf₃
      refine ⟨hf₃.vmmUnmapPage (by omega) hpres₃, ?_⟩
      rw [hphys₄ f fun hpaging => hf₃.apart f hpaging rfl, ← hs₃]
      exact (Function.update_of_ne hfp _ _).trans hwords₂

/-! ## Starting and ending a process -/

/-- INTERNAL: mapping a frame at `curr_page_directory` shows it as the directory and writes only
the table of the kernel half.
SRCLINE: exe.c:54-58 -/
theorem vmmMapPage_currPageDirectory {page : ℕ} (hw : WellMapped k s)
    (hmod : 4096 ∣ page) (hlt : page < 2 ^ 32) (hslot : k.directorySlot < 1024) :
    let s' := vmmMapPage k pmmFrames page (Exe.currPageDirectory k) true false s
    s'.directory k = page ∧ s'.alloc = s.alloc ∧
      ∀ f, f ≠ k.higherHalf → s'.phys f = s.phys f := by
  intro s'
  have hdirIndex : pageDirIndex (Exe.currPageDirectory k) = 768 := by
    unfold pageDirIndex Exe.currPageDirectory
    omega
  have htabIndex : pageTableIndex (Exe.currPageDirectory k) = k.directorySlot := by
    unfold pageTableIndex Exe.currPageDirectory
    omega
  obtain ⟨halloc, hword, hphys⟩ :=
    vmmMapPage_higherHalf pmmFrames hw.higherHalf hdirIndex page true
  rw [htabIndex] at hword
  refine ⟨?_, halloc, fun f hf => funext fun i => hphys f i (.inl hf)⟩
  show entryFrame (s'.phys k.higherHalf k.directorySlot) = page
  rw [show s'.phys k.higherHalf k.directorySlot = _ from hword]
  exact (mapEntry_spec _ true false hmod hlt).2

/-- INTERNAL: mapping a new directory at `curr_page_directory` shows it. -/
theorem NewDirectory.show {page : ℕ} (h : NewDirectory k page s) (hslot : k.directorySlot < 1024) :
    let s' := vmmMapPage k pmmFrames page (Exe.currPageDirectory k) true false s
    PagingUsed k s' ∧ s'.directory k = page ∧ s'.alloc = s.alloc ∧
      (∀ f, f ≠ k.higherHalf → s'.phys f = s.phys f) ∧
      ∀ f, IsPaging k s' f → f = page ∨
        ∃ d < 1024, entryPresent (s.slot k d) ∧ s.table k d = f := by
  intro s'
  have hw := h.keeps.wellMapped
  obtain ⟨hdir, halloc, hphys⟩ : s'.directory k = page ∧ s'.alloc = s.alloc ∧
      ∀ f, f ≠ k.higherHalf → s'.phys f = s.phys f :=
    vmmMapPage_currPageDirectory hw h.aligned h.lt hslot
  have hfresh : ¬ IsPaging k s page := fun hpaging => h.keeps.apart page hpaging rfl
  have hpage : page ≠ k.higherHalf := fun heq => hfresh (heq ▸ hw.isPaging_higherHalf)
  have hslots : ∀ d, s'.slot k d =
      if 768 ≤ d ∧ d < 1024 then s.slot k d else 0 := by
    intro d
    rw [slot, hdir, hphys page hpage, h.words]
  -- a present slot is one of the kernel half, and names the table of the old directory
  have hold : ∀ d < 1024, entryPresent (s'.slot k d) → 768 ≤ d ∧
      entryPresent (s.slot k d) ∧
      s'.table k d = s.table k d := by
    intro d hd hpres'
    rw [hslots] at hpres'
    by_cases hk : 768 ≤ d ∧ d < 1024
    · rw [if_pos hk] at hpres'
      refine ⟨hk.1, hpres', ?_⟩
      rw [table, hslots, if_pos hk, table]
    · rw [if_neg hk] at hpres'
      exact absurd hpres' (by decide)
  have hhalf' : entryPresent (s'.slot k 768) := by
    rw [hslots, if_pos (by omega)]
    exact hw.higherHalf.1
  have hwell : WellMapped k s' := by
    refine ⟨hw.slot_ne, ⟨hhalf', ?_⟩, fun d hd hpres' => ?_, fun d hd d' hd' hp hp' heq => ?_⟩
    · rw [(hold 768 (by omega) hhalf').2.2]
      exact hw.higherHalf.2
    · obtain ⟨-, hpres'', htable⟩ := hold d hd hpres'
      rw [htable, hdir]
      rintro rfl
      exact hfresh (.inr ⟨d, hd, hpres'', rfl⟩)
    · obtain ⟨-, hpd, htd⟩ := hold d hd hp
      obtain ⟨-, hpd', htd'⟩ := hold d' hd' hp'
      exact hw.distinct d hd d' hd' hpd hpd' (by rw [← htd, ← htd', heq])
  have hpaging' : ∀ f, IsPaging k s' f → f = page ∨
      ∃ d < 1024, entryPresent (s.slot k d) ∧ s.table k d = f := by
    intro f hf
    obtain rfl | ⟨d, hd, hp, rfl⟩ := hf
    · exact .inl hdir
    · obtain ⟨-, hpd, htd⟩ := hold d hd hp
      exact .inr ⟨d, hd, hpd, htd.symm⟩
  have hpaging : ∀ f, IsPaging k s' f →
      f = page ∨ IsPaging k s f := fun f hf => (hpaging' f hf).imp_right .inr
  refine ⟨⟨hwell, fun f hf => ?_⟩, hdir, halloc, hphys, hpaging'⟩
  rw [halloc]
  obtain rfl | hf := hpaging f hf
  · exact h.keeps.kept
  · exact h.keeps.used f hf

/-- The directory that is shown then has the kernel entries of the one before. -/
theorem NewDirectory.show_slot {page : ℕ} (h : NewDirectory k page s)
    (hslot : k.directorySlot < 1024) {d : ℕ} (hd : 768 ≤ d) (hd' : d < 1024) :
    (vmmMapPage k pmmFrames page (Exe.currPageDirectory k) true false s).slot k d =
      s.slot k d := by
  obtain ⟨-, hdir, -, hphys, -⟩ := h.show hslot
  have hpage : page ≠ k.higherHalf := by
    rintro rfl
    exact h.keeps.apart _ h.keeps.wellMapped.isPaging_higherHalf rfl
  rw [slot, hdir, hphys page hpage, h.words, if_pos ⟨hd, hd'⟩]

/-- INTERNAL: freeing a page leaves the directory shown. -/
theorem vfreePage_directory {α : Type} {A : FrameAllocator α} {k : KernelLayout} {s : Vmm α}
    {v : ℕ} (h : WellMapped k s) (hv : pageDirIndex v ≠ 768) :
    WellMapped k (vfreePage k A v s) ∧ (vfreePage k A v s).directory k = s.directory k := by
  obtain ⟨hread, hwell, -⟩ := virtToPhys_spec h hv
  obtain ⟨hdir, hslot, -⟩ := virtToPhys_keeps h v
  unfold vfreePage
  dsimp only
  split
  next hmapped =>
    have hpres : entryPresent (s.slot k (pageDirIndex v)) := by
      by_contra habsent
      rw [hread, translation_of_slot_absent (Bool.not_eq_true _ ▸ habsent)] at hmapped
      exact hmapped rfl
    have hwell' : WellMapped k ({ (virtToPhys k v s).2 with
        alloc := A.freePage (virtToPhys k v s).1 (virtToPhys k v s).2.alloc } : Vmm α) :=
      hwell.congr rfl (fun _ => rfl) fun _ => rfl
    have hpres' : entryPresent (({ (virtToPhys k v s).2 with
        alloc := A.freePage (virtToPhys k v s).1 (virtToPhys k v s).2.alloc } : Vmm α).slot k
          (pageDirIndex v)) := by
      show entryPresent ((virtToPhys k v s).2.slot k (pageDirIndex v))
      rw [hslot]
      exact hpres
    obtain ⟨hdir', -⟩ := vmmUnmapPage_frame (A := A) hwell' hv hpres'
    exact ⟨(vmmUnmapPage_spec A hwell' hv hpres').1, hdir'.trans hdir⟩
  next => exact ⟨hwell, hdir⟩

theorem freeUserPages_directory {n : ℕ} (hn : n ≤ 768 * 1024)
    (h : WellMapped k s) :
    WellMapped k (Exe.freeUserPages k n s) ∧
      (Exe.freeUserPages k n s).directory k = s.directory k := by
  induction n with
  | zero => exact ⟨h, rfl⟩
  | succ n ih =>
      obtain ⟨hwell, hdir⟩ := ih (by omega)
      have hv : pageDirIndex (n * 0x1000) ≠ 768 := by
        unfold pageDirIndex
        omega
      obtain ⟨hwell', hdir'⟩ := vfreePage_directory (A := pmmFrames) hwell hv
      exact ⟨hwell', hdir'.trans hdir⟩

theorem revive_directory {e : Exe} {n : ℕ} (hn : n ≤ 768 * 1024)
    (h : WellMapped k e.vmm) (dying revived : Process) (rest : List Process) :
    (e.revive k n dying revived rest).vmm.directory k =
      e.vmm.directory k :=
  (freeUserPages_directory hn h).2

/-- INTERNAL: `exit_process` loads the directory of the process before, and shows none. -/
theorem exitProcess_spec {e e' : Exe} {dying revived : Process} {rest : List Process}
    (h : WellMapped k e.vmm) (hstack : e.processStack = dying :: revived :: rest)
    (hrun : e.exitProcess k = some e') :
    e'.vmm.directory k = e.vmm.directory k ∧
      e'.cr3 = revived.addressSpace := by
  have hdir := revive_directory (Nat.le_refl (768 * 1024)) h dying revived rest
  have hval : e.exitProcess k = some (e.revive k (768 * 1024) dying revived rest) := by
    unfold Exe.exitProcess
    rw [hstack]
  rw [hval] at hrun
  have heq := Option.some.inj hrun
  rw [← heq]
  exact ⟨hdir, rfl⟩

/-- The calls that change the current process. -/
inductive ProcessCall where
  | new (before behind : List ℕ) (blocks : List UmmBlock)
  | exit

/-- A call that returns. -/
def ProcessCall.run (k : KernelLayout) : ProcessCall → Exe → Option Exe
  | .new before behind blocks, e => e.newProcess k before behind blocks
  | .exit, e => e.exitProcess k

/-- `curr_page_directory` shows the directory that was loaded last, which is that of the
current process. -/
def InStep (k : KernelLayout) (e : Exe) : Prop :=
  e.vmm.directory k = e.cr3 ∧
    ∃ process rest, e.processStack = process :: rest ∧ process.addressSpace = e.cr3

/-- A process has been started, and the page tables are in order. -/
def Started (k : KernelLayout) (e : Exe) : Prop := PagingUsed k e.vmm ∧ InStep k e

/-- The call is not `exit_process`.  It starts a process from one that has no blocks to
copy, and `alloc_page` has the frames it takes: the first of them, below 3 GiB, becomes
the directory. -/
def ProcessCall.Plain (k : KernelLayout) : ProcessCall → Exe → Prop
  | .new before behind _, e =>
      (∀ v ∈ before ++ behind, PlainAddress v) ∧
      (∀ process rest, e.processStack = process :: rest → process.blocks = []) ∧
      e.vmm.alloc.Supplies (2 * before.length + 2) ∧
      (heapFaults k before e.vmm).alloc.allocPage.1 < 0xC0000000 ∧
      ∀ r, Exe.newPageDirectory k { e with vmm := heapFaults k before e.vmm } = some r →
        r.2.vmm.alloc.Supplies (2 * 64 + 2 * behind.length)
  | .exit, _ => False

theorem plainAddress_stack : ∀ v ∈ (List.range 64).map (fun i => 0xC0000000 - 0x1000 * (i + 1)),
    PlainAddress v ∧ pageDirIndex v < 768 := by
  intro v hv
  obtain ⟨i, hi, rfl⟩ := List.mem_map.mp hv
  have hi := List.mem_range.mp hi
  unfold PlainAddress pageDirIndex
  omega

/-- The states that a plain call of `new_process` goes through: `s₁` before the directory is
made in `page`, `s₂` behind it, `s₃` when it is shown and `s₄` with the pages of the
stack. -/
structure ProcessStages (k : KernelLayout) (e e' : Exe) (before behind : List ℕ)
    (blocks : List UmmBlock) (page : ℕ) (s₁ s₂ s₃ s₄ : Vmm Pmm) : Prop where
  faults : s₁ = heapFaults k before e.vmm
  page_eq : page = s₁.alloc.allocPage.1
  page_ne : page ≠ 0
  ok₁ : PagingUsed k s₁
  directory₁ : s₁.directory k = e.vmm.directory k
  made : NewDirectory k page s₂
  others : KeepsOthers k s₁ s₂
  shown : s₃ = vmmMapPage k pmmFrames page (Exe.currPageDirectory k) true false s₂
  supplies₃ : s₃.alloc.Supplies (2 * ((List.range 64).map fun i =>
    0xC0000000 - 0x1000 * (i + 1)).length + 2 * behind.length)
  stack : s₄ = Exe.newStack k s₃
  ok₄ : PagingUsed k s₄
  directory₄ : s₄.directory k = page
  supplies₄ : s₄.alloc.Supplies (2 * behind.length)
  result : e' = { vmm := heapFaults k behind s₄, cr3 := page,
                  processStack := ⟨page, blocks⟩ :: e.processStack }

theorem newProcess_stages {e e' : Exe} {before behind : List ℕ} {blocks : List UmmBlock}
    (hslot : k.directorySlot < 1024) (h : Started k e)
    (hplain : (ProcessCall.new before behind blocks).Plain k e)
    (hrun : e.newProcess k before behind blocks = some e') :
    ∃ page s₁ s₂ s₃ s₄, ProcessStages k e e' before behind blocks page s₁ s₂ s₃ s₄ := by
  obtain ⟨hok, hshown, process, rest, hstack, htop⟩ := h
  obtain ⟨haddrs, hempty, hsupplies, hlow, hlater⟩ := hplain
  obtain ⟨hok₁, hdir₁, hsupplies₁⟩ := hok.heapFaults before
    (fun v hv => haddrs v (List.mem_append_left _ hv)) hsupplies
  obtain ⟨s₂, hnew, hmade, hothers⟩ := newPageDirectory_spec
    (e := { e with vmm := heapFaults k before e.vmm }) hok₁ (by dsimp only; rw [hdir₁, hshown])
    hstack (hempty process rest hstack) hsupplies₁ hlow
  have hsupplies₂ := hlater _ hnew
  obtain ⟨hok₃, hdir₃, halloc₃, -⟩ := hmade.show hslot
  have hsupplies₃ : (vmmMapPage k pmmFrames
      (heapFaults k before e.vmm).alloc.allocPage.1 (Exe.currPageDirectory k) true false
      s₂).alloc.Supplies (2 * ((List.range 64).map fun i =>
        0xC0000000 - 0x1000 * (i + 1)).length + 2 * behind.length) := by
    rw [halloc₃, List.length_map, List.length_range]
    exact hsupplies₂
  obtain ⟨hok₄, hdir₄, hsupplies₄⟩ := hok₃.heapFaults _
    (fun v hv => (plainAddress_stack v hv).1) hsupplies₃
  simp only [Exe.newProcess, hnew, Option.map_some, Option.some.injEq] at hrun
  exact ⟨_, _, s₂, _, _, rfl, rfl, hsupplies₁.1, hok₁, hdir₁, hmade, hothers, rfl, hsupplies₃,
    rfl, hok₄, hdir₄.trans hdir₃, hsupplies₄, hrun.symm⟩

/-- INTERNAL: a process that is started gets a directory of its own, which is shown. -/
theorem newProcess_started {e e' : Exe} {before behind : List ℕ} {blocks : List UmmBlock}
    (hslot : k.directorySlot < 1024) (h : Started k e)
    (hplain : (ProcessCall.new before behind blocks).Plain k e)
    (hrun : e.newProcess k before behind blocks = some e') : Started k e' := by
  obtain ⟨page, s₁, s₂, s₃, s₄, hstages⟩ := newProcess_stages hslot h hplain hrun
  obtain ⟨haddrs, -⟩ := hplain
  obtain ⟨hok, hdir, -⟩ := hstages.ok₄.heapFaults behind
    (fun v hv => haddrs v (List.mem_append_right _ hv)) (n := 0) hstages.supplies₄
  rw [hstages.result]
  exact ⟨hok, hdir.trans hstages.directory₄, _, _, rfl, rfl⟩

/-- A call that is plain and returns. -/
def PlainStep (k : KernelLayout) (e e' : Exe) : Prop :=
  ∃ c : ProcessCall, c.Plain k e ∧ c.run k e = some e'

end

/-- Blocks 5 to 15 are free. -/
def elevenFreeBlocks : Pmm where
  bitmap := fun i => if i = 0 then 0x1F else if i = 1 then 0x00 else 0xFF
  bitmapLen := 16
  lastFreedBlock := 0
  bitmapLen_lt := by decide

/-- A process with its directory in frame 2, started by one with its directory in frame 4.
The directories have the entry of `higher_half_page_table` only. -/
def nestedProcess : Exe where
  vmm :=
    { phys := fun f i =>
        if f = 0x1000 ∧ i = 2 then 0x2003
        else if (f = 0x2000 ∨ f = 0x4000) ∧ i = 768 then 0x1003
        else 0
      alloc := elevenFreeBlocks }
  cr3 := 0x2000
  processStack := [⟨0x2000, []⟩, ⟨0x4000, []⟩]

theorem nestedProcess_startsEmpty :
    StartsEmpty twoFrames nestedProcess.vmm :=
  ⟨by decide, by decide, by decide, by decide +kernel⟩

theorem nestedProcess_paging (f : ℕ)
    (hf : IsPaging twoFrames nestedProcess.vmm f) : f = 0x2000 ∨ f = 0x1000 := by
  obtain rfl | ⟨d, hd, hpres, rfl⟩ := hf
  · exact .inl (by decide)
  · rw [nestedProcess_startsEmpty.eq_768 hd hpres]
    exact .inr (by decide)

theorem nestedProcess_started : Started twoFrames nestedProcess := by
  refine ⟨⟨nestedProcess_startsEmpty.holdsMap.1, fun f hf => ?_⟩, by decide, _, _, rfl, rfl⟩
  obtain rfl | rfl := nestedProcess_paging f hf
  · decide +kernel
  · decide +kernel

end LakeOS.Analysis
