import LakeOS.Analysis.AddressSpaces
import LakeOS.Analysis.UserBlocks

/-!
# What a new directory inherits

`new_page_directory` is meant to copy the mappings of the shared blocks of the current
process.  Its test `block->flags | UMM_BLOCK_FLAG_SHARED` holds of every block, and
`copy_ptes` reads and writes the page tables at their physical addresses, which the
directory in `cr3` does not map.  The directory is the one that is meant when there is
nothing to copy.
-/

set_option autoImplicit false

namespace LakeOS.Analysis

open LakeOS.Library LakeOS.Model Vmm

variable {k : KernelLayout}

/-- The page is in a block of the current process that is shared. -/
def InSharedBlock (e : Exe) (v : ℕ) : Prop :=
  ∃ process rest, e.processStack = process :: rest ∧ ∃ block ∈ process.blocks,
    block.flags &&& ummBlockFlagShared ≠ 0 ∧ block.start ≤ v ∧ v < block.start + block.len

/-- `new_page_directory` returns, and its directory maps the shared pages of the current
process to the frames they have there, no other user page, and the kernel half it has. -/
def Inherits (k : KernelLayout) (e : Exe) : Prop :=
  ∃ page e', e.newPageDirectory k = some (page, e') ∧
    (∀ v < 0xC0000000, ∀ f, walk e'.vmm.phys page v = some f ↔
      walk e.vmm.phys (e.vmm.directory k) v = some f ∧ InSharedBlock e v) ∧
    ∀ d, 768 ≤ d → d < 1024 → e'.vmm.phys page d = e.vmm.slot k d

/-- The page tables are in order, the directory that is shown is in `cr3`, and there are
two frames, of which the first is below the kernel. -/
structure ReadyToCopy (k : KernelLayout) (e : Exe) : Prop where
  ok : PagingUsed k e.vmm
  active : e.cr3 = e.vmm.directory k
  supplies : e.vmm.alloc.Supplies 2
  low : e.vmm.alloc.allocPage.1 < 0xC0000000

/-- A user page has no translation in a directory that has just been made. -/
theorem NewDirectory.walk_user {page v : ℕ} {s : Vmm Pmm} (h : NewDirectory k page s)
    (hv : v < 0xC0000000) : walk s.phys page v = none := by
  have hindex : ¬ (768 ≤ pageDirIndex v ∧ pageDirIndex v < 1024) := by
    unfold pageDirIndex
    omega
  have habsent : entryPresent (s.phys page (pageDirIndex v)) = false := by
    rw [h.words, if_neg hindex]
    decide
  simp [walk, habsent]

/-- The test on the flags never fails. -/
theorem filter_ne_zero (flags : ℕ) : flags ||| ummBlockFlagShared ≠ 0 := by
  intro hzero
  have hle : ummBlockFlagShared ≤ flags ||| ummBlockFlagShared := Nat.right_le_or
  rw [hzero] at hle
  exact absurd hle (by decide)

/-- A block is copied whatever its flags are. -/
theorem copyBlock_flags (newPd : ℕ) (block : UmmBlock) (flags : ℕ) (e : Exe) :
    e.copyBlock k newPd { block with flags } = e.copyBlock k newPd block := by
  unfold Exe.copyBlock
  rw [if_neg (filter_ne_zero _), if_neg (filter_ne_zero _)]

/-- Without a current process, its blocks cannot be read. -/
theorem newPageDirectory_null {e : Exe} (h : e.processStack = []) :
    e.newPageDirectory k = none := by
  unfold Exe.newPageDirectory Exe.storePage
  cases hwalk : walk (vallocPage k 0 e.vmm).2.phys e.cr3 (vallocPage k 0 e.vmm).1 with
  | none => simp [hwalk]
  | some frame => simp [hwalk, h]

/-! ## Page tables at their physical addresses -/

section

variable {s s' s'' : Vmm Pmm}

/-- From `s` to `s'` the page tables stay where they are, and so do the pages outside slot
768. -/
structure SamePages (k : KernelLayout) (s s' : Vmm Pmm) : Prop where
  wellMapped : WellMapped k s'
  directory : s'.directory k = s.directory k
  paging : ∀ f, IsPaging k s' f ↔ IsPaging k s f
  read : ∀ v, pageDirIndex v ≠ 768 →
    s'.pageEntry k (pageDirIndex v) (pageTableIndex v) =
      s.pageEntry k (pageDirIndex v) (pageTableIndex v)

theorem SamePages.trans (h : SamePages k s s') (h' : SamePages k s' s'') : SamePages k s s'' where
  wellMapped := h'.wellMapped
  directory := h'.directory.trans h.directory
  paging f := (h'.paging f).trans (h.paging f)
  read v hv := (h'.read v hv).trans (h.read v hv)

theorem samePages_mapWindow (h : WellMapped k s) (frame : ℕ) :
    SamePages k s (s.mapWindow k frame) where
  wellMapped := h.mapWindow frame
  directory := directory_mapWindow h.slot_ne frame
  paging := isPaging_congr (directory_mapWindow h.slot_ne frame)
    (fun d => by rw [slot_mapWindow h]) (table_mapWindow h frame)
  read v hv := pageEntry_mapWindow h frame (pageDirIndex_lt v) (.inl hv)

theorem samePages_write (h : WellMapped k s) {f : ℕ}
    (hf : ¬ IsPaging k s f) (words : ℕ → BitVec 32) (alloc : Pmm) :
    SamePages k s { phys := Function.update s.phys f words, alloc } := by
  obtain ⟨hwell, hpaging, hdir, -, hread⟩ := write_spec h hf words
  exact ⟨hwell.congr rfl (fun _ => rfl) fun _ => rfl, hdir, hpaging,
    fun v _ => hread _ (pageDirIndex_lt v) _⟩

theorem SamePages.walk (h : SamePages k s s') {v : ℕ} (hv : pageDirIndex v ≠ 768) :
    walk s'.phys (s.directory k) v =
      walk s.phys (s.directory k) v := by
  have hwalk := walk_directory (k := k) s' v
  rw [h.directory, h.read v hv, ← walk_directory] at hwalk
  exact hwalk

/-- `copy_ptes` writes the new page table at its physical address. -/
theorem copyPtes_unmapped {e : Exe} (h : WellMapped k e.vmm)
    (hcr3 : e.cr3 = e.vmm.directory k) {newPt : ℕ} (hv : pageDirIndex newPt ≠ 768)
    (hnone : walk e.vmm.phys e.cr3 newPt = none) (oldPt first last : ℕ) :
    e.copyPtes k newPt oldPt first last = none := by
  have hsame := (samePages_mapWindow h oldPt).trans
    (samePages_mapWindow (h.mapWindow oldPt) newPt)
  unfold Exe.copyPtes
  dsimp only
  cases walk (e.vmm.mapWindow k oldPt).phys e.cr3 oldPt with
  | none => rfl
  | some frame =>
      dsimp only
      split
      next => rfl
      next =>
        have hwalk := hsame.walk hv
        rw [← hcr3, hnone] at hwalk
        unfold Exe.storePage
        dsimp only
        rw [hwalk]
        rfl

/-- INTERNAL: a new page table is entered in the directory behind `page`. -/
theorem newPageTable_spec {e : Exe} (h : PagingUsed k e.vmm) {page : ℕ}
    (hwalk : walk e.vmm.phys e.cr3 page = some page)
    (hkept : Keeps k (page / 0x1000) e.vmm) (hn : e.vmm.alloc.allocPage.1 ≠ 0)
    (pdi : ℕ) :
    ∃ s', e.newPageTable k page pdi true = some { e with vmm := s' } ∧ SamePages k e.vmm s' ∧
      entryFrame (s'.phys page pdi) = e.vmm.alloc.allocPage.1 := by
  obtain ⟨hmod, hlt, hfree, -⟩ := Pmm.allocPage_spec hn
  have hdvd := Nat.dvd_of_mod_eq_zero hmod
  have hfresh : ¬ IsPaging k e.vmm page :=
    fun hpaging => hkept.apart page hpaging rfl
  have hnew : ¬ IsPaging k e.vmm e.vmm.alloc.allocPage.1 :=
    fun hpaging => hfree (h.used _ hpaging)
  have hne : page ≠ e.vmm.alloc.allocPage.1 := fun heq => hfree (heq ▸ hkept.kept)
  unfold Exe.newPageTable Exe.storePage
  simp only [hwalk, Option.map_some, if_true]
  generalize hwords : (fun i => if i = pdi then entryAddAttribute (entryAddAttribute
    (entryAddAttribute (entrySetFrame (e.vmm.phys page i) e.vmm.alloc.allocPage.1)
      pageStructEntryPresent) pageStructEntryWriteable) pageStructEntryUserAccess
    else e.vmm.phys page i) = words
  have hentry : entryFrame (words pdi) = e.vmm.alloc.allocPage.1 := by
    rw [← hwords]
    dsimp only
    rw [if_pos rfl, entryFrame_addAttribute _ (by decide),
      entryFrame_addAttribute _ (by decide), entryFrame_addAttribute _ (by decide),
      entryFrame_setFrame _ hdvd hlt]
  have hsame₁ := samePages_write h.wellMapped hfresh words e.vmm.alloc.allocPage.2
  have hsame₂ := hsame₁.trans (samePages_mapWindow hsame₁.wellMapped e.vmm.alloc.allocPage.1)
  rw [window_mapWindow hdvd hlt]
  refine ⟨_, rfl, hsame₂.trans (samePages_write hsame₂.wellMapped
    (fun hpaging => hnew ((hsame₂.paging _).mp hpaging)) (fun _ => 0) _), ?_⟩
  have hhalf : page ≠ k.higherHalf := by
    rintro rfl
    exact hfresh h.wellMapped.isPaging_higherHalf
  dsimp only
  rw [PhysMemory.clear_of_ne _ _ hne, mapWindow_phys_of_ne (.inl hhalf)]
  dsimp only
  rw [Function.update_self, hentry]

/-- The new page table of a directory that names none is out of reach. -/
theorem copyTable_unmapped {e : Exe} {page : ℕ} (h : ClearedPage k e page s)
    (hcr3 : e.cr3 = e.vmm.directory k) (hlow : pageDirIndex page ≠ 768)
    (hn : s.alloc.allocPage.1 ≠ 0) (hv : pageDirIndex s.alloc.allocPage.1 ≠ 768)
    (hnone : walk s.phys e.cr3 s.alloc.allocPage.1 = none) (pdi first last : ℕ) :
    Exe.copyTable k page pdi first last { e with vmm := s } = none := by
  have habsent : entryPresent (s.phys page pdi) = false := by
    rw [h.words]
    exact (by decide : entryPresent 0 = false)
  have hcr3' : e.cr3 = s.directory k := hcr3.trans h.others.directory.symm
  have hwalk : walk s.phys e.cr3 page = some page := h.walk hcr3 rfl rfl
  obtain ⟨s', hnew, hsame, hframe⟩ := newPageTable_spec (e := { e with vmm := s })
    h.keeps.toPagingUsed hwalk h.keeps hn pdi
  have hwalk' : walk s'.phys e.cr3 page = some page := by
    rw [hcr3', hsame.walk hlow, ← hcr3', hwalk]
  unfold Exe.copyTable
  simp only [hwalk, habsent, Bool.not_false, if_true, hnew, Option.bind_some, hwalk', hframe]
  apply copyPtes_unmapped (e := { e with vmm := s' }) hsame.wellMapped
    (hcr3'.trans hsame.directory.symm) hv
  dsimp only
  rw [hcr3', hsame.walk hv, ← hcr3', hnone]

/-- INTERNAL: a block of a page or more has a page to copy. -/
theorem copyBlock_unmapped {e : Exe} {page : ℕ} {block : UmmBlock} (hblock : PageBlock block)
    (hnone : ∀ pdi first last, e.copyTable k page pdi first last = none) :
    e.copyBlock k page block = none := by
  obtain ⟨⟨a, hstart⟩, ⟨c, hlen⟩, hpos, hstop⟩ := hblock
  unfold Exe.copyBlock
  rw [if_neg (filter_ne_zero _)]
  dsimp only
  by_cases hhead : pageTableIndex block.start % 1024 ≠ 0
  · rw [if_pos hhead, hnone]
    rfl
  · simp only [if_neg hhead, Option.bind_some]
    by_cases hwhole : pageDirIndex block.start < pageDirIndex (add32 block.start block.len)
    · obtain ⟨n, hn⟩ := Nat.exists_eq_add_of_lt hwhole
      have hcount : pageDirIndex (add32 block.start block.len) - pageDirIndex block.start
          = n + 1 := by omega
      rw [hcount, List.range'_succ, Exe.copyTables, hnone]
      rfl
    · have hcount : pageDirIndex (add32 block.start block.len) - pageDirIndex block.start = 0 := by
        omega
      have htail : pageTableIndex block.start + 1024 * 0 <
          pageTableIndex (add32 block.start block.len) := by
        unfold pageTableIndex pageDirIndex add32 userMemoryEnd at *
        omega
      rw [hcount, List.range'_zero, Exe.copyTables, Option.bind_some, if_pos htail, hnone]

end

/-- Physical memory has a free frame whose number is the address of a page that is mapped,
or of a page of the first 4 MiB of the kernel. -/
def FreeFrameMapped (e : Exe) : Prop :=
  ∃ f, 0x1000 ∣ f ∧ f < 2 ^ 32 ∧ ¬ e.vmm.alloc.used (f / 0x1000) ∧
    (pageDirIndex f = 768 ∨ walk e.vmm.phys e.cr3 f ≠ none)

/-- There is a current process, without blocks. -/
def NoBlocks (e : Exe) : Prop :=
  ∃ process rest, e.processStack = process :: rest ∧ process.blocks = []

/-- With a block to copy, `new_page_directory` does not return. -/
theorem newPageDirectory_blocks {e : Exe} (h : ReadyToCopy k e) (hn : e.vmm.alloc.Supplies 3)
    (hfree : ¬ FreeFrameMapped e) {process : Process} {rest : List Process}
    (hstack : e.processStack = process :: rest) {block : UmmBlock} {blocks : List UmmBlock}
    (hblocks : process.blocks = block :: blocks) (hblock : PageBlock block) :
    e.newPageDirectory k = none := by
  obtain ⟨s, hcleared, hsupplies⟩ := clearedPage_spec h.ok h.active (n := 1) hn h.low
  have hlow : pageDirIndex e.vmm.alloc.allocPage.1 ≠ 768 := by
    have hlow := h.low
    unfold pageDirIndex
    omega
  obtain ⟨hmod₁, hlt₁, -, -⟩ := Pmm.allocPage_spec hn.1
  generalize e.vmm.alloc.allocPage.1 = page at *
  obtain ⟨hmod, hlt, hunused, -⟩ := Pmm.allocPage_spec hsupplies.1
  have hfree' : ¬ e.vmm.alloc.used (s.alloc.allocPage.1 / 0x1000) :=
    fun hused => hunused (hcleared.used _ hused)
  have hout : pageDirIndex s.alloc.allocPage.1 ≠ 768 := fun heq =>
    hfree ⟨_, Nat.dvd_of_mod_eq_zero hmod, hlt, hfree', .inl heq⟩
  have hapart : ¬ (pageDirIndex s.alloc.allocPage.1 = pageDirIndex page ∧
      pageTableIndex s.alloc.allocPage.1 = pageTableIndex page) := by
    intro heq
    have hdiv : s.alloc.allocPage.1 / 0x1000 = page / 0x1000 := by
      unfold pageDirIndex pageTableIndex at heq
      omega
    exact hunused (hdiv ▸ hcleared.keeps.kept)
  have hcr3 : e.cr3 = s.directory k :=
    h.active.trans hcleared.others.directory.symm
  have hnone : walk s.phys e.cr3 s.alloc.allocPage.1 = none := by
    rw [hcr3, walk_directory, hcleared.read _ hout hapart, ← walk_directory, ← h.active]
    by_contra hmapped
    exact hfree ⟨_, Nat.dvd_of_mod_eq_zero hmod, hlt, hfree', .inr hmapped⟩
  rw [hcleared.newPageDirectory hstack, hblocks, Exe.copyBlocks,
    copyBlock_unmapped hblock (copyTable_unmapped hcleared h.active hlow hsupplies.1 hout hnone)]
  rfl

/-- INTERNAL: a process without blocks has nothing to hand on. -/
theorem inherits_noBlocks {e : Exe} (h : ReadyToCopy k e) (hnone : NoBlocks e) :
    Inherits k e := by
  obtain ⟨process, rest, hstack, hblocks⟩ := hnone
  obtain ⟨s', hnew, hdirectory, hothers⟩ := newPageDirectory_spec h.ok h.active hstack hblocks
    h.supplies h.low
  refine ⟨_, _, hnew, fun v hv f => ?_, fun d hd hd' => ?_⟩
  · rw [hdirectory.walk_user hv]
    constructor
    · intro hsome
      cases hsome
    · rintro ⟨-, process', rest', hstack', block, hmem, -⟩
      rw [hstack] at hstack'
      obtain ⟨rfl, -⟩ := List.cons.inj hstack'
      rw [hblocks] at hmem
      cases hmem
  · dsimp only
    rw [hdirectory.words, if_pos ⟨hd, hd'⟩, hothers.slots d hd hd']

theorem nestedProcess_ready : ReadyToCopy twoFrames nestedProcess :=
  ⟨nestedProcess_started.1, by decide, ⟨by decide +kernel, by decide +kernel, trivial⟩,
    by decide +kernel⟩

/-- The process has a shared block of a page. -/
def sharingProcess : Exe :=
  { nestedProcess with processStack := [⟨0x2000, [⟨0x400000, 0x1000, 0x2, 0x01⟩]⟩] }

theorem sharingProcess_ready : ReadyToCopy twoFrames sharingProcess :=
  ⟨nestedProcess_ready.ok, nestedProcess_ready.active, nestedProcess_ready.supplies,
    nestedProcess_ready.low⟩

theorem sharingProcess_wellFormed :
    ∀ process ∈ sharingProcess.processStack.head?, WellFormed process.blocks := by
  intro process hprocess
  obtain rfl := Option.some.inj hprocess
  exact wellFormed_singleton ⟨by decide, by decide, by decide, by decide⟩

theorem sharingProcess_freeFrames : ¬ FreeFrameMapped sharingProcess := by
  rintro ⟨f, ⟨c, rfl⟩, hlt, hfree, hmapped⟩
  rw [Nat.mul_div_cancel_left c (by decide)] at hfree
  have hsmall : c < 16 := by
    by_contra hge
    apply hfree
    have hbyte : sharingProcess.vmm.alloc.bitmap (c / 8) = 0xFF := by
      show (if c / 8 = 0 then _ else if c / 8 = 1 then _ else _) = _
      rw [if_neg (by omega), if_neg (by omega)]
    unfold Pmm.used Pmm.bitmapGetblockstate
    rw [hbyte]
    exact (by decide : ∀ r < 8, ((0xFF : Byte) >>> r) &&& 0x1 ≠ bitmapBlockFree) _
      (Nat.mod_lt _ (by decide))
  have hnone : ∀ c < 16, ¬ (pageDirIndex (0x1000 * c) = 768 ∨
      walk sharingProcess.vmm.phys sharingProcess.cr3 (0x1000 * c) ≠ none) := by
    decide +kernel
  exact hnone c hsmall hmapped

end LakeOS.Analysis
