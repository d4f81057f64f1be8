import LakeOS.Model.VmmInit
import LakeOS.Analysis.PagePermissions
import LakeOS.Analysis.OutOfFrames

/-!
# The bitmap in the higher half

`VMM_init` maps every page of the higher-half bitmap to the first page of the bitmap, so a
bitmap of more than one page loses all but that page; and the slot that it clears at the
end holds the bitmap where the bitmap lies one gibibyte up.
-/

set_option autoImplicit false

namespace LakeOS.Analysis

open LakeOS.Library LakeOS.Model Vmm

variable (k : KernelLayout)

/-- The physical byte behind a virtual address. -/
def physByte {α : Type} (s : Vmm α) (vaddr : ℕ) : Option ℕ :=
  let pte := entryOf k s vaddr
  if entryPresent pte then some (entryFrame pte + vaddr % 0x1000) else none

/-- The bytes of the bitmap are where they were, and its blocks have bits of their own. -/
structure BitmapKept {α : Type} (s : Vmm α) (bitmap bitmap' bitmapLen : ℕ) : Prop where
  byte : ∀ j < bitmapSize bitmapLen, physByte k s (add32 bitmap' j) = some (bitmap + j)
  bit : ∀ a < bitmapLen, ∀ b < bitmapLen,
    physByte k s (add32 bitmap' (a / 8)) = physByte k s (add32 bitmap' (b / 8)) →
      a % 8 = b % 8 → a = b

/-- The bitmap has one page at most, and this page is not in slot 0. -/
def OnePageBitmap (bitmap bitmapLen : ℕ) : Prop :=
  bitmapLen ≤ 32768 ∧ (0 < bitmapLen → pageDirIndex (bitmapPage bitmap 0) ≠ 0)

instance (bitmap bitmapLen : ℕ) : Decidable (OnePageBitmap bitmap bitmapLen) :=
  inferInstanceAs (Decidable (_ ∧ _))

/-- The tables that the kernel starts with: its directory and `higher_half_page_table`,
behind slot 768, lie in used frames, and no other slot names either of them. -/
structure BootTables (s : Vmm Pmm) : Prop extends Stands k s where
  shared : entryPresent (s.slot k 768) ∧ s.table k 768 = k.higherHalf

variable {k} {s : Vmm Pmm} {v paddr : ℕ}

/-! ## One page -/

/-- INTERNAL: the entry of the page, in the table that the window shows. -/
theorem vmmMapPage_written {α : Type} (A : FrameAllocator α) (s : Vmm α) (write ring3 : Bool) :
    (vmmMapPage k A paddr v write ring3 s).phys ((s.openTable k A v ring3).window k)
        (pageTableIndex v) =
      mapEntry paddr write ring3
        ((s.openTable k A v ring3).windowEntry k (pageTableIndex v)) :=
  PhysMemory.setWord_self _ _ _ _

/-- INTERNAL: the table of a page. -/
theorem Stands.openTable (h : Stands k s) (v : ℕ) (ring3 : Bool) :
    Opened k v (tableFor pmmFrames k v s) s (s.openTable k pmmFrames v ring3) := by
  obtain ⟨hdvd, hlt, -, hne⟩ := allocPage_any s.alloc
  apply (openTable_opened h.slot_ne h.directory_ne ring3 _).1
  intro _
  exact ⟨hdvd, hlt, hne _ h.directory.1 h.directory.2, hne _ h.higherHalf.1 h.higherHalf.2⟩

/-- INTERNAL: a page outside slot 768. -/
theorem BootTables.map_outside (h : BootTables k s) (hv : pageDirIndex v ≠ 768) (paddr : ℕ)
    (write : Bool) :
    BootTables k (vmmMapPage k pmmFrames paddr v write false s) ∧
      ∃ e, entryOf k (vmmMapPage k pmmFrames paddr v write false s) v =
        mapEntry paddr write false e := by
  obtain ⟨hopened, -, hstands⟩ := h.toStands.map hv paddr write false
  have hwindow : (s.openTable k pmmFrames v false).window k =
      (vmmMapPage k pmmFrames paddr v write false s).table k (pageDirIndex v) := by
    rw [hopened.table, (h.toStands.openTable v false).window]
  refine ⟨⟨hstands, ?_⟩,
    (s.openTable k pmmFrames v false).windowEntry k (pageTableIndex v), ?_⟩
  · unfold Vmm.table
    rw [hopened.slots _ hv.symm]
    exact h.shared
  · rw [entryOf, pageEntry_of_slot_present hopened.present, ← hwindow]
    exact vmmMapPage_written pmmFrames s write false

/-- INTERNAL: a page of slot 768: only `higher_half_page_table` changes. -/
theorem BootTables.map_inside (h : BootTables k s) (hv : pageDirIndex v = 768)
    (hdir : pageTableIndex v ≠ k.directorySlot) (paddr : ℕ) (write : Bool) :
    BootTables k (vmmMapPage k pmmFrames paddr v write false s) ∧
      ∃ e, entryOf k (vmmMapPage k pmmFrames paddr v write false s) v =
        mapEntry paddr write false e := by
  obtain ⟨halloc, hword, hout⟩ := vmmMapPage_higherHalf pmmFrames h.shared hv paddr write
  have hphys : ∀ f i, f ≠ k.higherHalf ∨ i = k.directorySlot →
      (vmmMapPage k pmmFrames paddr v write false s).phys f i = s.phys f i := by
    intro f i hfi
    apply hout
    apply hfi.imp_right
    rintro rfl
    exact ⟨hdir.symm, h.slot_ne⟩
  have hdirectory : (vmmMapPage k pmmFrames paddr v write false s).directory k = s.directory k :=
    congrArg entryFrame (hphys _ _ (.inr rfl))
  have hslots : ∀ d, (vmmMapPage k pmmFrames paddr v write false s).slot k d = s.slot k d := by
    intro d
    rw [Vmm.slot, hdirectory]
    exact hphys _ _ (.inl h.directory_ne)
  refine ⟨⟨⟨h.slot_ne, ?_, ?_, ?_, ?_⟩, ?_⟩,
    (s.mapWindow k k.higherHalf).windowEntry k (pageTableIndex v), ?_⟩
  · rw [hdirectory]
    exact h.directory_ne
  · rw [hdirectory, halloc]
    exact h.directory
  · rw [halloc]
    exact h.higherHalf
  · intro d hd hd768
    rw [Vmm.table, hslots, hdirectory]
    exact h.tables d hd hd768
  · rw [Vmm.table, hslots]
    exact h.shared
  · have hslot : (vmmMapPage k pmmFrames paddr v write false s).slot k (pageDirIndex v) =
        s.slot k 768 := by rw [hv, hslots]
    rw [entryOf, pageEntry_of_slot_present (by rw [hslot]; exact h.shared.1), Vmm.table, hslot]
    exact (congrFun (congrArg _ h.shared.2) _).trans hword

/-- INTERNAL: **one page of the bitmap**, whatever frames there are for its table.
SRCLINE: vmm.c:70-118 -/
theorem BootTables.map (h : BootTables k s)
    (hdir : ¬ (pageDirIndex v = 768 ∧ pageTableIndex v = k.directorySlot)) (paddr : ℕ)
    (write : Bool) :
    BootTables k (vmmMapPage k pmmFrames paddr v write false s) ∧
      ∃ e, entryOf k (vmmMapPage k pmmFrames paddr v write false s) v =
        mapEntry paddr write false e := by
  by_cases hv : pageDirIndex v = 768
  · exact h.map_inside hv (fun hi => hdir ⟨hv, hi⟩) paddr write
  · exact h.map_outside hv paddr write

/-- INTERNAL: the identity mapping goes, and the entries outside slot 0 stay.
SRCLINE: vmm.c:190 -/
theorem BootTables.dropIdentity (h : BootTables k s) :
    entryOf k (s.setDirectoryEntry k 0 0) v =
      if pageDirIndex v = 0 then 0 else entryOf k s v := by
  have hslot := slot_setDirectoryEntry (v := 0) (e := 0) h.directory_ne (pageDirIndex v)
  have hzero : pageDirIndex 0 = 0 := rfl
  rw [hzero] at hslot
  unfold entryOf
  split
  next hv =>
    apply pageEntry_of_slot_absent
    rw [hslot, if_pos hv]
    rfl
  next hv =>
    rw [if_neg hv] at hslot
    unfold pageEntry Vmm.table
    rw [hslot]
    split
    next hpres =>
      apply setDirectoryEntry_phys_of_ne
      by_cases hv768 : pageDirIndex v = 768
      · rw [hv768]
        exact fun heq => h.directory_ne (heq.symm.trans h.shared.2)
      · exact (h.tables _ (pageDirIndex_lt v) hv768 hpres).1
    next => rfl

/-! ## The loop -/

/-- The bitmap does not lie over `kernel_page_directory`. -/
def OffDirectory (k : KernelLayout) (bitmap n : ℕ) : Prop :=
  ∀ i < n, ¬ (pageDirIndex (bitmapPage bitmap i) = 768 ∧
    pageTableIndex (bitmapPage bitmap i) = k.directorySlot)

/-- INTERNAL: the tables stand after every page. -/
theorem BootTables.mapBitmap (h : BootTables k s) {bitmap n : ℕ} (hoff : OffDirectory k bitmap n) :
    BootTables k (mapBitmap k pmmFrames bitmap n s) := by
  induction n with
  | zero => exact h
  | succ n ih =>
      have hprev := ih fun i hi => hoff i (Nat.lt_succ_of_lt hi)
      exact (hprev.map (hoff n (Nat.lt_succ_self n)) bitmap true).1

/-- INTERNAL: the last page shows the first page of the bitmap, or nothing. -/
theorem BootTables.lastPage (h : BootTables k s) {bitmap n : ℕ} (halign : bitmap % 4096 = 0)
    (hlt : bitmap < 2 ^ 32) (hoff : OffDirectory k bitmap (n + 1)) :
    physByte k ((Vmm.mapBitmap k pmmFrames bitmap (n + 1) s).setDirectoryEntry k 0 0)
        (bitmapPage bitmap n) =
      if pageDirIndex (bitmapPage bitmap n) = 0 then none else some bitmap := by
  have hprev := h.mapBitmap (n := n) fun i hi => hoff i (Nat.lt_succ_of_lt hi)
  obtain ⟨hnext, e, hentry⟩ := hprev.map (hoff n (Nat.lt_succ_self n)) bitmap true
  have hpage : bitmapPage bitmap n % 0x1000 = 0 := by
    unfold bitmapPage add32 mul32
    omega
  rw [physByte, Vmm.mapBitmap, hnext.dropIdentity]
  split
  next => rfl
  next =>
    rw [hentry, if_pos (mapEntry_present _ _ _ _), hpage,
      (mapEntry_spec e true false (Nat.dvd_of_mod_eq_zero halign) hlt).2]
    rfl

/-- INTERNAL: a byte of a page. -/
theorem physByte_offset {α : Type} (s : Vmm α) {j : ℕ} (hpage : v % 0x1000 = 0) (hv : v < 2 ^ 32)
    (hj : j < 0x1000) : physByte k s (add32 v j) = (physByte k s v).map (· + j) := by
  have hadd : add32 v j = v + j := add32_eq (by omega)
  have hd : pageDirIndex (v + j) = pageDirIndex v := by
    unfold pageDirIndex
    omega
  have hi : pageTableIndex (v + j) = pageTableIndex v := by
    unfold pageTableIndex
    omega
  have hmod : (v + j) % 0x1000 = j := by omega
  unfold physByte entryOf
  rw [hadd, hd, hi, hmod, hpage]
  dsimp only
  split
  next => rfl
  next => rfl

theorem bitmapPages_le_one {bitmapLen : ℕ} (h : bitmapLen ≤ 32768) (hpos : 0 < bitmapLen) :
    bitmapPages bitmapLen = 1 ∧ bitmapSize bitmapLen ≤ 4096 := by
  unfold bitmapPages bitmapSize
  split <;> split <;> omega

/-- INTERNAL: the last page of a larger bitmap begins with a byte of the bitmap. -/
theorem bitmapPages_gt_one {bitmapLen : ℕ} (h : 32768 < bitmapLen) (hlt : bitmapLen < 2 ^ 32) :
    ∃ n, bitmapPages bitmapLen = n + 1 ∧ 0 < n * 4096 ∧ n * 4096 < bitmapSize bitmapLen ∧
      n * 4096 < 2 ^ 32 := by
  refine ⟨bitmapPages bitmapLen - 1, ?_⟩
  unfold bitmapPages bitmapSize
  split <;> split <;> omega

/-- INTERNAL: blocks have bits of their own where bytes stay apart. -/
theorem BitmapKept.of_byte {α : Type} {s : Vmm α} {bitmap bitmap' bitmapLen : ℕ}
    (h : ∀ j < bitmapSize bitmapLen, physByte k s (add32 bitmap' j) = some (bitmap + j)) :
    BitmapKept k s bitmap bitmap' bitmapLen := by
  have hsize : ∀ a < bitmapLen, a / 8 < bitmapSize bitmapLen := by
    intro a ha
    unfold bitmapSize
    split <;> omega
  refine ⟨h, fun a ha b hb hbyte hmod => ?_⟩
  rw [h _ (hsize a ha), h _ (hsize b hb)] at hbyte
  have hdiv : bitmap + a / 8 = bitmap + b / 8 := Option.some.inj hbyte
  omega

/-- INTERNAL: a bitmap of one page. -/
theorem BootTables.kept_of_one (h : BootTables k s) {bitmap bitmapLen : ℕ}
    (halign : bitmap % 4096 = 0) (hlt : bitmap < 2 ^ 32) (hoff : OffDirectory k bitmap 1)
    (hsize : bitmapSize bitmapLen ≤ 4096) (hslot : pageDirIndex (bitmapPage bitmap 0) ≠ 0) :
    BitmapKept k ((Vmm.mapBitmap k pmmFrames bitmap 1 s).setDirectoryEntry k 0 0) bitmap
      (add32 bitmap 0xC0000000) bitmapLen := by
  have hfirst := h.lastPage (n := 0) halign hlt hoff
  rw [if_neg hslot] at hfirst
  have haddr : bitmapPage bitmap 0 = add32 bitmap 0xC0000000 := by
    unfold bitmapPage add32 mul32
    omega
  apply BitmapKept.of_byte
  intro j hj
  rw [physByte_offset _ _ (add32_lt _ _) (hj.trans_le hsize), ← haddr, hfirst]
  · rfl
  · unfold add32
    omega

/-- INTERNAL: a bitmap of more than one page. -/
theorem BootTables.not_kept (h : BootTables k s) {bitmap bitmapLen : ℕ}
    (halign : bitmap % 4096 = 0) (hlt : bitmap < 2 ^ 32) (hlen : bitmapLen < 2 ^ 32)
    (hoff : OffDirectory k bitmap (bitmapPages bitmapLen)) (hlarge : 32768 < bitmapLen) :
    ¬ BitmapKept k
      ((Vmm.mapBitmap k pmmFrames bitmap (bitmapPages bitmapLen) s).setDirectoryEntry k 0 0)
      bitmap (add32 bitmap 0xC0000000) bitmapLen := by
  obtain ⟨n, hpages, hpos, hbyte, hn⟩ := bitmapPages_gt_one hlarge hlen
  intro hkept
  have hlast := h.lastPage halign hlt (hpages ▸ hoff)
  have hbacked := hkept.byte _ hbyte
  rw [hpages, ← mul32_eq hn, ← bitmapPage, hlast, mul32_eq hn] at hbacked
  split at hbacked
  next => exact absurd hbacked (Option.some_ne_none _).symm
  next =>
    have hsame : bitmap = bitmap + n * 4096 := Option.some.inj hbacked
    omega

/-- **The bitmap in the higher half.**  `VMM_init` moves `bitmap` so that its bytes stay
where they were and no two blocks share a bit if and only if the bitmap has one page at
most and this page is not in the slot that the function clears.
SRCLINE: vmm.c:170-195 -/
theorem bitmap_kept_iff (h : BootTables k s) {bitmap bitmapLen : ℕ} (halign : bitmap % 4096 = 0)
    (hlt : bitmap < 2 ^ 32) (hlen : bitmapLen < 2 ^ 32)
    (hoff : OffDirectory k bitmap (bitmapPages bitmapLen)) :
    ∃ bitmap' s', vmmInit k pmmFrames bitmap bitmapLen s = some (bitmap', s') ∧
      (BitmapKept k s' bitmap bitmap' bitmapLen ↔ OnePageBitmap bitmap bitmapLen) := by
  refine ⟨_, _, if_neg (not_not.mpr halign), ?_, ?_⟩
  · intro hkept
    have hsmall : bitmapLen ≤ 32768 := by
      by_contra hlarge
      exact h.not_kept halign hlt hlen hoff (not_le.mp hlarge) hkept
    refine ⟨hsmall, fun hpos hslot => ?_⟩
    obtain ⟨hpages, -⟩ := bitmapPages_le_one hsmall hpos
    rw [hpages] at hoff hkept
    have hfirst := h.lastPage (n := 0) halign hlt hoff
    have hbyte := hkept.byte 0 (by unfold bitmapSize; split <;> omega)
    have haddr : add32 (add32 bitmap 0xC0000000) 0 = bitmapPage bitmap 0 := rfl
    rw [if_pos hslot] at hfirst
    rw [haddr, hfirst] at hbyte
    exact absurd hbyte (Option.some_ne_none _).symm
  · rintro ⟨hsmall, hslot⟩
    cases bitmapLen with
    | zero => exact BitmapKept.of_byte fun j hj => absurd hj (Nat.not_lt_zero j)
    | succ n =>
        obtain ⟨hpages, hsize⟩ := bitmapPages_le_one hsmall n.succ_pos
        rw [hpages] at hoff ⊢
        exact h.kept_of_one halign hlt hoff hsize (hslot n.succ_pos)

/-! ## One block too many -/

theorem nestedProcess_bootTables : BootTables twoFrames nestedProcess.vmm where
  toStands := nestedProcess_zeroFree.toApartFromZero.stands
  shared := nestedProcess_zeroFree.wellMapped.higherHalf

/-- A bitmap of one byte at 4 MiB. -/
theorem bitmap_kept_iff_one :
    ∃ bitmap' s', vmmInit twoFrames pmmFrames 0x400000 8 nestedProcess.vmm =
        some (bitmap', s') ∧
      (BitmapKept twoFrames s' 0x400000 bitmap' 8 ↔ OnePageBitmap 0x400000 8) :=
  bitmap_kept_iff nestedProcess_bootTables (by decide) (by decide) (by decide)
    (by unfold OffDirectory; decide)

/-- A machine with one block more than a page of the bitmap has bits: block 32768 shares
its bit with block 0. -/
theorem bitmap_page_aliased :
    ¬ ∀ (k : KernelLayout) (s : Vmm Pmm) (bitmap bitmapLen bitmap' : ℕ) (s' : Vmm Pmm),
      BootTables k s → bitmap % 4096 = 0 → bitmap < 2 ^ 32 → bitmapLen < 2 ^ 32 →
      OffDirectory k bitmap (bitmapPages bitmapLen) →
      vmmInit k pmmFrames bitmap bitmapLen s = some (bitmap', s') →
        BitmapKept k s' bitmap bitmap' bitmapLen := by
  intro hclaim
  have hoff : OffDirectory twoFrames 0x400000 (bitmapPages 32769) := by
    unfold OffDirectory
    decide
  apply nestedProcess_bootTables.not_kept (by decide) (by decide) (by decide) hoff (by decide)
  exact hclaim _ _ _ _ _ _ nestedProcess_bootTables (by decide) (by decide) (by decide) hoff rfl

end LakeOS.Analysis
