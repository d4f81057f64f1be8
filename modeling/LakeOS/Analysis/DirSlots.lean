import LakeOS.Analysis.FatContents
import LakeOS.Model.FatEntries

/-!
# The entries of a directory

Where `FAT_dir_entry` reads the entries of a directory: behind the tables for the root, in
the clusters of its chain for any other.  Entries lie apart from each other and from the
tables.  The root is scanned up to one entry for each byte of a sector.
-/

set_option autoImplicit false

namespace LakeOS.Analysis

open LakeOS.Library LakeOS.Model

/-- A volume of less than 2 GiB with the widths and the sector sizes of the boot sector.
SRCLINE: fat.h:33-41 -/
structure SectorLayout (ctx : FatContext) : Prop extends FatLayout ctx where
  widths : ctx.bootSector.numSectors < 2 ^ 16 ∧ ctx.bootSector.sectorsPerCluster < 2 ^ 8
  sector : ctx.bootSector.bytesPerSector ∈ [512, 1024, 2048, 4096]
  size : volumeSize ctx < 2 ^ 31

/-- The clusters of a directory, none for the root. -/
def DirClusters (ctx : FatContext) (d : Disk) (start : ℕ) (cs : List ℕ) : Prop :=
  start < 2 ∧ cs = [] ∨ cs.head? = some start ∧ FatChain ctx d cs

/-- The number of entries that `FAT_dir_entry` reads. -/
def slotCount (ctx : FatContext) (cs : List ℕ) : ℕ :=
  if cs = [] then ctx.bootSector.bytesPerSector + 1
  else cs.length * ctx.bytesPClus / sizeofShortDirEntry

/-- The address of an entry. -/
def slotStart (ctx : FatContext) (cs : List ℕ) (k : ℕ) : ℕ :=
  let offset := k * sizeofShortDirEntry
  if cs = [] then fatStart ctx + ctx.bootSector.numFat * fatBytes ctx + offset
  else clusterStart ctx (cs.getD (offset / ctx.bytesPClus) 0) + offset % ctx.bytesPClus

/-- The bytes of an entry. -/
def dirSlot (ctx : FatContext) (cs : List ℕ) (d : Disk) (k : ℕ) : List Byte :=
  d.read (slotStart ctx cs k) sizeofShortDirEntry

variable {ctx : FatContext} {d d' : Disk} {start k : ℕ} {cs : List ℕ} {junk : Uninit}

@[simp] theorem length_dirSlot (ctx : FatContext) (cs : List ℕ) (d : Disk) (k : ℕ) :
    (dirSlot ctx cs d k).length = 32 :=
  Store.length_read _ _ _

namespace SectorLayout

variable (h : SectorLayout ctx)
include h

theorem bps_bounds :
    512 ≤ ctx.bootSector.bytesPerSector ∧ ctx.bootSector.bytesPerSector ≤ 4096 := by
  have hsector := h.sector
  simp only [List.mem_cons, List.not_mem_nil, or_false] at hsector
  omega

omit h in
/-- `num_sectors` counts no more sectors than that. -/
theorem of_fields (h : FatLayout ctx) (hfields : FieldsFit ctx)
    (hsector : ctx.bootSector.bytesPerSector ∈ [512, 1024, 2048, 4096]) : SectorLayout ctx where
  toFatLayout := h
  widths := hfields.2
  sector := hsector
  size := by
    simp only [List.mem_cons, List.not_mem_nil, or_false] at hsector
    have hmul := Nat.mul_le_mul hfields.2.1.le
      (show ctx.bootSector.bytesPerSector ≤ 4096 by omega)
    rw [hfields.volumeSize_eq]
    omega

/-- A cluster is a whole number of entries. -/
theorem entries_of_cluster :
    ∃ q, 16 ≤ q ∧ ctx.bytesPClus = q * sizeofShortDirEntry := by
  have hsector := h.sector
  have hbpc := h.bytesPClus
  have hpos := h.bytesPClus_pos
  rw [hbpc] at hpos
  have hspc : 1 ≤ ctx.bootSector.sectorsPerCluster := Nat.pos_of_mul_pos_right hpos
  obtain ⟨s, hs, heq⟩ : ∃ s, 16 ≤ s ∧ ctx.bootSector.bytesPerSector = s * 32 := by
    simp only [List.mem_cons, List.not_mem_nil, or_false] at hsector
    exact ⟨ctx.bootSector.bytesPerSector / 32, by omega, by omega⟩
  refine ⟨ctx.bootSector.sectorsPerCluster * s, ?_, ?_⟩
  · exact hs.trans (Nat.le_mul_of_pos_left s hspc)
  · rw [hbpc, heq, Nat.mul_assoc]

/-- The clusters of a directory end inside the volume. -/
theorem chain_bytes_lt (hchain : FatChain ctx d cs) : cs.length * ctx.bytesPClus < 2 ^ 31 := by
  have hbytes := hchain.bytes_le
  have hvolume := h.size
  omega

/-- The entries of a chain, counted in bytes. -/
theorem slotCount_mul (hne : cs ≠ []) :
    slotCount ctx cs * sizeofShortDirEntry = cs.length * ctx.bytesPClus := by
  obtain ⟨q, -, hq⟩ := h.entries_of_cluster
  rw [slotCount, if_neg hne, hq, ← Nat.mul_assoc,
    Nat.mul_div_cancel _ (show 0 < sizeofShortDirEntry by decide)]

theorem slotCount_lt (hdir : DirClusters ctx d start cs) : slotCount ctx cs < 2 ^ 26 := by
  obtain ⟨-, rfl⟩ | ⟨hhead, hchain⟩ := hdir
  · have hbps := h.bps_bounds
    rw [slotCount, if_pos rfl]
    omega
  · have hmul := h.slotCount_mul hchain.1.ne_nil
    have hlt := h.chain_bytes_lt hchain
    unfold sizeofShortDirEntry at hmul
    omega

theorem slotCount_pos (hdir : DirClusters ctx d start cs) : 0 < slotCount ctx cs := by
  obtain ⟨-, rfl⟩ | ⟨hhead, hchain⟩ := hdir
  · rw [slotCount, if_pos rfl]
    exact Nat.succ_pos _
  · have hmul := h.slotCount_mul hchain.1.ne_nil
    have hpos := Nat.mul_pos (List.length_pos_iff.mpr hchain.1.ne_nil) h.bytesPClus_pos
    exact Nat.pos_of_ne_zero fun hzero => by rw [hzero] at hmul; omega

/-- INTERNAL: where `FAT_absolute_offset` finds an entry. -/
theorem slot_offset (hdir : DirClusters ctx d start cs) (hk : k < slotCount ctx cs) :
    0 < slotStart ctx cs k ∧
      ∃ x, fatAbsoluteOffset ctx start (mul32 k sizeofShortDirEntry) d =
        some (slotStart ctx cs k, x) := by
  have hcount := h.slotCount_lt hdir
  rw [mul32_eq (show k * sizeofShortDirEntry < 2 ^ 32 by unfold sizeofShortDirEntry; omega)]
  obtain ⟨hroot, rfl⟩ | ⟨hhead, hchain⟩ := hdir
  · have hbps := h.bps_bounds
    have hlt := (h.tables.trans h.data).trans_lt h.size
    have hpos := Nat.mul_pos h.reserved h.bytesPerSector_pos
    rw [slotCount, if_pos rfl] at hk
    rw [slotStart, if_pos rfl]
    unfold sizeofShortDirEntry at *
    refine ⟨by unfold fatStart at *; omega, none, ?_⟩
    rw [fatAbsoluteOffset, if_pos hroot]
    dsimp only
    rw [mul32_eq (by omega), if_neg (by omega), h.rootDir_eq, add32_eq (by omega)]
  · obtain ⟨c, rest, rfl⟩ := List.exists_cons_of_ne_nil hchain.1.ne_nil
    obtain rfl := Option.some.inj hhead
    have hmul := h.slotCount_mul hchain.1.ne_nil
    have hlt : k * sizeofShortDirEntry < (c :: rest).length * ctx.bytesPClus := by
      rw [← hmul]
      exact Nat.mul_lt_mul_of_pos_right hk (by decide)
    have hpos := h.clusterStart_pos
      ((c :: rest).getD (k * sizeofShortDirEntry / ctx.bytesPClus) 0)
    rw [slotStart, if_neg (List.cons_ne_nil _ _)]
    exact ⟨by omega, none, fatAbsoluteOffset_inside h.toFatLayout hchain hlt⟩

/-- **The entries of a directory.** -/
theorem fatDirEntry_slot (hdir : DirClusters ctx d start cs) (hk : k < slotCount ctx cs) :
    fatDirEntry ctx junk start k d = some (0, some (dirSlot ctx cs d k)) := by
  obtain ⟨hpos, x, hoff⟩ := h.slot_offset hdir hk
  rw [fatDirEntry, hoff, Option.map_some, if_pos hpos.ne']
  rfl

/-- **The end of a directory.** -/
theorem fatDirEntry_end (hdir : DirClusters ctx d start cs)
    (hjunk : start < 2 → junk.lastFreeCluster ≠ 0) :
    ∃ fail, fail ≠ 0 ∧
      fatDirEntry ctx junk start (slotCount ctx cs) d = some (fail, none) := by
  have hcount := h.slotCount_lt hdir
  have hnowrap : mul32 (slotCount ctx cs) sizeofShortDirEntry =
      slotCount ctx cs * sizeofShortDirEntry :=
    mul32_eq (by unfold sizeofShortDirEntry; omega)
  obtain ⟨hroot, rfl⟩ | ⟨hhead, hchain⟩ := hdir
  · have hbps := h.bps_bounds
    refine ⟨junk.lastFreeCluster, hjunk hroot, ?_⟩
    rw [fatDirEntry, hnowrap, slotCount, if_pos rfl, fatAbsoluteOffset, if_pos hroot]
    dsimp only
    rw [mul32_eq (by omega), if_pos (by unfold sizeofShortDirEntry; omega)]
    rfl
  · obtain ⟨c, rest, rfl⟩ := List.exists_cons_of_ne_nil hchain.1.ne_nil
    obtain rfl := Option.some.inj hhead
    obtain ⟨last, hlast, hpast⟩ := fatAbsoluteOffset_past h.toFatLayout hchain
      (h.slotCount_mul hchain.1.ne_nil).ge
    refine ⟨last, by omega, ?_⟩
    rw [fatDirEntry, hnowrap, hpast]
    rfl

/-- An entry lies in one cluster of the chain. -/
theorem slot_in_cluster (hne : cs ≠ []) (hk : k < slotCount ctx cs) :
    ∃ hi : k * sizeofShortDirEntry / ctx.bytesPClus < cs.length,
      slotStart ctx cs k = clusterStart ctx cs[k * sizeofShortDirEntry / ctx.bytesPClus] +
        k * sizeofShortDirEntry % ctx.bytesPClus ∧
      k * sizeofShortDirEntry % ctx.bytesPClus + sizeofShortDirEntry ≤ ctx.bytesPClus := by
  have hmul := h.slotCount_mul hne
  have hlt : k * sizeofShortDirEntry < cs.length * ctx.bytesPClus := by
    rw [← hmul]
    exact Nat.mul_lt_mul_of_pos_right hk (by decide)
  have hi := (Nat.div_lt_iff_lt_mul h.bytesPClus_pos).mpr hlt
  refine ⟨hi, ?_, ?_⟩
  · rw [slotStart, if_neg hne, List.getD_eq_getElem _ _ hi]
  · obtain ⟨q, hq, hbpc⟩ := h.entries_of_cluster
    have hmod := Nat.mod_lt k (show 0 < q by omega)
    rw [hbpc, Nat.mul_mod_mul_right, ← Nat.succ_mul]
    exact Nat.mul_le_mul_right _ hmod

/-- **Entries lie apart.** -/
theorem slots_apart (hdir : DirClusters ctx d start cs) {j : ℕ} (hj : j < slotCount ctx cs)
    (hk : k < slotCount ctx cs) (hne : j ≠ k) :
    slotStart ctx cs j + 32 ≤ slotStart ctx cs k ∨
      slotStart ctx cs k + 32 ≤ slotStart ctx cs j := by
  obtain ⟨-, rfl⟩ | ⟨hhead, hchain⟩ := hdir
  · unfold slotStart sizeofShortDirEntry
    rw [if_pos rfl, if_pos rfl]
    omega
  · obtain ⟨hij, hstartj, hfitj⟩ := h.slot_in_cluster hchain.1.ne_nil hj
    obtain ⟨hik, hstartk, hfitk⟩ := h.slot_in_cluster hchain.1.ne_nil hk
    have hdivj := Nat.div_add_mod (j * sizeofShortDirEntry) ctx.bytesPClus
    have hdivk := Nat.div_add_mod (k * sizeofShortDirEntry) ctx.bytesPClus
    rw [hstartj, hstartk]
    by_cases heq : j * sizeofShortDirEntry / ctx.bytesPClus =
        k * sizeofShortDirEntry / ctx.bytesPClus
    · simp only [heq] at hdivj ⊢
      unfold sizeofShortDirEntry at *
      omega
    · -- different clusters
      have hc : cs[j * sizeofShortDirEntry / ctx.bytesPClus] ≠
          cs[k * sizeofShortDirEntry / ctx.bytesPClus] := fun hsame =>
        heq ((List.Nodup.getElem_inj_iff hchain.1.nodup).mp hsame)
      have hapart := clusterStart_apart ctx (hchain.2 _ (List.getElem_mem hij)).1
        (hchain.2 _ (List.getElem_mem hik)).1 hc
      unfold sizeofShortDirEntry at *
      omega

/-- INTERNAL: no entry lies in the tables. -/
theorem slot_not_inTables {x : ℕ} (hx : slotStart ctx cs k ≤ x) : ¬ InTables ctx x := by
  intro hin
  have hend := hin.2
  have htables := h.tables
  unfold slotStart clusterStart at hx
  dsimp only at hx
  split at hx <;> omega

end SectorLayout

end LakeOS.Analysis
