import LakeOS.Library.Extent
import LakeOS.Analysis.FatOffsets
import LakeOS.Analysis.MountSafety

/-!
# The regions of a mounted volume

The reserved sectors, the tables, the root directory and the clusters of a volume follow
each other.  Where its tables end `FAT_mount` computes from `sectors_per_fat`, which is `0`
on FAT32: there the first cluster is where the first table is.
-/

set_option autoImplicit false

namespace LakeOS.Analysis

open LakeOS.Library LakeOS.Model

/-- The clusters of a volume, counted with the tables that it has. -/
def clusterCount (d : Disk) (ctx : FatContext) : ℕ :=
  numClusters ctx.bootSector (numRootEntries d) (longSectors d) (sectorsPerFat ctx)

/-- The bytes of a volume. -/
def volumeBytes (d : Disk) (ctx : FatContext) : ℕ :=
  totalSectors ctx.bootSector (longSectors d) * ctx.bootSector.bytesPerSector

/-- A boot sector with parameters that are not zero, of a volume below 4 GiB. -/
structure ValidVolume (d : Disk) (ctx : FatContext) : Prop where
  bytesPerSector : 0 < ctx.bootSector.bytesPerSector
  sectorsPerCluster : 0 < ctx.bootSector.sectorsPerCluster
  reservedSectors : 0 < ctx.bootSector.reservedSectors
  numFat : 0 < ctx.bootSector.numFat
  perFat : 0 < sectorsPerFat ctx
  fits : overhead d (sectorsPerFat ctx) ≤ totalSectors ctx.bootSector (longSectors d)
  volume : volumeBytes d ctx < 2 ^ 32
  /-- Only FAT32 volumes keep the length of a table in the extension; they have no root
  directory in front of the data. -/
  fat32 : typeOfClusters (clusterCount d ctx) = .fat32 ↔ ctx.bootSector.sectorsPerFat = 0
  root : ctx.bootSector.sectorsPerFat = 0 → numRootEntries d = 0

/-- The bytes of a cluster. -/
def clusterExtent (ctx : FatContext) (c : ℕ) : Extent := ⟨fatClusToOff ctx c, ctx.bytesPClus⟩

/-- The bytes of a copy of the table. -/
def copyExtent (ctx : FatContext) (k : ℕ) : Extent where
  start := fatStart ctx + k * (sectorsPerFat ctx * ctx.bootSector.bytesPerSector)
  len := sectorsPerFat ctx * ctx.bootSector.bytesPerSector

/-- The bytes that an entry is read from. -/
def entryWidth (ctx : FatContext) : ℕ := if ctx.type = .fat32 then 4 else 2

/-- The entries of the clusters lie in their copy of the table, and the clusters lie apart
from each other and from everything in front of them. -/
structure VolumeLayout (d : Disk) (ctx : FatContext) : Prop where
  entries : ∀ c, 2 ≤ c → c < clusterCount d ctx + 2 → ∀ k < ctx.bootSector.numFat,
    (copyExtent ctx k).start ≤ fatEntryOffset ctx k c ∧
      fatEntryOffset ctx k c + entryWidth ctx ≤ (copyExtent ctx k).stop
  apart : ∀ c c', 2 ≤ c → c < clusterCount d ctx + 2 → 2 ≤ c' → c' < clusterCount d ctx + 2 →
    c ≠ c' → (clusterExtent ctx c).Apart (clusterExtent ctx c')
  inside : ∀ c, 2 ≤ c → c < clusterCount d ctx + 2 →
    (clusterExtent ctx c).stop ≤ volumeBytes d ctx
  reserved : ∀ c, 2 ≤ c → c < clusterCount d ctx + 2 →
    (clusterExtent ctx c).Apart ⟨0, fatStart ctx⟩
  tables : ∀ c, 2 ≤ c → c < clusterCount d ctx + 2 → ∀ k < ctx.bootSector.numFat,
    (clusterExtent ctx c).Apart (copyExtent ctx k)
  rootDir : ctx.type = .fat12 ∨ ctx.type = .fat16 →
    ∀ c, 2 ≤ c → c < clusterCount d ctx + 2 → (clusterExtent ctx c).Apart
      ⟨mul32 (rootDirSector ctx) ctx.bootSector.bytesPerSector,
        numRootEntries d * sizeofShortDirEntry⟩
  rootCluster : ctx.type = .fat32 →
    mul32 (rootDirSector ctx) ctx.bootSector.bytesPerSector = fatClusToOff ctx ctx.rootClusterNum

/-- The sectors of a table have room for an entry of every cluster. -/
def TablesSuffice (d : Disk) (ctx : FatContext) : Prop :=
  clusterCount d ctx = 0 ∨
    entryStart ctx (clusterCount d ctx + 1) + 2 ≤
      ctx.bootSector.sectorsPerFat * ctx.bootSector.bytesPerSector

section

variable {allocated c k : ℕ} {d : Disk} {ctx : FatContext}

/-- INTERNAL: what `FAT_mount` stores.
SRCLINE: fat.c:373-401 -/
theorem fatMount_fields (hmount : fatMount allocated d = some ctx) :
    ctx.bootSector = bootSectorAt d ∧
      ctx.type = fatInitType ctx.bootSector (numRootEntries d) (longSectors d) allocated ∧
      ctx.dataRegionStart = mul32 (add32 (add32 ctx.bootSector.reservedSectors
        (mul32 ctx.bootSector.numFat ctx.bootSector.sectorsPerFat))
          (rootSectors ctx.bootSector.bytesPerSector (numRootEntries d)))
            ctx.bootSector.bytesPerSector ∧
      ctx.bytesPClus = mul32 ctx.bootSector.sectorsPerCluster ctx.bootSector.bytesPerSector := by
  unfold fatMount at hmount
  split at hmount
  · cases hmount
  · cases hmount
    exact ⟨rfl, rfl, rfl, rfl⟩

namespace ValidVolume

/-- INTERNAL: nothing in front of the data region wraps around. -/
theorem overhead_lt (h : ValidVolume d ctx) :
    overhead d (sectorsPerFat ctx) * ctx.bootSector.bytesPerSector ≤ volumeBytes d ctx :=
  Nat.mul_le_mul_right _ h.fits

theorem lt_of_le {x : ℕ} (h : ValidVolume d ctx)
    (hx : x ≤ overhead d (sectorsPerFat ctx)) : x < 2 ^ 32 := by
  have hover := h.overhead_lt
  have hvolume := h.volume
  have hmul := Nat.le_mul_of_pos_right (overhead d (sectorsPerFat ctx)) h.bytesPerSector
  omega

theorem mul_lt_of_le {x : ℕ} (h : ValidVolume d ctx)
    (hx : x ≤ overhead d (sectorsPerFat ctx)) : x * ctx.bootSector.bytesPerSector < 2 ^ 32 :=
  Nat.lt_of_le_of_lt ((Nat.mul_le_mul_right _ hx).trans h.overhead_lt) h.volume

end ValidVolume

theorem overhead_eq (hboot : ctx.bootSector = bootSectorAt d) (n : ℕ) :
    overhead d n = ctx.bootSector.reservedSectors + n * ctx.bootSector.numFat +
      rootSectors ctx.bootSector.bytesPerSector (numRootEntries d) := by
  rw [hboot]
  rfl

/-- INTERNAL: the number of clusters, without wrap-around. -/
theorem clusterCount_eq (h : ValidVolume d ctx) (hboot : ctx.bootSector = bootSectorAt d) :
    clusterCount d ctx =
      (totalSectors ctx.bootSector (longSectors d) - overhead d (sectorsPerFat ctx)) /
        ctx.bootSector.sectorsPerCluster := by
  have hover := overhead_eq hboot (sectorsPerFat ctx)
  have htotal := totalSectors_lt d
  rw [← hboot] at htotal
  have hmul : mul32 (sectorsPerFat ctx) ctx.bootSector.numFat =
      sectorsPerFat ctx * ctx.bootSector.numFat := mul32_eq (h.lt_of_le (by omega))
  have hadd : add32 ctx.bootSector.reservedSectors (sectorsPerFat ctx * ctx.bootSector.numFat) =
      ctx.bootSector.reservedSectors + sectorsPerFat ctx * ctx.bootSector.numFat :=
    add32_eq (h.lt_of_le (by omega))
  have hsum : overheadSectors ctx.bootSector (numRootEntries d) (sectorsPerFat ctx) =
      overhead d (sectorsPerFat ctx) := by
    unfold overheadSectors
    rw [hmul, hadd, hover]
    exact add32_eq (h.lt_of_le (by omega))
  rw [clusterCount, numClusters, hsum, sub32_eq h.fits htotal]

/-- INTERNAL: the clusters lie inside the volume. -/
theorem clusters_inside (h : ValidVolume d ctx) (hboot : ctx.bootSector = bootSectorAt d) :
    overhead d (sectorsPerFat ctx) * ctx.bootSector.bytesPerSector + clusterCount d ctx *
      (ctx.bootSector.sectorsPerCluster * ctx.bootSector.bytesPerSector) ≤ volumeBytes d ctx := by
  have hdiv := Nat.div_mul_le_self
    (totalSectors ctx.bootSector (longSectors d) - overhead d (sectorsPerFat ctx))
    ctx.bootSector.sectorsPerCluster
  have hfits := h.fits
  rw [← clusterCount_eq h hboot] at hdiv
  rw [← Nat.mul_assoc, ← Nat.add_mul]
  apply Nat.mul_le_mul_right
  omega

/-- INTERNAL: a cluster has its bytes. -/
theorem bytesPClus_eq (h : ValidVolume d ctx) (hmount : fatMount allocated d = some ctx)
    (hpos : 0 < clusterCount d ctx) :
    ctx.bytesPClus = ctx.bootSector.sectorsPerCluster * ctx.bootSector.bytesPerSector := by
  obtain ⟨hboot, -, -, hbytes⟩ := fatMount_fields hmount
  have hinside := clusters_inside h hboot
  have hvolume := h.volume
  have hone := Nat.le_mul_of_pos_left
    (ctx.bootSector.sectorsPerCluster * ctx.bootSector.bytesPerSector) hpos
  rw [hbytes]
  exact mul32_eq (by omega)

/-- INTERNAL: where a cluster begins, if the data region begins behind everything else.
SRCLINE: fat.c:477-483 -/
theorem fatClusToOff_valid (h : ValidVolume d ctx) (hmount : fatMount allocated d = some ctx)
    (hstart : ctx.dataRegionStart =
      overhead d (sectorsPerFat ctx) * ctx.bootSector.bytesPerSector)
    (hc : 2 ≤ c) (hlt : c < clusterCount d ctx + 2) :
    fatClusToOff ctx c = clusterStart ctx c ∧
      clusterStart ctx c + ctx.bytesPClus ≤ volumeBytes d ctx := by
  have hbytes := bytesPClus_eq h hmount (by omega)
  have hinside := clusters_inside h (fatMount_fields hmount).1
  have hvolume := h.volume
  have hle := Nat.mul_le_mul_right ctx.bytesPClus (show c - 2 + 1 ≤ clusterCount d ctx by omega)
  rw [Nat.succ_mul] at hle
  rw [← hbytes, ← hstart] at hinside
  have hassoc : (c - 2) * ctx.bootSector.sectorsPerCluster * ctx.bootSector.bytesPerSector =
      (c - 2) * ctx.bytesPClus := by
    rw [hbytes, Nat.mul_assoc]
  have hfactor := Nat.le_mul_of_pos_right ((c - 2) * ctx.bootSector.sectorsPerCluster)
    h.bytesPerSector
  have hnum : c - 2 ≤ (c - 2) * ctx.bootSector.sectorsPerCluster :=
    Nat.le_mul_of_pos_right _ h.sectorsPerCluster
  unfold clusterStart
  have hsmall : c < 2 ^ 32 := by
    have hbound : (c - 2) + ctx.bytesPClus < 2 ^ 32 := by omega
    have hpos := Nat.mul_pos h.sectorsPerCluster h.bytesPerSector
    rw [← hbytes] at hpos
    have hmore : ctx.dataRegionStart ≠ 0 := by
      have hres := h.reservedSectors
      have hover := overhead_eq (fatMount_fields hmount).1 (sectorsPerFat ctx)
      rw [hstart]
      apply Nat.mul_ne_zero
      · omega
      · exact h.bytesPerSector.ne'
    omega
  have hsub : sub32 c 2 = c - 2 := sub32_eq hc hsmall
  have hinner : mul32 (c - 2) ctx.bootSector.sectorsPerCluster =
      (c - 2) * ctx.bootSector.sectorsPerCluster := mul32_eq (by omega)
  refine ⟨?_, by omega⟩
  rw [fatClusToOff, if_pos (by omega), hsub, hinner, mul32_eq (by omega), hassoc,
    add32_eq (by omega)]

/-! ## FAT12 and FAT16 -/

/-- INTERNAL: a volume with tables of its own length has the type of its clusters, whatever
the context held. -/
theorem type_eq (hmount : fatMount allocated d = some ctx)
    (hspf : ctx.bootSector.sectorsPerFat ≠ 0) :
    ctx.type = typeOfClusters (clusterCount d ctx) := by
  obtain ⟨-, htype, -, -⟩ := fatMount_fields hmount
  have hper : sectorsPerFat ctx = ctx.bootSector.sectorsPerFat := if_pos hspf
  rw [htype, fatInitType_eq, if_pos hspf, clusterCount, hper]

/-- INTERNAL: the sectors in front of the root directory, without wrap-around. -/
theorem tableSectors_eq (h : ValidVolume d ctx) (hboot : ctx.bootSector = bootSectorAt d) :
    add32 ctx.bootSector.reservedSectors (mul32 ctx.bootSector.numFat (sectorsPerFat ctx)) =
      ctx.bootSector.reservedSectors + sectorsPerFat ctx * ctx.bootSector.numFat := by
  have hover := overhead_eq hboot (sectorsPerFat ctx)
  have hcomm := Nat.mul_comm ctx.bootSector.numFat (sectorsPerFat ctx)
  have hmul : mul32 ctx.bootSector.numFat (sectorsPerFat ctx) =
      ctx.bootSector.numFat * sectorsPerFat ctx := mul32_eq (h.lt_of_le (by omega))
  rw [hmul, hcomm]
  exact add32_eq (h.lt_of_le (by omega))

/-- INTERNAL: its data region begins behind the root directory. -/
theorem dataRegionStart_eq (h : ValidVolume d ctx) (hmount : fatMount allocated d = some ctx)
    (hspf : ctx.bootSector.sectorsPerFat ≠ 0) :
    ctx.dataRegionStart = overhead d (sectorsPerFat ctx) * ctx.bootSector.bytesPerSector := by
  obtain ⟨hboot, -, hdata, -⟩ := fatMount_fields hmount
  have hper : sectorsPerFat ctx = ctx.bootSector.sectorsPerFat := if_pos hspf
  have hover := overhead_eq hboot (sectorsPerFat ctx)
  rw [hdata, ← hper, tableSectors_eq h hboot, add32_eq (h.lt_of_le (by omega)), ← hover]
  exact mul32_eq (h.mul_lt_of_le (Nat.le_refl _))

/-- INTERNAL: the sectors of the tables end in front of the root directory. -/
theorem copy_stop_le (hk : k < ctx.bootSector.numFat) :
    (copyExtent ctx k).stop ≤
      (ctx.bootSector.reservedSectors + sectorsPerFat ctx * ctx.bootSector.numFat) *
        ctx.bootSector.bytesPerSector := by
  have hle := Nat.mul_le_mul_right (sectorsPerFat ctx * ctx.bootSector.bytesPerSector)
    (Nat.succ_le_of_lt hk)
  rw [Nat.succ_mul] at hle
  have hassoc : (ctx.bootSector.reservedSectors +
      sectorsPerFat ctx * ctx.bootSector.numFat) * ctx.bootSector.bytesPerSector =
        fatStart ctx + ctx.bootSector.numFat *
          (sectorsPerFat ctx * ctx.bootSector.bytesPerSector) := by
    unfold fatStart
    ring
  rw [hassoc]
  unfold Extent.stop copyExtent
  dsimp only
  omega

/-- INTERNAL: the root directory begins behind the tables. -/
theorem rootDir_valid (h : ValidVolume d ctx) (hboot : ctx.bootSector = bootSectorAt d)
    (hspf : ctx.bootSector.sectorsPerFat ≠ 0) (htype : ctx.type = .fat12 ∨ ctx.type = .fat16) :
    mul32 (rootDirSector ctx) ctx.bootSector.bytesPerSector =
      (ctx.bootSector.reservedSectors + sectorsPerFat ctx * ctx.bootSector.numFat) *
        ctx.bootSector.bytesPerSector := by
  have hper : sectorsPerFat ctx = ctx.bootSector.sectorsPerFat := if_pos hspf
  have hover := overhead_eq hboot (sectorsPerFat ctx)
  have hsector : rootDirSector ctx =
      ctx.bootSector.reservedSectors + sectorsPerFat ctx * ctx.bootSector.numFat := by
    unfold rootDirSector
    rcases htype with htype | htype
    · rw [htype, ← hper, tableSectors_eq h hboot]
    · rw [htype, ← hper, tableSectors_eq h hboot]
  rw [hsector]
  exact mul32_eq (h.mul_lt_of_le (by omega))

/-- INTERNAL: the place of an entry in its table, without wrap-around. -/
theorem fatGetOffset_eq_entryStart (htype : ctx.type = .fat12 ∨ ctx.type = .fat16)
    (hlt : entryStart ctx c < 2 ^ 32) : fatGetOffset ctx c = entryStart ctx c := by
  unfold fatGetOffset entryStart at *
  rcases htype with htype | htype
  · rw [htype] at hlt ⊢
    exact add32_eq hlt
  · rw [htype] at hlt ⊢
    exact mul32_eq hlt

/-- INTERNAL: where an entry lies, if it ends before the addresses wrap around. -/
theorem fatEntryOffset_valid (htype : ctx.type = .fat12 ∨ ctx.type = .fat16)
    (hlt : (copyExtent ctx k).start + entryStart ctx c < 2 ^ 32) :
    fatEntryOffset ctx k c = (copyExtent ctx k).start + entryStart ctx c := by
  have hoffset := fatGetOffset_eq_entryStart htype (c := c) (by omega)
  exact fatEntryOffset_eq_of_lt hoffset hlt

/-- INTERNAL: an offset that wraps around lies below the first copy. -/
theorem fatEntryOffset_wraps (htype : ctx.type = .fat12 ∨ ctx.type = .fat16)
    (hstop : (copyExtent ctx 0).stop < 2 ^ 32) (hlt : entryStart ctx c < 2 ^ 32)
    (hwrap : 2 ^ 32 ≤ (copyExtent ctx 0).start + entryStart ctx c) :
    fatEntryOffset ctx 0 c < (copyExtent ctx 0).start := by
  have hfirst : (copyExtent ctx 0).start = fatStart ctx := by
    simp [copyExtent]
  have hsmall : fatStart ctx < 2 ^ 32 := by
    unfold Extent.stop at hstop
    omega
  have hstart : mul32 ctx.bootSector.reservedSectors ctx.bootSector.bytesPerSector =
      fatStart ctx := mul32_eq hsmall
  have hzero : mul32 (mul32 0 (sectorsPerFat ctx)) ctx.bootSector.bytesPerSector = 0 := by
    simp [mul32]
  have hsum : fatEntryOffset ctx 0 c = add32 (add32 (fatStart ctx) 0) (entryStart ctx c) := by
    simp only [fatEntryOffset, hstart, hzero, fatGetOffset_eq_entryStart htype hlt]
  rw [hfirst] at hwrap ⊢
  rw [hsum]
  unfold add32
  omega

theorem entryStart_mono {c c' : ℕ} (hle : c ≤ c') : entryStart ctx c ≤ entryStart ctx c' := by
  unfold entryStart
  cases ctx.type with
  | fat12 =>
      dsimp only
      omega
  | _ =>
      dsimp only
      omega

theorem entryWidth_eq (htype : ctx.type = .fat12 ∨ ctx.type = .fat16) : entryWidth ctx = 2 := by
  unfold entryWidth
  rcases htype with htype | htype
  · simp [htype]
  · simp [htype]

theorem copy_stop_lt (h : ValidVolume d ctx) (hboot : ctx.bootSector = bootSectorAt d)
    (hk : k < ctx.bootSector.numFat) : (copyExtent ctx k).stop < 2 ^ 32 := by
  refine Nat.lt_of_le_of_lt (copy_stop_le hk) (h.mul_lt_of_le ?_)
  rw [overhead_eq hboot]
  exact Nat.le_add_right _ _

/-- INTERNAL: a volume with few clusters has short tables. -/
theorem entryStart_last_lt (hmount : fatMount allocated d = some ctx)
    (hspf : ctx.bootSector.sectorsPerFat ≠ 0) (htype : ctx.type = .fat12 ∨ ctx.type = .fat16) :
    entryStart ctx (clusterCount d ctx + 1) < 2 ^ 32 := by
  have hclusters := type_eq hmount hspf
  have hcount : clusterCount d ctx < 65525 := by
    by_contra hge
    rw [typeOfClusters, if_neg (by omega), if_neg (by omega)] at hclusters
    rcases htype with htype | htype
    · simp [htype] at hclusters
    · simp [htype] at hclusters
  unfold entryStart
  rcases htype with htype | htype
  · rw [htype]
    dsimp only
    omega
  · rw [htype]
    dsimp only
    omega

/-- INTERNAL: the entries lie in their copy if the last one lies in the first copy. -/
theorem entries_iff (h : ValidVolume d ctx) (hmount : fatMount allocated d = some ctx)
    (hspf : ctx.bootSector.sectorsPerFat ≠ 0) (htype : ctx.type = .fat12 ∨ ctx.type = .fat16) :
    (∀ c, 2 ≤ c → c < clusterCount d ctx + 2 → ∀ k < ctx.bootSector.numFat,
      (copyExtent ctx k).start ≤ fatEntryOffset ctx k c ∧
        fatEntryOffset ctx k c + entryWidth ctx ≤ (copyExtent ctx k).stop) ↔
      TablesSuffice d ctx := by
  obtain ⟨hboot, -, -, -⟩ := fatMount_fields hmount
  have hper : sectorsPerFat ctx = ctx.bootSector.sectorsPerFat := if_pos hspf
  have hwidth := entryWidth_eq htype
  have hlen : ∀ k, (copyExtent ctx k).stop = (copyExtent ctx k).start +
      sectorsPerFat ctx * ctx.bootSector.bytesPerSector := fun _ => rfl
  constructor
  · intro hall
    by_cases hzero : clusterCount d ctx = 0
    · exact .inl hzero
    · right
      obtain ⟨hfirst, hlast⟩ :=
        hall (clusterCount d ctx + 1) (by omega) (by omega) 0 h.numFat
      have hsmall := entryStart_last_lt hmount hspf htype
      have hnowrap : (copyExtent ctx 0).start + entryStart ctx (clusterCount d ctx + 1) <
          2 ^ 32 := by
        by_contra hwrap
        have hbelow := fatEntryOffset_wraps htype (copy_stop_lt h hboot h.numFat) hsmall
          (not_lt.mp hwrap)
        omega
      rw [fatEntryOffset_valid htype hnowrap, hwidth, hlen, hper] at hlast
      omega
  · intro hsuffice c hc hlt k hk
    have hstop := copy_stop_lt h hboot hk
    have hmono : entryStart ctx c ≤ entryStart ctx (clusterCount d ctx + 1) :=
      entryStart_mono (by omega)
    have hroom : entryStart ctx c + 2 ≤
        sectorsPerFat ctx * ctx.bootSector.bytesPerSector := by
      rcases hsuffice with hzero | hle
      · omega
      · rw [hper]
        omega
    rw [hlen] at hstop ⊢
    rw [fatEntryOffset_valid htype (by omega), hwidth]
    omega

/-- INTERNAL: a volume with tables of its own length is no FAT32 volume. -/
theorem type_of_tables (h : ValidVolume d ctx) (hmount : fatMount allocated d = some ctx)
    (hspf : ctx.bootSector.sectorsPerFat ≠ 0) : ctx.type = .fat12 ∨ ctx.type = .fat16 := by
  have hnot : typeOfClusters (clusterCount d ctx) ≠ .fat32 := fun h32 => hspf (h.fat32.mp h32)
  rw [type_eq hmount hspf]
  unfold typeOfClusters at *
  split
  · exact .inl rfl
  · split
    · exact .inr rfl
    · rename_i h12 h16
      simp [h12, h16] at hnot

/-- INTERNAL: the entries of the root directory lie in its sectors. -/
theorem rootEntries_le (h : ValidVolume d ctx) :
    numRootEntries d * sizeofShortDirEntry ≤
      rootSectors ctx.bootSector.bytesPerSector (numRootEntries d) *
        ctx.bootSector.bytesPerSector := by
  have hmod := Nat.div_add_mod
    (numRootEntries d * sizeofShortDirEntry + (ctx.bootSector.bytesPerSector - 1))
    ctx.bootSector.bytesPerSector
  have hlt := Nat.mod_lt
    (numRootEntries d * sizeofShortDirEntry + (ctx.bootSector.bytesPerSector - 1))
    h.bytesPerSector
  rw [rootSectors, Nat.mul_comm _ ctx.bootSector.bytesPerSector]
  omega

/-- INTERNAL: FAT12 and FAT16 volumes, of which only the tables may be too small. -/
theorem layout_iff_suffice (h : ValidVolume d ctx) (hmount : fatMount allocated d = some ctx)
    (hspf : ctx.bootSector.sectorsPerFat ≠ 0) : VolumeLayout d ctx ↔ TablesSuffice d ctx := by
  have htype := type_of_tables h hmount hspf
  obtain ⟨hboot, -, -, -⟩ := fatMount_fields hmount
  have hstart := dataRegionStart_eq h hmount hspf
  have hclus : ∀ c, 2 ≤ c → c < clusterCount d ctx + 2 →
      fatClusToOff ctx c = clusterStart ctx c ∧
        clusterStart ctx c + ctx.bytesPClus ≤ volumeBytes d ctx :=
    fun c hc hlt => fatClusToOff_valid h hmount hstart hc hlt
  have hbehind : ∀ c, ctx.dataRegionStart ≤ clusterStart ctx c := fun c => Nat.le_add_right _ _
  have hover := overhead_eq hboot (sectorsPerFat ctx)
  have htables : (ctx.bootSector.reservedSectors + sectorsPerFat ctx * ctx.bootSector.numFat) *
      ctx.bootSector.bytesPerSector +
        rootSectors ctx.bootSector.bytesPerSector (numRootEntries d) *
          ctx.bootSector.bytesPerSector = ctx.dataRegionStart := by
    rw [hstart, hover, Nat.add_mul (_ + _)]
  constructor
  · intro hlayout
    exact (entries_iff h hmount hspf htype).mp hlayout.entries
  · intro hsuffice
    refine ⟨(entries_iff h hmount hspf htype).mpr hsuffice, ?_, ?_, ?_, ?_, ?_, ?_⟩
    · intro c c' hc hlt hc' hlt' hne
      unfold Extent.Apart Extent.stop clusterExtent
      rw [(hclus c hc hlt).1, (hclus c' hc' hlt').1]
      exact clusterStart_apart ctx hc hc' hne
    · intro c hc hlt
      unfold Extent.stop clusterExtent
      rw [(hclus c hc hlt).1]
      exact (hclus c hc hlt).2
    · intro c hc hlt
      have hle := hbehind c
      right
      unfold Extent.stop clusterExtent
      rw [(hclus c hc hlt).1]
      rw [Nat.add_mul] at htables
      unfold fatStart
      dsimp only
      omega
    · intro c hc hlt k hk
      have hle := hbehind c
      have hstop := copy_stop_le hk
      right
      refine hstop.trans ?_
      unfold clusterExtent
      rw [(hclus c hc hlt).1]
      dsimp only
      omega
    · intro _ c hc hlt
      have hle := hbehind c
      have hroot := rootEntries_le h
      right
      unfold Extent.stop clusterExtent
      rw [(hclus c hc hlt).1, rootDir_valid h hboot hspf htype]
      dsimp only
      omega
    · intro h32
      rcases htype with htype | htype
      · simp [htype] at h32
      · simp [htype] at h32

/-! ## FAT32 -/

/-- INTERNAL: the first cluster of a FAT32 volume begins with the first table. -/
theorem fatClusToOff_fat32 (h : ValidVolume d ctx) (hmount : fatMount allocated d = some ctx)
    (hspf : ctx.bootSector.sectorsPerFat = 0) : fatClusToOff ctx 2 = fatStart ctx := by
  obtain ⟨hboot, -, hdata, -⟩ := fatMount_fields hmount
  have hover := overhead_eq hboot (sectorsPerFat ctx)
  have hroot : rootSectors ctx.bootSector.bytesPerSector 0 = 0 := by
    have hpos := h.bytesPerSector
    unfold rootSectors
    exact Nat.div_eq_of_lt (by omega)
  have hres : ctx.bootSector.reservedSectors < 2 ^ 32 := h.lt_of_le (by omega)
  have hzero : add32 ctx.bootSector.reservedSectors 0 = ctx.bootSector.reservedSectors :=
    add32_eq hres
  have hmul : mul32 ctx.bootSector.numFat 0 = 0 := rfl
  have hstart : ctx.dataRegionStart = fatStart ctx := by
    rw [hdata, hspf, h.root hspf, hroot, hmul, hzero, hzero]
    exact mul32_eq (h.mul_lt_of_le (by omega))
  have hlt : fatStart ctx < 2 ^ 32 := h.mul_lt_of_le (by omega)
  have hoffset : mul32 (mul32 (sub32 2 2) ctx.bootSector.sectorsPerCluster)
      ctx.bootSector.bytesPerSector = 0 := by
    simp [sub32, mul32]
  rw [fatClusToOff, if_pos (by decide), hoffset, hstart]
  exact add32_eq hlt

/-- INTERNAL: so it overlaps the table. -/
theorem not_layout_fat32 (h : ValidVolume d ctx) (hmount : fatMount allocated d = some ctx)
    (h32 : typeOfClusters (clusterCount d ctx) = .fat32) : ¬ VolumeLayout d ctx := by
  intro hlayout
  have hcount : 0 < clusterCount d ctx := by
    by_contra hzero
    have h0 : clusterCount d ctx = 0 := by omega
    rw [h0] at h32
    cases h32
  have hcross := hlayout.tables 2 (Nat.le_refl 2) (by omega) 0 h.numFat
  have hstart := fatClusToOff_fat32 h hmount (h.fat32.mp h32)
  have hbytes := bytesPClus_eq h hmount hcount
  have hpos := Nat.mul_pos h.sectorsPerCluster h.bytesPerSector
  have hlen := Nat.mul_pos h.perFat h.bytesPerSector
  unfold Extent.Apart Extent.stop clusterExtent copyExtent at hcross
  rw [hstart] at hcross
  dsimp only at hcross
  omega

end

/-- **The regions of a mounted volume lie apart** on FAT12 and FAT16 if the tables have room
for the entries, and on no FAT32 volume.
SRCLINE: fat.c:373-401, fat.c:477-483, fat.c:317-326, fat.c:69-72 -/
theorem volumeLayout_iff {allocated : ℕ} {d : Disk} {ctx : FatContext}
    (hmount : fatMount allocated d = some ctx) (h : ValidVolume d ctx) :
    VolumeLayout d ctx ↔
      typeOfClusters (clusterCount d ctx) ≠ .fat32 ∧ TablesSuffice d ctx := by
  by_cases h32 : typeOfClusters (clusterCount d ctx) = .fat32
  · simp [not_layout_fat32 h hmount h32, h32]
  · have hspf : ctx.bootSector.sectorsPerFat ≠ 0 := fun hzero => h32 (h.fat32.mpr hzero)
    rw [layout_iff_suffice h hmount hspf]
    simp [h32]

theorem floppy_valid : ValidVolume floppyDisk floppy where
  bytesPerSector := by decide
  sectorsPerCluster := by decide
  reservedSectors := by decide
  numFat := by decide
  perFat := by decide
  fits := by decide
  volume := by decide
  fat32 := by decide
  root := by decide

theorem floppy_volumeLayout : VolumeLayout floppyDisk floppy ↔
    typeOfClusters (clusterCount floppyDisk floppy) ≠ .fat32 ∧ TablesSuffice floppyDisk floppy :=
  volumeLayout_iff fatMount_floppyDisk floppy_valid

/-- The boot sector of a volume of 70000 sectors, with tables of 600 sectors. -/
def fat32Disk : Disk := fun x =>
  match x with
  | 12 => 0x02
  | 13 => 0x01
  | 14 => 0x20
  | 16 => 0x02
  | 32 => 0x70
  | 33 => 0x11
  | 34 => 0x01
  | 36 => 0x58
  | 37 => 0x02
  | 44 => 0x02
  | 0x1FE => 0x55
  | 0x1FF => 0xAA
  | _ => 0

/-- What it is mounted as, if the context held the right number of sectors before. -/
def fat32Volume : FatContext where
  bootSector := ⟨512, 1, 32, 2, 0, 0, 70000⟩
  sectorsPerFat32 := 600
  rootClusterNum := 2
  type := .fat32
  dataRegionStart := 16384
  bytesPClus := 512

theorem fatMount_fat32Disk : fatMount 600 fat32Disk = some fat32Volume := by
  unfold fatMount
  rw [if_neg (by decide)]
  simp only [Option.some.injEq, fat32Volume, FatContext.mk.injEq, bootSectorAt,
    BootSector.mk.injEq]
  decide

theorem fat32Volume_valid : ValidVolume fat32Disk fat32Volume where
  bytesPerSector := by decide
  sectorsPerCluster := by decide
  reservedSectors := by decide
  numFat := by decide
  perFat := by decide
  fits := by decide
  volume := by decide
  fat32 := by decide
  root := by decide

/-- Its root directory is written over the first table. -/
theorem fat32Volume_overlaps :
    fatMount 600 fat32Disk = some fat32Volume ∧ ValidVolume fat32Disk fat32Volume ∧
      fatClusToOff fat32Volume 2 = fatStart fat32Volume ∧
      ¬ VolumeLayout fat32Disk fat32Volume := by
  have hstart := fatClusToOff_fat32 fat32Volume_valid fatMount_fat32Disk rfl
  refine ⟨fatMount_fat32Disk, fat32Volume_valid, hstart, ?_⟩
  apply not_layout_fat32 fat32Volume_valid fatMount_fat32Disk
  decide

end LakeOS.Analysis
