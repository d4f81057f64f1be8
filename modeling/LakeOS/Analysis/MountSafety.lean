import LakeOS.Model.FatFormat
import LakeOS.Analysis.RootBounds

/-!
# Mounting an unknown disk

`FAT_mount` looks at the signature of a boot sector and at nothing else.  Partitioned disks
have it too; what they hold where a FAT volume has its parameters is divided by and
subtracted as it is.
-/

set_option autoImplicit false

namespace LakeOS.Analysis

open LakeOS.Library LakeOS.Model

/-- The constraints on the fields of a boot sector that its declaration names.
SRCLINE: fat.h:28-127 -/
structure HasFatParameters (d : Disk) : Prop where
  bytesPerSector : (bootSectorAt d).bytesPerSector ∈ [512, 1024, 2048, 4096]
  sectorsPerCluster : (bootSectorAt d).sectorsPerCluster ∈ [1, 2, 4, 8, 16, 32, 64, 128]
  reservedSectors : (bootSectorAt d).reservedSectors ≠ 0
  numFat : (bootSectorAt d).numFat ≠ 0
  total : totalSectors (bootSectorAt d) (longSectors d) ≠ 0

/-- What lies before the data region, as a number that does not wrap around. -/
def overhead (d : Disk) (perFat : ℕ) : ℕ :=
  (bootSectorAt d).reservedSectors + perFat * (bootSectorAt d).numFat +
    rootSectors (bootSectorAt d).bytesPerSector (numRootEntries d)

/-- `SECTORS_PER_FAT` when the type is determined. -/
def sectorsPerFatAt (allocated : ℕ) (d : Disk) : ℕ :=
  if (bootSectorAt d).sectorsPerFat ≠ 0 then (bootSectorAt d).sectorsPerFat else allocated

/-- Mounting the disk is safe, whatever a new context holds: nothing is divided by zero, a
context that is returned has no zero sizes and a data region that was computed without
underflow, its type depends on the disk alone, and what has no FAT parameters is refused. -/
structure MountSafe (d : Disk) : Prop where
  divides : ∀ allocated < 2 ^ 32, fatMountRun allocated d ≠ none
  fields : ∀ allocated < 2 ^ 32, ∀ ctx, fatMountRun allocated d = some (some ctx) →
    ctx.bootSector.bytesPerSector ≠ 0 ∧ ctx.bootSector.sectorsPerCluster ≠ 0 ∧
      ctx.bytesPClus ≠ 0 ∧
      overhead d (sectorsPerFatAt allocated d) ≤ totalSectors ctx.bootSector (longSectors d)
  type : ∀ a < 2 ^ 32, ∀ b < 2 ^ 32, ∀ ctx ctx',
    fatMountRun a d = some (some ctx) → fatMountRun b d = some (some ctx') → ctx.type = ctx'.type
  refused : d.load 2 0x1FE = 0xAA55 → ¬ HasFatParameters d →
    ∀ allocated < 2 ^ 32, fatMountRun allocated d = some none

/-- The disks that mounting is safe for: those without the signature, and FAT volumes with
tables of their own length inside the volume. -/
def Mountable (d : Disk) : Prop :=
  d.load 2 0x1FE ≠ 0xAA55 ∨
    HasFatParameters d ∧ (bootSectorAt d).sectorsPerFat ≠ 0 ∧
      overhead d (bootSectorAt d).sectorsPerFat ≤ totalSectors (bootSectorAt d) (longSectors d)

section

variable {allocated : ℕ} {d : Disk}

theorem HasFatParameters.bytesPerSector_pos (h : HasFatParameters d) :
    0 < (bootSectorAt d).bytesPerSector := by
  have hmem := h.bytesPerSector
  simp at hmem
  omega

theorem HasFatParameters.sectorsPerCluster_pos (h : HasFatParameters d) :
    0 < (bootSectorAt d).sectorsPerCluster := by
  have hmem := h.sectorsPerCluster
  simp at hmem
  omega

/-- INTERNAL: without the signature the context is freed again.
SRCLINE: fat.c:366-371 -/
theorem fatMountRun_unsigned (hsign : d.load 2 0x1FE ≠ 0xAA55) :
    fatMountRun allocated d = some none := by
  rw [fatMountRun, if_pos hsign]

/-- INTERNAL: with it every disk is mounted, or divided by zero.
SRCLINE: fat.c:366-412 -/
theorem fatMountRun_signed (hsign : d.load 2 0x1FE = 0xAA55) :
    fatMountRun allocated d ≠ some none := by
  unfold fatMountRun fatMount
  simp only [hsign, ne_eq, not_true_eq_false, if_false]
  split
  · simp
  · split
    · simp
    · simp

/-- INTERNAL: the context of a disk whose sizes are not zero. -/
theorem fatMountRun_pos (allocated : ℕ) (hsign : d.load 2 0x1FE = 0xAA55)
    (hbytes : 0 < (bootSectorAt d).bytesPerSector)
    (hcluster : 0 < (bootSectorAt d).sectorsPerCluster) :
    ∃ ctx, fatMountRun allocated d = some (some ctx) ∧ ctx.bootSector = bootSectorAt d ∧
      ctx.bytesPClus =
        mul32 (bootSectorAt d).sectorsPerCluster (bootSectorAt d).bytesPerSector ∧
      ctx.type = fatInitType (bootSectorAt d) (numRootEntries d) (longSectors d) allocated := by
  unfold fatMountRun fatMount
  simp only [hsign, ne_eq, not_true_eq_false, if_false, hbytes.ne', hcluster.ne']
  exact ⟨_, rfl, rfl, rfl, rfl⟩

theorem totalSectors_lt (d : Disk) : totalSectors (bootSectorAt d) (longSectors d) < 2 ^ 32 := by
  have hsectors : (bootSectorAt d).numSectors < 256 ^ 2 := Store.load_lt d 2 19
  have hlong : longSectors d < 256 ^ 4 := Store.load_lt d 4 32
  unfold totalSectors
  split
  · omega
  · omega

/-- INTERNAL: if the context decides, it can decide for tables that do not fit any volume. -/
theorem overhead_allocated (h : HasFatParameters d) :
    totalSectors (bootSectorAt d) (longSectors d) < overhead d (2 ^ 32 - 1) := by
  have htotal := totalSectors_lt d
  have hfat := Nat.pos_of_ne_zero h.numFat
  have hreserved := Nat.pos_of_ne_zero h.reservedSectors
  have hmul : 2 ^ 32 - 1 ≤ (2 ^ 32 - 1) * (bootSectorAt d).numFat := Nat.le_mul_of_pos_right _ hfat
  unfold overhead
  omega

/-- INTERNAL: a disk that is mounted safely has the parameters. -/
theorem MountSafe.mountable (h : MountSafe d) : Mountable d := by
  by_cases hsign : d.load 2 0x1FE = 0xAA55
  · right
    have hparams : HasFatParameters d := by
      by_contra hnot
      exact fatMountRun_signed hsign (h.refused hsign hnot 0 (by decide))
    obtain ⟨ctx, hrun, hboot, -⟩ := fatMountRun_pos (2 ^ 32 - 1) hsign
      hparams.bytesPerSector_pos hparams.sectorsPerCluster_pos
    have hover := (h.fields _ (by decide) ctx hrun).2.2.2
    rw [hboot] at hover
    have hspf : (bootSectorAt d).sectorsPerFat ≠ 0 := by
      intro hzero
      have hlt := overhead_allocated hparams
      rw [sectorsPerFatAt, if_neg (not_not.mpr hzero)] at hover
      omega
    rw [sectorsPerFatAt, if_pos hspf] at hover
    exact ⟨hparams, hspf, hover⟩
  · exact .inl hsign

/-- INTERNAL: a disk that is refused. -/
theorem mountSafe_unsigned (hsign : d.load 2 0x1FE ≠ 0xAA55) : MountSafe d where
  divides := by simp [fatMountRun_unsigned hsign]
  fields := by simp [fatMountRun_unsigned hsign]
  type := by simp [fatMountRun_unsigned hsign]
  refused := fun h => absurd h hsign

/-- INTERNAL: a cluster has bytes. -/
theorem bytesPClus_ne_zero (hparams : HasFatParameters d) :
    mul32 (bootSectorAt d).sectorsPerCluster (bootSectorAt d).bytesPerSector ≠ 0 := by
  have hpos := Nat.mul_pos hparams.sectorsPerCluster_pos hparams.bytesPerSector_pos
  have hcluster : (bootSectorAt d).sectorsPerCluster < 256 ^ 1 := Store.load_lt d 1 13
  have hbytes : (bootSectorAt d).bytesPerSector < 256 ^ 2 := Store.load_lt d 2 11
  have hlt := Nat.mul_lt_mul'' hcluster hbytes
  rw [mul32_eq (by omega)]
  exact hpos.ne'

/-- INTERNAL: a volume with the parameters is mounted, and its type is that of its own
tables. -/
theorem mountSafe_signed (hsign : d.load 2 0x1FE = 0xAA55) (hparams : HasFatParameters d)
    (hspf : (bootSectorAt d).sectorsPerFat ≠ 0)
    (hover : overhead d (bootSectorAt d).sectorsPerFat ≤
      totalSectors (bootSectorAt d) (longSectors d)) : MountSafe d := by
  have hrun : ∀ allocated, ∃ ctx, fatMountRun allocated d = some (some ctx) ∧
      ctx.bootSector = bootSectorAt d ∧
      ctx.bytesPClus = mul32 (bootSectorAt d).sectorsPerCluster (bootSectorAt d).bytesPerSector ∧
      ctx.type = fatInitType (bootSectorAt d) (numRootEntries d) (longSectors d) allocated :=
    fun allocated => fatMountRun_pos allocated hsign hparams.bytesPerSector_pos
      hparams.sectorsPerCluster_pos
  have htype : ∀ a b, fatInitType (bootSectorAt d) (numRootEntries d) (longSectors d) a =
      fatInitType (bootSectorAt d) (numRootEntries d) (longSectors d) b := by
    intro a b
    rw [fatInitType_eq, fatInitType_eq, if_pos hspf, if_pos hspf]
  refine ⟨?_, ?_, ?_, ?_⟩
  · intro allocated _
    obtain ⟨ctx, hctx, -⟩ := hrun allocated
    simp [hctx]
  · intro allocated _ ctx' hctx'
    obtain ⟨ctx, hctx, hboot, hbytes, -⟩ := hrun allocated
    rw [hctx] at hctx'
    cases hctx'
    rw [hboot, hbytes, sectorsPerFatAt, if_pos hspf]
    exact ⟨hparams.bytesPerSector_pos.ne', hparams.sectorsPerCluster_pos.ne',
      bytesPClus_ne_zero hparams, hover⟩
  · intro a _ b _ ctx ctx' hctx hctx'
    obtain ⟨c, hc, -, -, htc⟩ := hrun a
    obtain ⟨c', hc', -, -, htc'⟩ := hrun b
    rw [hc] at hctx
    rw [hc'] at hctx'
    cases hctx
    cases hctx'
    rw [htc, htc']
    exact htype a b
  · intro _ hnot
    exact absurd hparams hnot

theorem Mountable.safe (h : Mountable d) : MountSafe d := by
  by_cases hsign : d.load 2 0x1FE = 0xAA55
  · rcases h with h | ⟨hparams, hspf, hover⟩
    · exact absurd hsign h
    · exact mountSafe_signed hsign hparams hspf hover
  · exact mountSafe_unsigned hsign

end

/-- **Mounting is safe** for disks without the signature and for volumes with the parameters
and tables of a FAT12 or FAT16 volume, and for no other disk.
SRCLINE: fat.c:352-412, fat.c:14-45 -/
theorem mountSafe_iff (d : Disk) : MountSafe d ↔ Mountable d :=
  ⟨MountSafe.mountable, Mountable.safe⟩

/-- A disk of which nothing is written but the signature. -/
def signedDisk : Disk := Store.write (fun _ => 0) 0x1FE [0x55, 0xAA]

/-- It is not refused: its sectors of no bytes are divided by. -/
theorem signedDisk_not_safe :
    signedDisk.load 2 0x1FE = 0xAA55 ∧ ¬ HasFatParameters signedDisk ∧
      fatMountRun 0 signedDisk = none ∧ ¬ MountSafe signedDisk := by
  have hsign : signedDisk.load 2 0x1FE = 0xAA55 := by decide
  have hbytes : (bootSectorAt signedDisk).bytesPerSector = 0 := by decide
  have hrun : fatMountRun 0 signedDisk = none := by
    rw [fatMountRun, if_neg (not_not.mpr hsign), if_pos hbytes]
  refine ⟨hsign, fun h => ?_, hrun, fun h => h.divides 0 (by decide) hrun⟩
  exact absurd hbytes h.bytesPerSector_pos.ne'

end LakeOS.Analysis
