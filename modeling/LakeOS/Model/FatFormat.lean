import LakeOS.Model.FatMount

/-!
# The sizes of a FAT volume

How many clusters `FAT_init_type` counts, and how many sectors `FAT_calc_size` gives a
table when a volume is formatted.  `FAT_mount` divides by fields of the boot sector that it
never looks at: here a run that divides by zero has no result.
-/

set_option autoImplicit false

namespace LakeOS.Model

open LakeOS.Library

/-- `total_sectors`.
SRCLINE: fat.c:17-21 -/
def totalSectors (boot : BootSector) (long : ℕ) : ℕ :=
  if boot.numSectors ≠ 0 then boot.numSectors else long

/-- What lies before the data region, for tables of `perFat` sectors.
SRCLINE: fat.c:30-36 -/
def overheadSectors (boot : BootSector) (rootEntries perFat : ℕ) : ℕ :=
  add32 (add32 boot.reservedSectors (mul32 perFat boot.numFat))
    (rootSectors boot.bytesPerSector rootEntries)

/-- `num_clusters`, for tables of `perFat` sectors.
SRCLINE: fat.c:17-38 -/
def numClusters (boot : BootSector) (rootEntries long perFat : ℕ) : ℕ :=
  sub32 (totalSectors boot long) (overheadSectors boot rootEntries perFat) /
    boot.sectorsPerCluster

/-- The type of a volume with this many clusters.
SRCLINE: fat.c:40-45 -/
def typeOfClusters (clusters : ℕ) : FatType :=
  if clusters < 4085 then .fat12 else if clusters < 65525 then .fat16 else .fat32

theorem fatInitType_eq (boot : BootSector) (rootEntries long allocated : ℕ) :
    fatInitType boot rootEntries long allocated = typeOfClusters (numClusters boot rootEntries long
      (if boot.sectorsPerFat ≠ 0 then boot.sectorsPerFat else allocated)) := rfl

/-- SRCLINE: fat.c:193-226 -/
def fatCalcSize (ctx : FatContext) (rootEntries : ℕ) : FatContext :=
  let boot := ctx.bootSector
  let tmp1 := sub32 boot.numSectors
    (add32 boot.reservedSectors (rootSectors boot.bytesPerSector rootEntries))
  let tmp2 := 256 * boot.sectorsPerCluster + boot.numFat
  let tmp2 := if ctx.type = .fat32 then tmp2 / 2 else tmp2
  let fatSize := add32 tmp1 (sub32 tmp2 1) / tmp2
  if ctx.type = .fat32 then
    { ctx with bootSector := { boot with sectorsPerFat := 0 }, sectorsPerFat32 := fatSize }
  else { ctx with bootSector := { boot with sectorsPerFat := fatSize % 2 ^ 16 } }

/-- `FAT_mount` step by step: the outer `none` is a division by zero, the inner one `NULL`.
SRCLINE: fat.c:354-419, fat.c:24-38 -/
def fatMountRun (allocated : ℕ) (d : Disk) : Option (Option FatContext) :=
  if d.load 2 0x1FE ≠ 0xAA55 then some none
  else if (bootSectorAt d).bytesPerSector = 0 then none
  else if (bootSectorAt d).sectorsPerCluster = 0 then none
  else some (fatMount allocated d)

end LakeOS.Model
