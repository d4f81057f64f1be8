import LakeOS.Model.FatDir

/-!
# Mounting a FAT volume

`FAT_mount` reads the boot sector and computes from it the type of the volume and where its
data region starts.  A context that was just allocated holds arbitrary bytes; the type of a
volume without `sectors_per_fat` is computed from these.  A boot sector with sectors of no
bytes, or with clusters of no sectors, divides by zero and is not modelled.
-/

set_option autoImplicit false

namespace LakeOS.Model

open LakeOS.Library

/-- The fields of the boot sector.
SRCLINE: fat.h:10-127 -/
def bootSectorAt (d : Disk) : BootSector where
  bytesPerSector := d.load 2 11
  sectorsPerCluster := d.load 1 13
  reservedSectors := d.load 2 14
  numFat := d.load 1 16
  numSectors := d.load 2 19
  sectorsPerFat := d.load 2 22
  longSectors := d.load 4 32

/-- `boot_sector.num_root_entries`. -/
def numRootEntries (d : Disk) : ℕ := d.load 2 17

/-- `boot_sector.long_sectors`. -/
def longSectors (d : Disk) : ℕ := d.load 4 32

/-- The sectors of the root directory, rounded up.
SRCLINE: fat.c:24-28, fat.c:376-378 -/
def rootSectors (bytesPerSector rootEntries : ℕ) : ℕ :=
  (rootEntries * sizeofShortDirEntry + (bytesPerSector - 1)) / bytesPerSector

/-- `allocated` is what a new context holds for `fat32_ext.sectors_per_fat`.
SRCLINE: fat.c:14-45 -/
def fatInitType (boot : BootSector) (rootEntries long allocated : ℕ) : FatType :=
  let totalSectors := if boot.numSectors ≠ 0 then boot.numSectors else long
  let perFat := if boot.sectorsPerFat ≠ 0 then boot.sectorsPerFat else allocated
  let numDataSectors := sub32 totalSectors
    (add32 (add32 boot.reservedSectors (mul32 perFat boot.numFat))
      (rootSectors boot.bytesPerSector rootEntries))
  let numClusters := numDataSectors / boot.sectorsPerCluster
  if numClusters < 4085 then .fat12 else if numClusters < 65525 then .fat16 else .fat32

/-- `none` if the signature of the boot sector is missing.  The union of the extensions
begins at the same address for every type.
SRCLINE: fat.c:354-419 -/
def fatMount (allocated : ℕ) (d : Disk) : Option FatContext :=
  if d.load 2 0x1FE ≠ 0xAA55 then none
  else
    let boot := bootSectorAt d
    some {
      bootSector := boot
      sectorsPerFat32 := d.load 4 36
      rootClusterNum := d.load 4 44
      type := fatInitType boot (numRootEntries d) (longSectors d) allocated
      dataRegionStart := mul32
        (add32 (add32 boot.reservedSectors (mul32 boot.numFat boot.sectorsPerFat))
          (rootSectors boot.bytesPerSector (numRootEntries d))) boot.bytesPerSector
      bytesPClus := mul32 boot.sectorsPerCluster boot.bytesPerSector }

end LakeOS.Model
