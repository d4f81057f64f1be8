import LakeOS.Library.Store
import LakeOS.Library.Word32
import LakeOS.Model.Umm

/-!
# FAT volumes

The file allocation tables of `fat.c` and what `FAT_write` and `FAT_read` do with them.
The storage layer is exact here: `SAL_read` and `SAL_write` read and write the bytes of
the disk.  A loop that the source leaves only when a chain ends has as fuel the number
of cluster numbers there are; a run that uses it up never ends, and gives `none`.
-/

set_option autoImplicit false

namespace LakeOS.Model

open LakeOS.Library

/-- The bytes of a storage device. -/
abbrev Disk := Store Byte

/-- `e_FAT`. -/
inductive FatType where
  | fatNull
  | fat12
  | fat16
  | fat32
deriving DecidableEq, Repr

/-- `t_BootSectorCommon`, the fields that are read.
SRCLINE: fat.h:10-127 -/
structure BootSector where
  bytesPerSector : ℕ
  sectorsPerCluster : ℕ
  reservedSectors : ℕ
  numFat : ℕ
  numSectors : ℕ
  sectorsPerFat : ℕ
  longSectors : ℕ

/-- `t_FATContext`, the fields that are read.
SRCLINE: fat.h:300-335 -/
structure FatContext where
  bootSector : BootSector
  /-- `fat32_ext.sectors_per_fat`. -/
  sectorsPerFat32 : ℕ
  /-- `fat32_ext.root_cluster_num`. -/
  rootClusterNum : ℕ
  type : FatType
  dataRegionStart : ℕ
  bytesPClus : ℕ

/-- `t_FATFile`.
SRCLINE: fat.h:602-611 -/
structure FatFile where
  startingClus : ℕ
  parentClus : ℕ
  position : ℕ
  size : ℕ
  flags : ℕ

/-- `FAT_FILE_READ`. -/
abbrev fatFileRead : ℕ := 0b1

/-- `FAT_FILE_WRITE`. -/
abbrev fatFileWrite : ℕ := 0b10

/-- The number of 32-bit cluster numbers. -/
abbrev fatFuel : ℕ := 2 ^ 32

section

variable (ctx : FatContext)

/-- `SECTORS_PER_FAT`. -/
def sectorsPerFat : ℕ :=
  if ctx.bootSector.sectorsPerFat ≠ 0 then ctx.bootSector.sectorsPerFat else ctx.sectorsPerFat32

/-- SRCLINE: fat.c:51-64 -/
def fatGetOffset (cluster : ℕ) : ℕ :=
  match ctx.type with
  | .fat12 => add32 cluster (cluster / 2)
  | .fat16 => mul32 cluster 2
  | .fat32 => mul32 cluster 4
  | .fatNull => 0xFFFFFFFF

/-- The address of an entry.
SRCLINE: fat.c:71-73 -/
def fatEntryOffset (fatNum cluster : ℕ) : ℕ :=
  let offset := mul32 ctx.bootSector.reservedSectors ctx.bootSector.bytesPerSector
  let offset := add32 offset
    (mul32 (mul32 fatNum (sectorsPerFat ctx)) ctx.bootSector.bytesPerSector)
  add32 offset (fatGetOffset ctx cluster)

/-- The word that `FAT_set_entry` writes on a FAT12 volume.
SRCLINE: fat.c:81-93 -/
def fat12Word (cluster data entry : ℕ) : ℕ :=
  if cluster % 2 ≠ 0 then (data <<< 4) % 2 ^ 32 ||| (entry &&& 0x000F)
  else (data &&& 0x0FFF) ||| (entry &&& 0xF000)

/-- SRCLINE: fat.c:70-117 -/
def fatSetEntry (fatNum cluster data : ℕ) (d : Disk) : ℕ × Disk :=
  let offset := fatEntryOffset ctx fatNum cluster
  match ctx.type with
  | .fat12 =>
      let data := fat12Word cluster data (d.load 2 offset)
      (data, d.save 2 offset data)
  | .fat16 => (data, d.save 2 offset data)
  | .fat32 =>
      let data := (data &&& 0x0FFFFFFF) ||| (d.load 4 offset &&& 0xF0000000)
      (data, d.save 4 offset data)
  | .fatNull => (0xFFFFFFFF - data, d)

/-- SRCLINE: fat.c:119-122 -/
def fatSetEntries (num data : ℕ) (d : Disk) : Disk :=
  (List.range ctx.bootSector.numFat).foldl (fun d i => (fatSetEntry ctx i num data d).2) d

/-- SRCLINE: fat.c:128-163 -/
def fatGetEntry (fatNum cluster : ℕ) (d : Disk) : ℕ :=
  let offset := fatEntryOffset ctx fatNum cluster
  match ctx.type with
  | .fat12 =>
      if cluster % 2 ≠ 0 then d.load 2 offset >>> 4 else d.load 2 offset &&& 0x0FFF
  | .fat16 => d.load 2 offset
  | .fat32 => d.load 4 offset &&& 0xFFFFFFF0
  | .fatNull => 0

/-- SRCLINE: fat.c:171-185 -/
def fatIsEoc (fatEntry : ℕ) : Bool :=
  match ctx.type with
  | .fat12 => 0xFF8 ≤ fatEntry
  | .fat16 => 0xFFF8 ≤ fatEntry
  | .fat32 => 0xFFFFFFF8 ≤ fatEntry
  | .fatNull => false

/-- SRCLINE: fat.c:315-324 -/
def rootDirSector : ℕ :=
  let dataRegionStart := add32 ctx.bootSector.reservedSectors
    (mul32 ctx.bootSector.numFat ctx.bootSector.sectorsPerFat)
  match ctx.type with
  | .fat12 | .fat16 => dataRegionStart
  | .fat32 | .fatNull =>
      add32 (mul32 (sub32 ctx.rootClusterNum 2) ctx.bootSector.sectorsPerCluster) dataRegionStart

/-- SRCLINE: fat.c:334-342 -/
def findFreeCluster (d : Disk) : ℕ :=
  let numClusters := mul32 ctx.bootSector.numSectors ctx.bootSector.sectorsPerCluster
  ((List.range' 2 (numClusters - 2)).find? fun i => fatGetEntry ctx 0 i d = 0).getD 0

/-- SRCLINE: fat.c:477-483 -/
def fatClusToOff (cluster : ℕ) : ℕ :=
  if 1 < cluster then
    add32 ctx.dataRegionStart (mul32 (mul32 (sub32 cluster 2) ctx.bootSector.sectorsPerCluster)
      ctx.bootSector.bytesPerSector)
  else mul32 (rootDirSector ctx) ctx.bootSector.bytesPerSector

/-- The loop of `FAT_absolute_offset`.
SRCLINE: fat.c:436-449 -/
def fatAbsoluteOffsetLoop (d : Disk) : (fuel cluster offset : ℕ) → Option (ℕ × Option ℕ)
  | 0, _, _ => none
  | fuel + 1, cluster, offset =>
      if ctx.bytesPClus ≤ offset then
        let entry := fatGetEntry ctx 0 cluster d
        if fatIsEoc ctx entry then some (0, some cluster)
        else fatAbsoluteOffsetLoop d fuel entry (offset - ctx.bytesPClus)
      else some (add32 (fatClusToOff ctx cluster) offset, none)

/-- The address of a byte of a file, `0` on failure, and what is stored in `*clus_fail`.
SRCLINE: fat.c:421-450 -/
def fatAbsoluteOffset (cluster offset : ℕ) (d : Disk) : Option (ℕ × Option ℕ) :=
  if cluster < 2 then
    let rootDirSize := mul32 ctx.bootSector.bytesPerSector 32
    if rootDirSize < offset then some (0, none)
    else some (add32 (mul32 (rootDirSector ctx) ctx.bootSector.bytesPerSector) offset, none)
  else if offset < ctx.bytesPClus then some (add32 (fatClusToOff ctx cluster) offset, none)
  else fatAbsoluteOffsetLoop ctx d fatFuel cluster offset

/-- The loop of `FAT_allocate_cluster`: the last cluster of a chain.
SRCLINE: fat.c:725-730 -/
def fatChainEnd (d : Disk) : (fuel cluster next : ℕ) → Option ℕ
  | 0, _, _ => none
  | fuel + 1, cluster, next =>
      if fatIsEoc ctx next then some cluster
      else fatChainEnd d fuel next (fatGetEntry ctx 0 next d)

/-- SRCLINE: fat.c:724-736 -/
def fatAllocateCluster (cluster : ℕ) (d : Disk) : Option Disk := do
  let cluster ← fatChainEnd ctx d fatFuel cluster (fatGetEntry ctx 0 cluster d)
  let freeClus := findFreeCluster ctx d
  let d := fatSetEntries ctx cluster freeClus d
  return fatSetEntries ctx freeClus 0xFFFFFFFF d

/-! ## Writing -/

/-- What is left to write of `FAT_write`: the file, the bytes and the disk. -/
structure FatWriting where
  file : FatFile
  data : List Byte
  disk : Disk

/-- `SAL_write` of the next `len` bytes at `off`. -/
def FatWriting.put (w : FatWriting) (off len : ℕ) : FatWriting where
  file := { w.file with size := add32 w.file.size len }
  data := w.data.drop len
  disk := w.disk.write off (w.data.take len)

/-- The bytes up to the next cluster.
SRCLINE: fat.c:915-922 -/
def fatWriteHead (fullOff : ℕ) (w : FatWriting) : FatWriting :=
  if w.file.size % ctx.bytesPClus ≠ 0 then
    let rest := ctx.bytesPClus - w.file.size % ctx.bytesPClus
    w.put fullOff (if w.data.length ≤ rest then w.data.length else rest)
  else w

/-- The whole clusters.
SRCLINE: fat.c:924-930 -/
def fatWriteClusters : (fuel : ℕ) → FatWriting → Option FatWriting
  | 0, _ => none
  | fuel + 1, w =>
      if ctx.bytesPClus ≤ w.data.length then do
        let d ← fatAllocateCluster ctx w.file.startingClus w.disk
        let fullOff ← fatAbsoluteOffset ctx w.file.startingClus w.file.size d
        fatWriteClusters fuel ({ w with disk := d }.put fullOff.1 ctx.bytesPClus)
      else some w

/-- The bytes behind the last whole cluster.
SRCLINE: fat.c:932-940 -/
def fatWriteTail (w : FatWriting) : Option FatWriting :=
  if w.data.length ≠ 0 then do
    let d ← if w.file.size ≠ 0 then fatAllocateCluster ctx w.file.startingClus w.disk
      else some w.disk
    let fullOff ← fatAbsoluteOffset ctx w.file.startingClus w.file.size d
    return { w with disk := d }.put fullOff.1 w.data.length
  else some w

/-- The number of bytes written, the file and the disk.
SRCLINE: fat.c:905-943 -/
def fatWrite (file : FatFile) (data : List Byte) (d : Disk) : Option (ℕ × FatFile × Disk) :=
  if !hasFlag file.flags fatFileWrite then some (0, file, d)
  else do
    let fullOff ← fatAbsoluteOffset ctx file.startingClus file.size d
    let d ← if file.size ≠ 0 ∧ file.size % ctx.bytesPClus = 0 then
        fatAllocateCluster ctx file.startingClus d
      else some d
    let w := fatWriteHead ctx fullOff.1 ⟨file, data, d⟩
    let w ← fatWriteClusters ctx fatFuel w
    let w ← fatWriteTail ctx w
    return (data.length - w.data.length, w.file, w.disk)

/-! ## Reading -/

/-- What `FAT_read` has read so far. -/
structure FatReading where
  file : FatFile
  data : List Byte

/-- `SAL_read` of the next `len` bytes, from `off`. -/
def FatReading.get (r : FatReading) (d : Disk) (off len : ℕ) : FatReading where
  file := { r.file with position := add32 r.file.position len }
  data := r.data ++ d.read off len

/-- `if (bytes_read > file->size) return bytes_read`: the rest of `FAT_read` is left out. -/
def FatReading.unlessPast (r : FatReading) (rest : FatReading → Option FatReading) :
    Option FatReading :=
  if r.file.size < r.data.length then some r else rest r

/-- The bytes behind the last whole cluster.
SRCLINE: fat.c:971-978 -/
def fatReadTail (len : ℕ) (d : Disk) (r : FatReading) : Option FatReading :=
  if len - r.data.length ≠ 0 then do
    let fullOff ← fatAbsoluteOffset ctx r.file.startingClus r.file.position d
    return r.get d fullOff.1 (len - r.data.length)
  else some r

/-- The whole clusters, and what follows them.
SRCLINE: fat.c:963-978 -/
def fatReadClusters (len : ℕ) (d : Disk) : (fuel : ℕ) → FatReading → Option FatReading
  | 0, _ => none
  | fuel + 1, r =>
      if ctx.bytesPClus ≤ len - r.data.length then do
        let fullOff ← fatAbsoluteOffset ctx r.file.startingClus r.file.position d
        (r.get d fullOff.1 ctx.bytesPClus).unlessPast (fatReadClusters len d fuel)
      else fatReadTail ctx len d r

/-- The bytes read and the file.
SRCLINE: fat.c:945-981 -/
def fatRead (file : FatFile) (len : ℕ) (d : Disk) : Option (List Byte × FatFile) :=
  if !hasFlag file.flags fatFileRead then some ([], file)
  else do
    let fullOff ← fatAbsoluteOffset ctx file.startingClus file.position d
    let r ←
      if file.position % ctx.bytesPClus ≠ 0 then
        let rest := ctx.bytesPClus - file.position % ctx.bytesPClus
        (FatReading.get ⟨file, []⟩ d fullOff.1 (if len ≤ rest then len else rest)).unlessPast
          (fatReadClusters ctx len d fatFuel)
      else fatReadClusters ctx len d fatFuel ⟨file, []⟩
    return (r.data, r.file)

end

end LakeOS.Model
