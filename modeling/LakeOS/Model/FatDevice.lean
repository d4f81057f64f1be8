import LakeOS.Model.FatEntries
import LakeOS.Model.Sal

/-!
# FAT volumes on devices

`fat.c` moves the bytes of a volume with `SAL_read` and `SAL_write`.  An access that starts
inside a sector and is shorter than one is not cut at the end of that sector: what lies behind
it is read as the zeros that the staging buffer has there, and is not written.  All devices have
sectors of one size, so that nothing is ever staged there.

The functions of `fat.c` are those of the module on FAT volumes, with these accesses.
-/

set_option autoImplicit false

namespace LakeOS.Model

open LakeOS.Library

/-! ## Accesses -/

/-- The bytes that `SAL_read` gives.
SRCLINE: sal.c:34-76 -/
def sectorRead (sectorSize : ℕ) (d : Disk) (off len : ℕ) : List Byte :=
  if off % sectorSize ≠ 0 ∧ len < sectorSize then
    let temp := Store.write (fun _ => 0) 0 (d.read (off / sectorSize * sectorSize) sectorSize)
    temp.read (off % sectorSize) len
  else d.read off len

/-- The disk after `SAL_write`.
SRCLINE: sal.c:13-26, sal.c:78-107 -/
def sectorWrite (sectorSize : ℕ) (d : Disk) (off : ℕ) (bytes : List Byte) : Disk :=
  if off % sectorSize ≠ 0 ∧ bytes.length < sectorSize then
    let temp := Store.write (fun _ => 0) 0 (d.read (off / sectorSize * sectorSize) sectorSize)
    let temp := temp.write (off % sectorSize) bytes
    d.write (off / sectorSize * sectorSize) (temp.read 0 sectorSize)
  else d.write off bytes

/-- `t_FATContext` with the sector size of its device. -/
structure FatDevice extends FatContext where
  sectorSize : ℕ
  sectorSize_pos : 0 < sectorSize

namespace FatDevice

variable (v : FatDevice)

def read (d : Disk) (off len : ℕ) : List Byte := sectorRead v.sectorSize d off len

def write (d : Disk) (off : ℕ) (bytes : List Byte) : Disk := sectorWrite v.sectorSize d off bytes

def load (d : Disk) (k off : ℕ) : ℕ := leValue (v.read d off k)

def save (d : Disk) (k off word : ℕ) : Disk := v.write d off (leBytes k word)

/-! ## The tables -/

/-- SRCLINE: fat.c:70-117 -/
def fatSetEntry (fatNum cluster data : ℕ) (d : Disk) : ℕ × Disk :=
  let offset := fatEntryOffset v.toFatContext fatNum cluster
  match v.type with
  | .fat12 =>
      let data := fat12Word cluster data (v.load d 2 offset)
      (data, v.save d 2 offset data)
  | .fat16 => (data, v.save d 2 offset data)
  | .fat32 =>
      let data := (data &&& 0x0FFFFFFF) ||| (v.load d 4 offset &&& 0xF0000000)
      (data, v.save d 4 offset data)
  | .fatNull => (0xFFFFFFFF - data, d)

/-- SRCLINE: fat.c:119-122 -/
def fatSetEntries (num data : ℕ) (d : Disk) : Disk :=
  (List.range v.bootSector.numFat).foldl (fun d i => (v.fatSetEntry i num data d).2) d

/-- SRCLINE: fat.c:128-163 -/
def fatGetEntry (fatNum cluster : ℕ) (d : Disk) : ℕ :=
  let offset := fatEntryOffset v.toFatContext fatNum cluster
  match v.type with
  | .fat12 => if cluster % 2 ≠ 0 then v.load d 2 offset >>> 4 else v.load d 2 offset &&& 0x0FFF
  | .fat16 => v.load d 2 offset
  | .fat32 => v.load d 4 offset &&& 0xFFFFFFF0
  | .fatNull => 0

/-- SRCLINE: fat.c:334-342 -/
def findFreeCluster (d : Disk) : ℕ :=
  let numClusters := mul32 v.bootSector.numSectors v.bootSector.sectorsPerCluster
  ((List.range' 2 (numClusters - 2)).find? fun i => v.fatGetEntry 0 i d = 0).getD 0

/-- SRCLINE: fat.c:436-449 -/
def fatAbsoluteOffsetLoop (d : Disk) : (fuel cluster offset : ℕ) → Option (ℕ × Option ℕ)
  | 0, _, _ => none
  | fuel + 1, cluster, offset =>
      if v.bytesPClus ≤ offset then
        let entry := v.fatGetEntry 0 cluster d
        if fatIsEoc v.toFatContext entry then some (0, some cluster)
        else fatAbsoluteOffsetLoop d fuel entry (offset - v.bytesPClus)
      else some (add32 (fatClusToOff v.toFatContext cluster) offset, none)

/-- SRCLINE: fat.c:421-450 -/
def fatAbsoluteOffset (cluster offset : ℕ) (d : Disk) : Option (ℕ × Option ℕ) :=
  if cluster < 2 then
    let rootDirSize := mul32 v.bootSector.bytesPerSector 32
    if rootDirSize < offset then some (0, none)
    else some (add32 (mul32 (rootDirSector v.toFatContext) v.bootSector.bytesPerSector) offset,
      none)
  else if offset < v.bytesPClus then
    some (add32 (fatClusToOff v.toFatContext cluster) offset, none)
  else v.fatAbsoluteOffsetLoop d fatFuel cluster offset

/-- SRCLINE: fat.c:725-730 -/
def fatChainEnd (d : Disk) : (fuel cluster next : ℕ) → Option ℕ
  | 0, _, _ => none
  | fuel + 1, cluster, next =>
      if fatIsEoc v.toFatContext next then some cluster
      else fatChainEnd d fuel next (v.fatGetEntry 0 next d)

/-- SRCLINE: fat.c:724-736 -/
def fatAllocateCluster (cluster : ℕ) (d : Disk) : Option Disk := do
  let cluster ← v.fatChainEnd d fatFuel cluster (v.fatGetEntry 0 cluster d)
  let freeClus := v.findFreeCluster d
  let d := v.fatSetEntries cluster freeClus d
  return v.fatSetEntries freeClus 0xFFFFFFFF d

/-- SRCLINE: fat.c:688-699 -/
def fatFreeClusterChain : (fuel cluster : ℕ) → Disk → Option Disk
  | 0, _, _ => none
  | fuel + 1, cluster, d =>
      if fatIsEoc v.toFatContext cluster then some (v.fatSetEntries cluster 0x0 d)
      else fatFreeClusterChain fuel (v.fatGetEntry 0 cluster d) (v.fatSetEntries cluster 0x0 d)

/-! ## Reading -/

/-- `SAL_read` of the next `len` bytes, from `off`. -/
def get (r : FatReading) (d : Disk) (off len : ℕ) : FatReading where
  file := { r.file with position := add32 r.file.position len }
  data := r.data ++ v.read d off len

/-- SRCLINE: fat.c:971-978 -/
def fatReadTail (len : ℕ) (d : Disk) (r : FatReading) : Option FatReading :=
  if len - r.data.length ≠ 0 then do
    let fullOff ← v.fatAbsoluteOffset r.file.startingClus r.file.position d
    return v.get r d fullOff.1 (len - r.data.length)
  else some r

/-- SRCLINE: fat.c:963-978 -/
def fatReadClusters (len : ℕ) (d : Disk) : (fuel : ℕ) → FatReading → Option FatReading
  | 0, _ => none
  | fuel + 1, r =>
      if v.bytesPClus ≤ len - r.data.length then do
        let fullOff ← v.fatAbsoluteOffset r.file.startingClus r.file.position d
        (v.get r d fullOff.1 v.bytesPClus).unlessPast (fatReadClusters len d fuel)
      else v.fatReadTail len d r

/-- SRCLINE: fat.c:945-981 -/
def fatRead (file : FatFile) (len : ℕ) (d : Disk) : Option (List Byte × FatFile) :=
  if !hasFlag file.flags fatFileRead then some ([], file)
  else do
    let fullOff ← v.fatAbsoluteOffset file.startingClus file.position d
    let r ←
      if file.position % v.bytesPClus ≠ 0 then
        let rest := v.bytesPClus - file.position % v.bytesPClus
        (v.get ⟨file, []⟩ d fullOff.1 (if len ≤ rest then len else rest)).unlessPast
          (v.fatReadClusters len d fatFuel)
      else v.fatReadClusters len d fatFuel ⟨file, []⟩
    return (r.data, r.file)

/-! ## Writing -/

/-- `SAL_write` of the next `len` bytes at `off`. -/
def put (w : FatWriting) (off len : ℕ) : FatWriting where
  file := { w.file with size := add32 w.file.size len }
  data := w.data.drop len
  disk := v.write w.disk off (w.data.take len)

/-- SRCLINE: fat.c:915-922 -/
def fatWriteHead (fullOff : ℕ) (w : FatWriting) : FatWriting :=
  if w.file.size % v.bytesPClus ≠ 0 then
    let rest := v.bytesPClus - w.file.size % v.bytesPClus
    v.put w fullOff (if w.data.length ≤ rest then w.data.length else rest)
  else w

/-- SRCLINE: fat.c:924-930 -/
def fatWriteClusters : (fuel : ℕ) → FatWriting → Option FatWriting
  | 0, _ => none
  | fuel + 1, w =>
      if v.bytesPClus ≤ w.data.length then do
        let d ← v.fatAllocateCluster w.file.startingClus w.disk
        let fullOff ← v.fatAbsoluteOffset w.file.startingClus w.file.size d
        fatWriteClusters fuel (v.put { w with disk := d } fullOff.1 v.bytesPClus)
      else some w

/-- SRCLINE: fat.c:932-940 -/
def fatWriteTail (w : FatWriting) : Option FatWriting :=
  if w.data.length ≠ 0 then do
    let d ← if w.file.size ≠ 0 then v.fatAllocateCluster w.file.startingClus w.disk
      else some w.disk
    let fullOff ← v.fatAbsoluteOffset w.file.startingClus w.file.size d
    return v.put { w with disk := d } fullOff.1 w.data.length
  else some w

/-- SRCLINE: fat.c:905-943 -/
def fatWrite (file : FatFile) (data : List Byte) (d : Disk) : Option (ℕ × FatFile × Disk) :=
  if !hasFlag file.flags fatFileWrite then some (0, file, d)
  else do
    let fullOff ← v.fatAbsoluteOffset file.startingClus file.size d
    let d ← if file.size ≠ 0 ∧ file.size % v.bytesPClus = 0 then
        v.fatAllocateCluster file.startingClus d
      else some d
    let w := v.fatWriteHead fullOff.1 ⟨file, data, d⟩
    let w ← v.fatWriteClusters fatFuel w
    let w ← v.fatWriteTail w
    return (data.length - w.data.length, w.file, w.disk)

/-! ## Directories -/

section

variable (junk : Uninit)

/-- SRCLINE: fat.c:460-471 -/
def fatDirEntry (cluster entryNum : ℕ) (d : Disk) : Option (ℕ × Option (List Byte)) :=
  (v.fatAbsoluteOffset cluster (mul32 entryNum sizeofShortDirEntry) d).map fun off =>
    if off.1 ≠ 0 then (0, some (v.read d off.1 sizeofShortDirEntry))
    else (off.2.getD junk.lastFreeCluster, none)

/-- SRCLINE: fat.c:707-717 -/
def fatFileEntryLoop (cluster : ℕ) (conv : List Byte) (d : Disk) :
    (fuel i eoc : ℕ) → (entry : List Byte) → Option (List Byte)
  | 0, _, _, _ => none
  | fuel + 1, i, eoc, entry =>
      if eoc ≠ 0 then some (List.replicate sizeofShortDirEntry 0)
      else if memcmp entry conv 11 = 0 ∧ !hasFlag (entryAttributes entry) entryAttrVolumeId then
        some entry
      else do
        let next ← v.fatDirEntry junk cluster (add32 i 1) d
        fatFileEntryLoop cluster conv d fuel (add32 i 1) next.1 (next.2.getD entry)

/-- SRCLINE: fat.c:701-718 -/
def fatFileEntry (file : FatHandle) (d : Disk) : Option (List Byte) := do
  let first ← v.fatDirEntry junk file.dirCluster 0 d
  v.fatFileEntryLoop junk file.dirCluster (fatConvFname file.name) d fatFuel 0 first.1
    (first.2.getD junk.entry)

/-- SRCLINE: fat.c:812-835 -/
def fatLookup (dir : FatHandle) (name : CString) (d : Disk) : Option (Option FatHandle) := do
  let temp : FatHandle := ⟨dir.startCluster, 0, 0, name.take 11⟩
  let entry ← v.fatFileEntry junk temp d
  return if entryFirstClusterLow entry ≠ 0 then
    some {
      startCluster := entryFirstClusterLow entry
      dirCluster := dir.startCluster
      attribs := entryAttributes entry
      name := name.take 13 }
  else none

/-- The cluster that is added when the loop has come to the end of the directory. -/
def fatExtendAtEnd (cluster eoc : ℕ) (d : Disk) : Option Disk :=
  if eoc ≠ 0 then v.fatAllocateCluster cluster d else some d

/-- SRCLINE: fat.c:561-579 -/
def fatWriteEntryLoop (cluster : ℕ) (entry : List Byte) :
    (fuel entryNum eoc : ℕ) → (readEntry : List Byte) → Disk → Option Disk
  | 0, _, _, _, _ => none
  | fuel + 1, entryNum, eoc, readEntry, d => do
      let d ← v.fatExtendAtEnd cluster eoc d
      let next ← v.fatDirEntry junk cluster entryNum d
      if entryIsFree (next.2.getD readEntry) then
        some (v.write d (add32 (fatClusToOff v.toFatContext cluster)
          (mul32 entryNum sizeofShortDirEntry)) entry)
      else
        fatWriteEntryLoop cluster entry fuel (add32 entryNum 1) next.1
          (next.2.getD readEntry) d

/-- SRCLINE: fat.c:558-580 -/
def fatWriteEntry (cluster : ℕ) (entry : List Byte) (d : Disk) : Option Disk := do
  let first ← v.fatDirEntry junk cluster 0 d
  v.fatWriteEntryLoop junk cluster entry fatFuel 0 first.1 (first.2.getD junk.entry) d

/-- SRCLINE: fat.c:638-663 -/
def fatInitDir (clusterNum parentClus : ℕ) (d : Disk) : Option Disk := do
  let attribs := entryAttrDirectory ||| entryAttrHidden ||| entryAttrSystem
  let clus := clusterNum % 2 ^ 16
  let d := v.write d (fatClusToOff v.toFatContext clusterNum) (List.replicate v.bytesPClus 0)
  let d ← v.fatWriteEntry junk clus
    (makeEntry (dot :: List.replicate 10 blank) attribs 0 0 clusterNum) d
  v.fatWriteEntry junk clus
    (makeEntry (dot :: dot :: List.replicate 9 blank) attribs 0 0 parentClus) d

/-- SRCLINE: fat.c:837-853 -/
def fatCreate (time : RtcTime) (dir : FatHandle) (name : CString) (attribs : ℕ) (d : Disk) :
    Option Disk := do
  let clus := v.findFreeCluster d % 2 ^ 16
  let entry := makeEntry (fatConvFname name) (fatConvAttrib attribs) (fatGetTime time)
    (fatGetDate time) clus
  let d ← v.fatWriteEntry junk dir.startCluster entry d
  let d := v.fatSetEntries clus 0xFFFFFFFF d
  if hasFlag attribs fileAttribDirectory then v.fatInitDir junk clus dir.startCluster d
  else some d

/-- SRCLINE: fat.c:863-869 -/
def fatRemoveEntry (file : FatHandle) (i : ℕ) (entry : List Byte) (d : Disk) : Option Disk := do
  let d ← v.fatFreeClusterChain fatFuel (entryFirstClusterLow entry) d
  let off ← v.fatAbsoluteOffset file.dirCluster (mul32 i sizeofShortDirEntry) d
  return v.write d off.1 zeroEntry

/-- SRCLINE: fat.c:862-873 -/
def fatRemoveLoop (file : FatHandle) (conv : List Byte) :
    (fuel i eoc : ℕ) → (entry : List Byte) → Disk → Option Disk
  | 0, _, _, _, _ => none
  | fuel + 1, i, eoc, entry, d =>
      if eoc ≠ 0 then some d
      else if memcmp entry conv 11 = 0 then do
        let d ← v.fatRemoveEntry file i entry d
        let next ← v.fatDirEntry junk file.dirCluster (add32 i 1) d
        fatRemoveLoop file conv fuel (add32 i 1) next.1 (next.2.getD zeroEntry) d
      else do
        let next ← v.fatDirEntry junk file.dirCluster (add32 i 1) d
        fatRemoveLoop file conv fuel (add32 i 1) next.1 (next.2.getD entry) d

/-- SRCLINE: fat.c:855-874 -/
def fatRemove (file : FatHandle) (d : Disk) : Option Disk := do
  let first ← v.fatDirEntry junk file.dirCluster 0 d
  v.fatRemoveLoop junk file (fatConvFname file.name) fatFuel 0 first.1
    (first.2.getD junk.entry) d

end

end FatDevice

end LakeOS.Model
