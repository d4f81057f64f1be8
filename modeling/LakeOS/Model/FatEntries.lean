import LakeOS.Model.FatDir

/-!
# Creating and removing files

How `fat.c` stores and clears the entries of a directory.  `FAT_write_entry` looks for a
free entry along the chain of the directory and writes it behind the first cluster.
-/

set_option autoImplicit false

namespace LakeOS.Model

open LakeOS.Library

/-! ## Entries -/

/-- `ENTRY_ATTR_READ_ONLY`. -/
abbrev entryAttrReadOnly : ℕ := 0x01

/-- `ENTRY_ATTR_HIDDEN`. -/
abbrev entryAttrHidden : ℕ := 0x02

/-- `ENTRY_ATTR_SYSTEM`. -/
abbrev entryAttrSystem : ℕ := 0x04

/-- `FILE_ATTRIB_DIRECTORY`. -/
abbrev fileAttribDirectory : ℕ := 1

/-- An entry with these fields, all others `0`.  The name is written last, and runs over the
fields behind it if it is longer than eleven bytes.
SRCLINE: fat.h:442-499 -/
def makeEntry (name : List Byte) (attributes creationTime creationDate firstClusterLow : ℕ) :
    List Byte :=
  let entry := List.replicate 11 0 ++ leBytes 1 attributes ++ leBytes 2 0 ++
    leBytes 2 creationTime ++ leBytes 2 creationDate ++ leBytes 8 0 ++
    leBytes 2 firstClusterLow ++ leBytes 4 0
  name ++ entry.drop name.length

/-- An entry of which all bytes are `0`. -/
def zeroEntry : List Byte := List.replicate sizeofShortDirEntry 0

/-- SRCLINE: fat.c:764-771 -/
def fatGetDate (time : RtcTime) : ℕ :=
  (time.monthday ||| time.month <<< 5 ||| sub32 time.year 1980 <<< 9) % 2 ^ 16

/-- SRCLINE: fat.c:773-780 -/
def fatGetTime (time : RtcTime) : ℕ :=
  (time.seconds / 2 ||| time.minutes <<< 5 ||| time.hours <<< 11) % 2 ^ 16

/-- SRCLINE: fat.c:793-800 -/
def fatConvAttrib (vfsattrib : ℕ) : ℕ :=
  let res := if hasFlag vfsattrib fileAttribDirectory then entryAttrDirectory else 0
  let res := if hasFlag vfsattrib 4 then res ||| entryAttrHidden else res
  let res := if hasFlag vfsattrib 8 then res ||| entryAttrSystem else res
  if hasFlag vfsattrib 2 then res ||| entryAttrReadOnly else res

/-- The first byte of the name says that an entry is free. -/
def entryIsFree (entry : List Byte) : Bool :=
  entry.head? = some 0x00 || entry.head? = some 0xE5

section

variable (ctx : FatContext) (junk : Uninit)

/-! ## `FAT_write_entry` -/

/-- The cluster that is added when the loop has come to the end of the directory. -/
def fatExtendAtEnd (cluster eoc : ℕ) (d : Disk) : Option Disk :=
  if eoc ≠ 0 then fatAllocateCluster ctx cluster d else some d

/-- The loop of `FAT_write_entry`, with the answer to the last `FAT_dir_entry`.
SRCLINE: fat.c:561-579 -/
def fatWriteEntryLoop (cluster : ℕ) (entry : List Byte) :
    (fuel entryNum eoc : ℕ) → (readEntry : List Byte) → Disk → Option Disk
  | 0, _, _, _, _ => none
  | fuel + 1, entryNum, eoc, readEntry, d => do
      let d ← fatExtendAtEnd ctx cluster eoc d
      let next ← fatDirEntry ctx junk cluster entryNum d
      if entryIsFree (next.2.getD readEntry) then
        some (d.write
          (add32 (fatClusToOff ctx cluster) (mul32 entryNum sizeofShortDirEntry)) entry)
      else
        fatWriteEntryLoop cluster entry fuel (add32 entryNum 1) next.1
          (next.2.getD readEntry) d

/-- `none` if no free entry is ever found.
SRCLINE: fat.c:558-580 -/
def fatWriteEntry (cluster : ℕ) (entry : List Byte) (d : Disk) : Option Disk := do
  let first ← fatDirEntry ctx junk cluster 0 d
  fatWriteEntryLoop ctx junk cluster entry fatFuel 0 first.1 (first.2.getD junk.entry) d

/-! ## Creating -/

/-- The entries `.` and `..`.
SRCLINE: fat.c:638-663 -/
def fatInitDir (clusterNum parentClus : ℕ) (d : Disk) : Option Disk := do
  let attribs := entryAttrDirectory ||| entryAttrHidden ||| entryAttrSystem
  let clus := clusterNum % 2 ^ 16
  let d := d.write (fatClusToOff ctx clusterNum) (List.replicate ctx.bytesPClus 0)
  let d ← fatWriteEntry ctx junk clus
    (makeEntry (dot :: List.replicate 10 blank) attribs 0 0 clusterNum) d
  fatWriteEntry ctx junk clus
    (makeEntry (dot :: dot :: List.replicate 9 blank) attribs 0 0 parentClus) d

/-- A name is stored without a look whether it is there.
SRCLINE: fat.c:837-853 -/
def fatCreate (time : RtcTime) (dir : FatHandle) (name : CString) (attribs : ℕ) (d : Disk) :
    Option Disk := do
  let clus := findFreeCluster ctx d % 2 ^ 16
  let entry := makeEntry (fatConvFname name) (fatConvAttrib attribs) (fatGetTime time)
    (fatGetDate time) clus
  let d ← fatWriteEntry ctx junk dir.startCluster entry d
  let d := fatSetEntries ctx clus 0xFFFFFFFF d
  if hasFlag attribs fileAttribDirectory then fatInitDir ctx junk clus dir.startCluster d
  else some d

/-! ## Removing -/

/-- The number that ends the chain is set to free as well.
SRCLINE: fat.c:688-699 -/
def fatFreeClusterChain : (fuel cluster : ℕ) → Disk → Option Disk
  | 0, _, _ => none
  | fuel + 1, cluster, d =>
      if fatIsEoc ctx cluster then some (fatSetEntries ctx cluster 0x0 d)
      else fatFreeClusterChain fuel (fatGetEntry ctx 0 cluster d) (fatSetEntries ctx cluster 0x0 d)

/-- What `FAT_remove` does with an entry of the name.
SRCLINE: fat.c:863-869 -/
def fatRemoveEntry (file : FatHandle) (i : ℕ) (entry : List Byte) (d : Disk) : Option Disk := do
  let d ← fatFreeClusterChain ctx fatFuel (entryFirstClusterLow entry) d
  let off ← fatAbsoluteOffset ctx file.dirCluster (mul32 i sizeofShortDirEntry) d
  return d.write off.1 zeroEntry

/-- The loop of `FAT_remove`, with the answer to the last `FAT_dir_entry`.
SRCLINE: fat.c:862-873 -/
def fatRemoveLoop (file : FatHandle) (conv : List Byte) :
    (fuel i eoc : ℕ) → (entry : List Byte) → Disk → Option Disk
  | 0, _, _, _, _ => none
  | fuel + 1, i, eoc, entry, d =>
      if eoc ≠ 0 then some d
      else if memcmp entry conv 11 = 0 then do
        let d ← fatRemoveEntry ctx file i entry d
        let next ← fatDirEntry ctx junk file.dirCluster (add32 i 1) d
        fatRemoveLoop file conv fuel (add32 i 1) next.1 (next.2.getD zeroEntry) d
      else do
        let next ← fatDirEntry ctx junk file.dirCluster (add32 i 1) d
        fatRemoveLoop file conv fuel (add32 i 1) next.1 (next.2.getD entry) d

/-- Every entry of the name is removed, volume labels too.
SRCLINE: fat.c:855-874 -/
def fatRemove (file : FatHandle) (d : Disk) : Option Disk := do
  let first ← fatDirEntry ctx junk file.dirCluster 0 d
  fatRemoveLoop ctx junk file (fatConvFname file.name) fatFuel 0 first.1
    (first.2.getD junk.entry) d

end

end LakeOS.Model
