import LakeOS.Model.Fat
import LakeOS.Model.Vfs

/-!
# FAT directories

A directory is a chain of clusters of 32-byte entries, or the root directory in front of
the data region.  An entry is the list of its bytes.  `FAT_dir_entry` and its callers read
local variables that nothing was stored in; what these hold is a parameter.
-/

set_option autoImplicit false

namespace LakeOS.Model

open LakeOS.Library

/-- What local variables hold before anything is stored in them: `last_free_cluster` of
`FAT_dir_entry` and the directory entry of its caller. -/
structure Uninit where
  lastFreeCluster : ℕ
  entry : List Byte

/-- `t_FATHandle`.  All handles of a volume have its context. -/
structure FatHandle where
  dirCluster : ℕ
  startCluster : ℕ
  attribs : ℕ
  name : CString
deriving DecidableEq

/-- `FAT_get_root`, on a volume that is not FAT32.
SRCLINE: fat.c:403-409, fat.c:808-810 -/
def fatGetRoot : FatHandle where
  dirCluster := 0
  startCluster := 0
  attribs := 3
  name := []

/-! ## Entries -/

/-- `sizeof(t_ShortDirEntry)`. -/
abbrev sizeofShortDirEntry : ℕ := 32

/-- `ENTRY_ATTR_VOLUME_ID`. -/
abbrev entryAttrVolumeId : ℕ := 0x08

/-- `ENTRY_ATTR_DIRECTORY`. -/
abbrev entryAttrDirectory : ℕ := 0x10

/-- A field of `len` bytes at an offset of an entry. -/
def entryField (entry : List Byte) (off len : ℕ) : ℕ := leValue ((entry.drop off).take len)

/-! The fields of `t_ShortDirEntry`.
SRCLINE: fat.h:442-499 -/

def entryAttributes (entry : List Byte) : ℕ := entryField entry 11 1

def entryCreationTime (entry : List Byte) : ℕ := entryField entry 14 2

def entryCreationDate (entry : List Byte) : ℕ := entryField entry 16 2

def entryLastWriteTime (entry : List Byte) : ℕ := entryField entry 22 2

def entryLastWriteDate (entry : List Byte) : ℕ := entryField entry 24 2

def entryFirstClusterLow (entry : List Byte) : ℕ := entryField entry 26 2

def entryFileSize (entry : List Byte) : ℕ := entryField entry 28 4

/-! ## Names -/

/-- The character `.`. -/
abbrev dot : Byte := 0x2E

/-- The character that pads names. -/
abbrev blank : Byte := 0x20

/-- A name as it is stored, if it has fewer than `2 ^ 31` characters.  For the extension `name`
is read up to its eleventh character.
SRCLINE: fat.c:586-611 -/
def fatConvFname (name : CString) : List Byte :=
  if name.head? = some dot ∧ name.length < 3 then
    name ++ List.replicate (11 - name.length) blank
  else
    let base := (name.take 8).takeWhile (· != dot)
    let out := base ++ List.replicate (8 - base.length) blank ++
      (name.take 11).drop (base.length + 1)
    out ++ List.replicate (11 - out.length) blank

/-- A name from an entry.  The dot is left out behind a name that is shorter than eight
characters.
SRCLINE: fat.c:617-628 -/
def fatFnameConv (fname : List Byte) : CString :=
  let base := (fname.take 8).takeWhile (· != blank)
  let point := if fname[base.length]? = some blank then [] else [dot]
  base ++ point ++ ((fname.drop 8).take 3).takeWhile (· != blank)

section

variable (ctx : FatContext) (junk : Uninit)

/-! ## Reading a directory -/

/-- The number returned, and the entry if one was read; `none` if the chain never ends.
SRCLINE: fat.c:460-471 -/
def fatDirEntry (cluster entryNum : ℕ) (d : Disk) : Option (ℕ × Option (List Byte)) :=
  (fatAbsoluteOffset ctx cluster (mul32 entryNum sizeofShortDirEntry) d).map fun off =>
    if off.1 ≠ 0 then (0, some (d.read off.1 sizeofShortDirEntry))
    else (off.2.getD junk.lastFreeCluster, none)

/-- The loop of `FAT_file_entry`, with the answer to the last `FAT_dir_entry`.
SRCLINE: fat.c:707-717 -/
def fatFileEntryLoop (cluster : ℕ) (conv : List Byte) (d : Disk) :
    (fuel i eoc : ℕ) → (entry : List Byte) → Option (List Byte)
  | 0, _, _, _ => none
  | fuel + 1, i, eoc, entry =>
      if eoc ≠ 0 then some (List.replicate sizeofShortDirEntry 0)
      else if memcmp entry conv 11 = 0 ∧ !hasFlag (entryAttributes entry) entryAttrVolumeId then
        some entry
      else do
        let next ← fatDirEntry ctx junk cluster (add32 i 1) d
        fatFileEntryLoop cluster conv d fuel (add32 i 1) next.1 (next.2.getD entry)

/-- SRCLINE: fat.c:701-718 -/
def fatFileEntry (file : FatHandle) (d : Disk) : Option (List Byte) := do
  let first ← fatDirEntry ctx junk file.dirCluster 0 d
  fatFileEntryLoop ctx junk file.dirCluster (fatConvFname file.name) d fatFuel 0 first.1
    (first.2.getD junk.entry)

/-- The handle of a file, which is not found if its first cluster is `0`; `none` if the
search never ends.  Eleven bytes of the name are looked for and thirteen kept.
SRCLINE: fat.c:812-835 -/
def fatLookup (dir : FatHandle) (name : CString) (d : Disk) : Option (Option FatHandle) := do
  let temp : FatHandle := ⟨dir.startCluster, 0, 0, name.take 11⟩
  let entry ← fatFileEntry ctx junk temp d
  return if entryFirstClusterLow entry ≠ 0 then
    some {
      startCluster := entryFirstClusterLow entry
      dirCluster := dir.startCluster
      attribs := entryAttributes entry
      name := name.take 13 }
  else none

/-- SRCLINE: fat.c:983-1000 -/
def fatReadDir (dir : FatHandle) (n : ℕ) (d : Disk) : Option (Option FatHandle) :=
  (fatDirEntry ctx junk dir.startCluster n d).map fun fail =>
    if fail.1 = 0 then none
    else
      let entry := fail.2.getD junk.entry
      some {
        startCluster := entryFirstClusterLow entry
        dirCluster := dir.startCluster
        attribs := entryAttributes entry
        name := fatFnameConv (entry.take 11) }

/-- SRCLINE: fat.c:1002-1004 -/
def fatHandleName (handle : FatHandle) : CString := handle.name

/-! ## Files -/

/-- The mask of the year is `0x7F + 1980`.
SRCLINE: fat.c:782-791 -/
def fatConvToChrono (fatDate fatTime : ℕ) : FileChrono where
  dayOfMonth := fatDate &&& 0x1F
  monthOfYear := (fatDate >>> 5) &&& 0xF
  year := (fatDate >>> 9) &&& (0x7F + 1980)
  seconds := (fatTime &&& 0x1F) * 2
  minutes := (fatTime >>> 5) &&& 0x3F
  hours := (fatTime >>> 11) &&& 0x1F

/-- The flags of a file.
SRCLINE: fat.c:1012-1016 -/
def fatStatFlags (attributes : ℕ) : ℕ :=
  let flags := if hasFlag attributes entryAttrDirectory then 1 else 0
  let flags := if hasFlag attributes 0x01 then flags ||| 2 else flags
  let flags := if hasFlag attributes 0x02 then flags ||| 4 else flags
  if hasFlag attributes 0x04 then flags ||| 8 else flags

/-- SRCLINE: fat.c:1006-1017 -/
def fatFileStat (file : FatHandle) (d : Disk) : Option FileStat :=
  (fatFileEntry ctx junk file d).map fun entry => {
    created := fatConvToChrono (entryCreationDate entry) (entryCreationTime entry)
    modified := fatConvToChrono (entryLastWriteDate entry) (entryLastWriteTime entry)
    size := entryFileSize entry
    flags := fatStatFlags (entryAttributes entry) }

/-- SRCLINE: fat.c:876-897 -/
def fatOpen (handle : FatHandle) (mode : ℕ) (d : Disk) : Option FatFile :=
  (fatFileEntry ctx junk handle d).map fun entry => {
    startingClus := handle.startCluster
    parentClus := handle.dirCluster
    position := 0
    size := entryFileSize entry
    flags := mode }

/-- The position returned and the file.
SRCLINE: fat.c:1019-1024 -/
def fatFileSeek (file : FatFile) (position : ℕ) : ℕ × FatFile :=
  let file := if position ≠ minusOne then { file with position := position } else file
  (file.position, file)

end

end LakeOS.Model
