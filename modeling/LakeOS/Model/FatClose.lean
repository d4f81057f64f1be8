import LakeOS.Model.FatEntries

/-!
# Closing a file

`FAT_close` stores the size of the file in its directory entry.  A file does not know where its
entry is: `FAT_upd_entry` takes the first entry with the first cluster of the file.
-/

set_option autoImplicit false

namespace LakeOS.Model

open LakeOS.Library

/-- A field of an entry is set. -/
def setEntryField (entry : List Byte) (off : ℕ) (field : List Byte) : List Byte :=
  entry.take off ++ field ++ entry.drop (off + field.length)

/-- The entry with the size of the file and the dates.
SRCLINE: fat.c:750-755 -/
def fatUpdatedEntry (time : RtcTime) (file : FatFile) (entry : List Byte) : List Byte :=
  let entry := setEntryField entry 28 (leBytes 4 file.size)
  let entry := setEntryField entry 18 (leBytes 2 (fatGetDate time))
  if hasFlag file.flags fatFileWrite then
    let entry := setEntryField entry 24 (leBytes 2 (fatGetDate time))
    setEntryField entry 22 (leBytes 2 (fatGetTime time))
  else entry

section

variable (ctx : FatContext) (junk : Uninit)

/-- The loop of `FAT_upd_entry`.  At the end of the directory `entry` is compared once more as it
was.
SRCLINE: fat.c:747-761 -/
def fatUpdEntryLoop (time : RtcTime) (file : FatFile) :
    (fuel entryNum : ℕ) → (entry : List Byte) → Disk → Option Disk
  | 0, _, _, _ => none
  | fuel + 1, entryNum, entry, d => do
      let next ← fatDirEntry ctx junk file.parentClus entryNum d
      let entry := next.2.getD entry
      if file.startingClus = entryFirstClusterLow entry then do
        let off ← fatAbsoluteOffset ctx file.parentClus (mul32 entryNum sizeofShortDirEntry) d
        return d.write off.1 (fatUpdatedEntry time file entry)
      else if next.1 ≠ 0 then some d
      else fatUpdEntryLoop time file fuel (add32 entryNum 1) entry d

/-- SRCLINE: fat.c:743-762 -/
def fatUpdEntry (time : RtcTime) (file : FatFile) (d : Disk) : Option Disk :=
  fatUpdEntryLoop ctx junk time file fatFuel 0 junk.entry d

/-- The disk afterwards; the memory of the file is given back.
SRCLINE: fat.c:899-903 -/
def fatClose (time : RtcTime) (file : FatFile) (d : Disk) : Option Disk :=
  fatUpdEntry ctx junk time file d

end

end LakeOS.Model
