import LakeOS.Model.FatDir

/-!
# Files by their paths on a FAT volume

`FAT_file_cluster` looks up the pieces of a path with a search of its own, and not with the
one of `FAT_file_entry`.
-/

set_option autoImplicit false

namespace LakeOS.Model

open LakeOS.Library

section

variable (ctx : FatContext) (junk : Uninit)

/-- The loop of `FAT_find_file`, with the answer to the last `FAT_dir_entry`.
SRCLINE: fat.c:512-523 -/
def fatFindFileLoop (cluster : ℕ) (conv : List Byte) (d : Disk) :
    (fuel entryNum eoc : ℕ) → (entry : List Byte) → Option ℕ
  | 0, _, _, _ => none
  | fuel + 1, entryNum, eoc, entry =>
      if eoc = 0 ∧ memcmp entry conv 11 ≠ 0 ∧ hasFlag (entryAttributes entry) entryAttrVolumeId then
        do
          let next ← fatDirEntry ctx junk cluster (add32 entryNum 1) d
          fatFindFileLoop cluster conv d fuel (add32 entryNum 1) next.1 (next.2.getD entry)
      else some (if eoc ≠ 0 then 0xFFFFFFFF else entryFirstClusterLow entry)

/-- SRCLINE: fat.c:501-524 -/
def fatFindFile (cluster : ℕ) (name : CString) (d : Disk) : Option ℕ := do
  let first ← fatDirEntry ctx junk cluster 0 d
  fatFindFileLoop ctx junk cluster (fatConvFname name) d fatFuel 0 first.1
    (first.2.getD junk.entry)

/-- The loop of `FAT_file_cluster`, with the token to look up and the `last` of `strtok`.
SRCLINE: fat.c:544-553 -/
def fatFileClusterLoop (d : Disk) : ℕ → ℕ → Option CString × Option CString → Option ℕ
  | 0, clus, _ => some clus
  | _ + 1, clus, (none, _) => some clus
  | fuel + 1, clus, (some name, last) => do
      let clus ← fatFindFile ctx junk clus name d
      if clus = 0xFFFFFFFF then some 0xFFFFFFFF else fatFileClusterLoop d fuel clus (strtok last)

/-- `none` where a search never ends, and for a path that does not fit the buffer.
SRCLINE: fat.c:534-556 -/
def fatFileCluster (path : CString) (d : Disk) : Option ℕ :=
  if 0xFFF ≤ path.length then none
  else
    let clus := if ctx.type = .fat32 then ctx.rootClusterNum else 0
    fatFileClusterLoop ctx junk d (path.length + 1) clus (strtok (some path))

/-- `context->root`.
SRCLINE: fat.c:403-409 -/
def fatRoot : FatHandle :=
  { fatGetRoot with startCluster := if ctx.type = .fat32 then ctx.rootClusterNum else 0 }

/-- `FAT_lookup` for one piece of a path after the other: the handle of the last one. -/
def fatResolve (d : Disk) : FatHandle → List CString → Option (Option FatHandle)
  | dir, [] => some (some dir)
  | dir, name :: names => do
      match ← fatLookup ctx junk dir name d with
      | none => some none
      | some handle => fatResolve d handle names

end

end LakeOS.Model
