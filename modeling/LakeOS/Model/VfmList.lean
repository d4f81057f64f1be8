import LakeOS.Model.Vfm

/-!
# The list of virtual files

`vfm_files` points to the first file, each file to the next one.  `VFM_create` appends a file,
`VFM_remove` unlinks one and hands its three blocks to `kfree`.  The pointers that `kmalloc`
returns are part of a call.
-/

set_option autoImplicit false

namespace LakeOS.Model

open LakeOS.Library

/-- `t_VFMFile`, as far as the list is concerned: its address, its name with the block that holds
it, and `content`, `0` until something is written. -/
structure VfmEntry where
  ptr : ℕ
  name : CString
  nameBlock : ℕ
  content : ℕ
deriving DecidableEq

/-- `VFM_create`, with the blocks of the file and of its name; the list has its root as parent.
SRCLINE: vfm.c:39-50, vfm.c:89-106 -/
def vfmCreate (ptr nameBlock : ℕ) (name : CString) (files : List VfmEntry) : List VfmEntry :=
  files ++ [{ ptr := ptr, name := name, nameBlock := nameBlock, content := 0 }]

/-- What `VFM_lookup` in the root returns, `none` for `NULL`.
SRCLINE: vfm.c:76-87 -/
def vfmLookupPtr (name : CString) (files : List VfmEntry) : Option ℕ :=
  match vfmLookup (files.map VfmEntry.name) .root name with
  | some (.file i) => files[i]?.map VfmEntry.ptr
  | _ => none

/-- A write to the file gives it a block, or another one.
SRCLINE: vfm.c:148-157 -/
def vfmGiveContent (ptr block : ℕ) (files : List VfmEntry) : List VfmEntry :=
  files.map fun f => if f.ptr = ptr then { f with content := block } else f

/-- What `VFM_free_file` hands to `kfree`.
SRCLINE: vfm.c:33-37 -/
def vfmFreeFile (file : VfmEntry) : List ℕ := [file.content, file.nameBlock, file.ptr]

/-- The list without the file; `none` where the loop follows a null pointer.
SRCLINE: vfm.c:112-117 -/
def vfmRemove (ptr : ℕ) (files : List VfmEntry) : Option (List VfmEntry) :=
  unlinkNext (·.ptr == ptr) files

/-- The bytes of a block that `kmalloc` returns for `n` bytes. -/
def usableBytes (n : ℕ) : ℕ := allocBytes n - sizeofSizeT

/-- A call of the driver. -/
inductive VfmListCall where
  | create (ptr nameBlock : ℕ) (name : CString)
  | lookup (name : CString)
  | write (ptr block : ℕ)
  | remove (ptr : ℕ)

/-- The pointer returned and the list, `none` where a null pointer is followed. -/
def vfmListCall : VfmListCall → List VfmEntry → Option (Option ℕ × List VfmEntry)
  | .create ptr nameBlock name, files => some (some ptr, vfmCreate ptr nameBlock name files)
  | .lookup name, files => some (vfmLookupPtr name files, files)
  | .write ptr block, files => some (none, vfmGiveContent ptr block files)
  | .remove ptr, files => (vfmRemove ptr files).map fun files => (none, files)

end LakeOS.Model
