import LakeOS.Model.Vfs

/-!
# The calls that take a path

`VFS_open`, `VFS_stat`, `VFS_remove` and `VFS_create` walk to a vnode and call its driver through
a pointer.  The walk may have ended with `NULL`, and a driver may have left the pointer out:
`EntryFault` is what such a call follows.
-/

set_option autoImplicit false

namespace LakeOS.Model

open LakeOS.Library

/-- What a call fails on: a null vnode, a null pointer of a driver, or anything that comes after
these. -/
inductive EntryFault where
  | nullVnode
  | nullPointer (op : VfsOp)
  | later

/-- A call with a path.  `res` is the pointer that `kmalloc` returns. -/
inductive EntryCall where
  | openFile (res : ℕ) (path : CString) (mode : ℕ)
  | statFile (path : CString)
  | removeFile (path : CString)
  | createFile (path : CString) (attributes : ℕ)

/-- What a call returns or stores, and the handles that it has freed. -/
inductive EntryResult (H : Type) where
  | descriptor (fd : ℕ)
  | stat (stat : FileStat)
  | removed (freed : List H)
  | created

/-- The operation that a call is for. -/
def EntryCall.op : EntryCall → VfsOp
  | .openFile .. => .fOpen
  | .statFile _ => .fStat
  | .removeFile _ => .fRemove
  | .createFile .. => .fCreate

section

variable {H F δ : Type}

/-- Whether a pointer in the table of a driver is null. -/
def VfsOperations.isNull (driver : VfsOperations H F δ) : VfsOp → Bool
  | .fRemove => driver.fRemove.isNone
  | .fSeek => driver.fSeek.isNone
  | op => decide (op ∈ driver.nullOps)

/-- The walk of a call, before the vnode is followed.
SRCLINE: vfs.c:262, vfs.c:298, vfs.c:304, vfs.c:319 -/
def EntryCall.walk (v : Vfs H F δ) : EntryCall → Option ℕ × Vfs H F δ
  | .openFile _ path _ | .statFile path | .removeFile path => vfsWalkPath v path
  | .createFile path _ => ((vfsGetDirAndFname v path).1.1, (vfsGetDirAndFname v path).2)

/-- The vnode that the walk returns. -/
def EntryCall.vnode (c : EntryCall) (v : Vfs H F δ) : Option (VfsNode H F δ) :=
  (c.walk v).1.bind fun vnode => (c.walk v).2.nodes[vnode]?

/-- A call, where the walk and the driver have what it needs. -/
def EntryCall.perform (s : FileTable H F δ) :
    EntryCall → Option (EntryResult H × FileTable H F δ)
  | .openFile res path mode =>
      (vfsOpen res path mode s).map fun r => (.descriptor r.1, r.2)
  | .statFile path => (vfsStat path s).map fun r => (.stat r.1, r.2)
  | .removeFile path =>
      (vfsRemove s.vfs path).map fun r => (.removed r.1, { s with vfs := r.2 })
  | .createFile path attributes =>
      (vfsCreate s.vfs path attributes).map fun v => (.created, { s with vfs := v })

/-- A call: neither the vnode nor the pointer of its driver is tested.
SRCLINE: vfs.c:261-274, vfs.c:296-321 -/
def entryRun (c : EntryCall) (s : FileTable H F δ) :
    Except EntryFault (EntryResult H × FileTable H F δ) :=
  match c.vnode s.vfs with
  | none => .error .nullVnode
  | some node =>
      if node.driver.isNull c.op then .error (.nullPointer c.op)
      else
        match c.perform s with
        | none => .error .later
        | some r => .ok r

end

end LakeOS.Model
