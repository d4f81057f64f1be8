import Mathlib.Logic.Function.Basic
import Mathlib.Tactic.Common
import LakeOS.Library.Store
import LakeOS.Library.Unlink
import LakeOS.Model.Pit

/-!
# The virtual file system

Vnodes are named by their positions in a list, which only grows: `VFS_make_vnode`
allocates one and `vfs_root` is the first.  A vnode caches its children in the order in
which they were inserted.  Drivers are records of functions on their handles `H` and open
files `F`; all that they can read or change is the state `δ` of the volumes.

A string is the list of its bytes without the terminator.  The static variable of
`strtok` is passed along by the loop that owns it.
-/

set_option autoImplicit false

namespace LakeOS.Model

open LakeOS.Library

/-! ## Strings -/

/-- A string of C. -/
abbrev CString := List Byte

/-- The character `/`. -/
abbrev slash : Byte := 0x2F

/-- SRCLINE: memcmp.c:4-13 -/
def memcmp : CString → CString → ℕ → ℤ
  | a :: as, b :: bs, size + 1 =>
      if a < b then -1
      else if b < a then 1
      else memcmp as bs size
  | _, _, _ => 0

/-- SRCLINE: strcmp.c:3-7 -/
def strcmp (a b : CString) : ℤ :=
  memcmp a b (if a.length < b.length then a.length else b.length)

theorem strcmp_nil_left (name : CString) : strcmp [] name = 0 := by
  cases name with
  | nil => rfl
  | cons b bs => rfl

theorem strcmp_nil_right (name : CString) : strcmp name [] = 0 := by
  cases name with
  | nil => rfl
  | cons b bs => simp [strcmp, memcmp]

theorem strcmp_cons (x y : Byte) (s t : CString) :
    strcmp (x :: s) (y :: t) = if x < y then -1 else if y < x then 1 else strcmp s t := by
  have hlen : (if (x :: s).length < (y :: t).length then (x :: s).length else (y :: t).length) =
      (if s.length < t.length then s.length else t.length) + 1 := by
    simp only [List.length_cons, Nat.add_lt_add_iff_right]
    split <;> rfl
  rw [strcmp, hlen, memcmp]
  rfl

/-- `strtok` with the separator `/`, from the string that `last` points to: the token and
the new `last`.
SRCLINE: strtok.c:3-27 -/
def strtok : Option CString → Option CString × Option CString
  | none => (none, none)
  | some last =>
      let start := last.dropWhile (· == slash)
      if start = [] then (none, none)
      else if slash ∈ start then
        (some (start.takeWhile (· != slash)), some (start.dropWhile (· != slash)).tail)
      else (some start, none)

/-! ## Drivers and vnodes -/

/-- `t_FileChrono`. -/
structure FileChrono where
  year : ℕ
  seconds : ℕ
  minutes : ℕ
  hours : ℕ
  dayOfMonth : ℕ
  monthOfYear : ℕ

/-- The time, with the low byte of the year in place of the seconds.
SRCLINE: vfs.c:138-147 -/
def vfsCurrChrono (time : RtcTime) : FileChrono where
  seconds := time.year % 2 ^ 8
  minutes := time.minutes
  hours := time.hours
  dayOfMonth := time.monthday
  monthOfYear := time.month
  year := time.year

/-- `t_FileStat`. -/
structure FileStat where
  created : FileChrono
  modified : FileChrono
  size : ℕ
  flags : ℕ

/-- The operations that a driver may leave out. -/
inductive VfsOp where
  | fCreate | fRemove | fOpen | fClose | fStat | fSeek
  deriving DecidableEq

/-- `t_VFSOperations`, as far as the functions here call them.  `f_Stat` is passed a handle
or an open file, and is `none` where it does not return; a driver may have no `f_Seek` and no
`f_Remove`.  Where `f_Remove` returns, it has freed some handles.  `f_Read` and `f_Write` of a file
are `none` where they call a null pointer of it.  `nullOps` are the others that a driver leaves
out. -/
structure VfsOperations (H F δ : Type) where
  fLookup : H → CString → δ → Option H
  fCreate : H → CString → ℕ → δ → δ
  fOpen : H → ℕ → δ → F × δ
  fClose : F → δ → δ
  fRead : F → Option (ℕ → δ → (ℕ × List Byte) × δ)
  fWrite : F → Option (List Byte → δ → ℕ × δ)
  fNodeName : H → δ → CString
  fStat : H ⊕ F → δ → Option FileStat := fun _ _ => none
  fSeek : Option (F → ℕ → δ → ℕ × δ) := none
  fRemove : Option (H → δ → Option (List H × δ)) := none
  nullOps : List VfsOp := []

/-- `t_VFSNode`. -/
structure VfsNode (H F δ : Type) where
  handle : H
  driver : VfsOperations H F δ
  children : List ℕ

/-- The vnodes and the volumes. -/
structure Vfs (H F δ : Type) where
  nodes : List (VfsNode H F δ)
  volumes : δ

/-- `&vfs_root`. -/
abbrev vfsRoot : ℕ := 0

section

variable {H F δ : Type}

/-- `VFS_make_vnode`: the new vnode has the driver of its parent.
SRCLINE: vfs.c:163-174 -/
def vfsMakeVnode (s : Vfs H F δ) (parent : VfsNode H F δ) (handle : H) : ℕ × Vfs H F δ :=
  let node := { handle := handle, driver := parent.driver, children := [] }
  (s.nodes.length, { s with nodes := s.nodes ++ [node] })

/-- `VFS_insert_vnode`: a child is cached behind the others.
SRCLINE: vfs.c:149-161 -/
def vfsInsertVnode (s : Vfs H F δ) (parent child : ℕ) : Vfs H F δ :=
  { s with nodes := s.nodes.modify parent fun node =>
      { node with children := node.children ++ [child] } }

/-- `!strcmp(nodename, name)` for a cached child. -/
def nodeMatches (s : Vfs H F δ) (name : CString) (child : ℕ) : Bool :=
  match s.nodes[child]? with
  | none => false
  | some node => strcmp (node.driver.fNodeName node.handle s.volumes) name == 0

/-- SRCLINE: vfs.c:218-232 -/
def vfsLookup (s : Vfs H F δ) (parent : ℕ) (name : CString) : Option ℕ × Vfs H F δ :=
  match s.nodes[parent]? with
  | none => (none, s)
  | some dir =>
      match dir.children.find? (nodeMatches s name) with
      | some node => (some node, s)
      | none =>
          match dir.driver.fLookup dir.handle name s.volumes with
          | none => (none, s)
          | some handle =>
              let vnode := vfsMakeVnode s dir handle
              (some vnode.1, vfsInsertVnode vnode.2 parent vnode.1)

/-- The loop of `VFS_walk_path`, with the token to look up and the `last` of `strtok`.
SRCLINE: vfs.c:181-184 -/
def vfsWalkLoop : ℕ → Vfs H F δ → ℕ → Option CString × Option CString → Option ℕ × Vfs H F δ
  | 0, s, iter, _ => (some iter, s)
  | _ + 1, s, iter, (none, _) => (some iter, s)
  | fuel + 1, s, iter, (some name, last) =>
      match vfsLookup s iter name with
      | (none, s) => (none, s)
      | (some iter, s) => vfsWalkLoop fuel s iter (strtok last)

/-- `VFS_walk_path`.  Every token takes a byte of the path, so the loop ends in time.
SRCLINE: vfs.c:176-189 -/
def vfsWalkPath (s : Vfs H F δ) (path : CString) : Option ℕ × Vfs H F δ :=
  vfsWalkLoop (path.length + 1) s vfsRoot (strtok (some path))

/-- Where the backward scan for a slash stops, `-1` if there is none.
SRCLINE: vfs.c:194-200 -/
def lastSlash (path : CString) : ℕ → ℤ
  | 0 => -1
  | i + 1 => if path[i]? = some slash then i else lastSlash path i

/-- The directory of a path and the name of the file in it.
SRCLINE: vfs.c:191-209 -/
def vfsGetDirAndFname (s : Vfs H F δ) (path : CString) : (Option ℕ × CString) × Vfs H F δ :=
  let i := lastSlash path path.length
  let copy := if 0 ≤ i then path.take i.toNat else path
  let dir := vfsWalkPath s copy
  ((dir.1, path.drop (i + 1).toNat), dir.2)

/-- `VFS_make_file`.
SRCLINE: vfs.c:211-216 -/
def vfsMakeFile (s : Vfs H F δ) (parent : VfsNode H F δ) (name : CString) (attribs : ℕ) :
    Vfs H F δ :=
  { s with volumes := parent.driver.fCreate parent.handle name attribs s.volumes }

/-- `VFS_create`, `none` where it follows a null pointer.
SRCLINE: vfs.c:296-301 -/
def vfsCreate (s : Vfs H F δ) (path : CString) (attributes : ℕ) : Option (Vfs H F δ) :=
  let file := vfsGetDirAndFname s path
  match file.1.1 with
  | none => none
  | some dir => (file.2.nodes[dir]?).map fun parent =>
      vfsMakeFile file.2 parent file.1.2 attributes

end

/-! ## Removing a file -/

section

variable {H F δ : Type}

/-- `vnode->parent`, the vnode that it is a child of. -/
def vfsParent (s : Vfs H F δ) (vnode : ℕ) : Option ℕ :=
  (List.range s.nodes.length).find? fun i =>
    (s.nodes[i]?.map fun node => decide (vnode ∈ node.children)).getD false

/-- The children without `vnode`.  The child in front of it is looked for, and the loop follows
a null pointer, `none`, if there is none.
SRCLINE: vfs.c:308-313 -/
def vfsUnlink (vnode : ℕ) (children : List ℕ) : Option (List ℕ) :=
  unlinkNext (· == vnode) children

/-- The handles that were freed and what is left; `none` where it calls or follows a null
pointer, or the driver does not return.
SRCLINE: vfs.c:303-316 -/
def vfsRemove (s : Vfs H F δ) (path : CString) : Option (List H × Vfs H F δ) := do
  let walk := vfsWalkPath s path
  let vnode ← walk.1
  let node ← walk.2.nodes[vnode]?
  let fRemove ← node.driver.fRemove
  let removed ← fRemove node.handle walk.2.volumes
  let parent ← vfsParent walk.2 vnode
  let dir ← walk.2.nodes[parent]?
  let children ← vfsUnlink vnode dir.children
  return (removed.1 ++ [node.handle],
    { nodes := walk.2.nodes.modify parent fun dir => { dir with children := children }
      volumes := removed.2 })

end

/-! ## Open files -/

/-- `t_FileDescriptor`. -/
structure FileDescriptor (H F δ : Type) where
  descriptor : F
  driver : VfsOperations H F δ

/-- The open files: `descriptor_list`, with `0` for `NULL`, and the descriptors that
`kmalloc` has handed out and `kfree` has not taken back. -/
structure FileTable (H F δ : Type) where
  vfs : Vfs H F δ
  descriptorList : List ℕ
  heap : ℕ → Option (FileDescriptor H F δ)

section

variable {H F δ : Type}

/-- `*descriptor_list[fd]`. -/
def descriptorAt (s : FileTable H F δ) (fd : ℕ) : Option (FileDescriptor H F δ) :=
  s.descriptorList[fd]?.bind s.heap

/-- SRCLINE: vfs.c:237-250 -/
def vfsAddDescriptor (file : ℕ) (s : FileTable H F δ) : ℕ × FileTable H F δ :=
  let i := s.descriptorList.findIdx (· == 0)
  if i < s.descriptorList.length then
    (i, { s with descriptorList := s.descriptorList.set i file })
  else (s.descriptorList.length, { s with descriptorList := s.descriptorList ++ [file] })

/-- A descriptor is allocated at `res`, filled and added. -/
def newDescriptor (res : ℕ) (file : FileDescriptor H F δ) (s : FileTable H F δ) :
    ℕ × FileTable H F δ :=
  vfsAddDescriptor res { s with heap := Function.update s.heap res (some file) }

/-- `VFS_open`, with the pointer `res` that `kmalloc` returns; `none` where it follows a
null pointer.
SRCLINE: vfs.c:261-274 -/
def vfsOpen (res : ℕ) (path : CString) (mode : ℕ) (s : FileTable H F δ) :
    Option (ℕ × FileTable H F δ) := do
  let walk := vfsWalkPath s.vfs path
  let vnode ← walk.1
  let node ← walk.2.nodes[vnode]?
  let file := node.driver.fOpen node.handle mode walk.2.volumes
  let s := { s with vfs := { walk.2 with volumes := file.2 } }
  return newDescriptor res ⟨file.1, node.driver⟩ s

/-- `VFS_close`, `none` where the descriptor is no live object.
SRCLINE: vfs.c:276-280 -/
def vfsClose (fd : ℕ) (s : FileTable H F δ) : Option (FileTable H F δ) := do
  let p ← s.descriptorList[fd]?
  let file ← s.heap p
  let volumes := file.driver.fClose file.descriptor s.vfs.volumes
  return { s with
    vfs := { s.vfs with volumes := volumes }, heap := Function.update s.heap p none }

/-- SRCLINE: vfs.c:282-287 -/
def vfsWrite (fd : ℕ) (data : List Byte) (s : FileTable H F δ) :
    Option (ℕ × FileTable H F δ) := do
  let file ← descriptorAt s fd
  let fWrite ← file.driver.fWrite file.descriptor
  let res := fWrite data s.vfs.volumes
  return (res.1, { s with vfs := { s.vfs with volumes := res.2 } })

/-- SRCLINE: vfs.c:289-294 -/
def vfsRead (fd len : ℕ) (s : FileTable H F δ) :
    Option ((ℕ × List Byte) × FileTable H F δ) := do
  let file ← descriptorAt s fd
  let fRead ← file.driver.fRead file.descriptor
  let res := fRead len s.vfs.volumes
  return (res.1, { s with vfs := { s.vfs with volumes := res.2 } })

/-- SRCLINE: vfs.c:318-321 -/
def vfsStat (path : CString) (s : FileTable H F δ) : Option (FileStat × FileTable H F δ) := do
  let walk := vfsWalkPath s.vfs path
  let vnode ← walk.1
  let node ← walk.2.nodes[vnode]?
  let stat ← node.driver.fStat (.inl node.handle) walk.2.volumes
  return (stat, { s with vfs := walk.2 })

/-- SRCLINE: vfs.c:323-328 -/
def vfsFstat (fd : ℕ) (s : FileTable H F δ) : Option FileStat := do
  let file ← descriptorAt s fd
  file.driver.fStat (.inr file.descriptor) s.vfs.volumes

/-! ### `VFS_seek` -/

/-- `(size_t) -1`. -/
abbrev minusOne : ℕ := 2 ^ 32 - 1

/-- An unsigned position and a signed offset are added. -/
def addOffset (pos : ℕ) (offset : ℤ) : ℕ := ((pos + offset) % 2 ^ 32).toNat

theorem addOffset_lt (pos : ℕ) (offset : ℤ) : addOffset pos offset < 2 ^ 32 := by
  unfold addOffset
  omega

/-- `descriptor->driver->f_Seek(descriptor->descriptor, position)`. -/
def driverSeek (fd position : ℕ) (s : FileTable H F δ) : Option (ℕ × FileTable H F δ) := do
  let file ← descriptorAt s fd
  let fSeek ← file.driver.fSeek
  let res := fSeek file.descriptor position s.vfs.volumes
  return (res.1, { s with vfs := { s.vfs with volumes := res.2 } })

/-- Zeros are written `chunk` at a time, and `stat.size` counts them.
SRCLINE: vfs.c:368-371, vfs.c:373-376 -/
def zeroFillLoop (fd chunk newPos : ℕ) :
    ℕ → ℕ → FileTable H F δ → Option (ℕ × FileTable H F δ)
  | 0, _, _ => none
  | fuel + 1, size, s =>
      if chunk ≤ newPos - size then
        (vfsWrite fd (List.replicate chunk 0) s).bind fun res =>
          zeroFillLoop fd chunk newPos fuel (size + chunk) res.2
      else some (size, s)

/-- The three writes.
SRCLINE: vfs.c:368-378 -/
def zeroFill (fd newPos size : ℕ) (s : FileTable H F δ) : Option (FileTable H F δ) := do
  let long ← zeroFillLoop fd 0xFF newPos (newPos + 1) size s
  let short ← zeroFillLoop fd 0xF newPos (newPos + 1) long.1 long.2
  let res ← vfsWrite fd (List.replicate (newPos - short.1) 0) short.2
  return res.2

/-- SRCLINE: vfs.c:364-379 -/
def expandFile (fd newPos size : ℕ) (s : FileTable H F δ) : Option (FileTable H F δ) :=
  if size < newPos then zeroFill fd newPos size s else some s

/-- `VFS_seek` from the test of `new_pos` on, which is unsigned.
SRCLINE: vfs.c:361-392 -/
def seekTo (fd newPos size : ℕ) (s : FileTable H F δ) : Option (ℕ × FileTable H F δ) :=
  if newPos < 0 then some (minusOne, s)
  else do
    let s ← expandFile fd newPos size s
    let moved ← driverSeek fd newPos s
    let asked ← driverSeek fd minusOne moved.2
    return (if asked.1 = newPos then newPos else minusOne, asked.2)

/-- SRCLINE: vfs.c:330-393 -/
def vfsSeek (fd : ℕ) (offset whence : ℤ) (s : FileTable H F δ) :
    Option (ℕ × FileTable H F δ) :=
  if s.descriptorList[fd]? = some 0 then some (minusOne, s)
  else do
    let stat ← vfsFstat fd s
    if whence = 0 then
      if offset < 0 then some (minusOne, s) else seekTo fd offset.toNat stat.size s
    else if whence = 1 then do
      let asked ← driverSeek fd minusOne s
      seekTo fd (addOffset asked.1 offset) stat.size asked.2
    else if whence = 2 then seekTo fd (addOffset stat.size offset) stat.size s
    else some (minusOne, s)

end

end LakeOS.Model
