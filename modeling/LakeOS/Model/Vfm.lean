import LakeOS.Model.Kmm
import LakeOS.Model.Vfs

/-!
# Virtual files

A virtual file keeps its bytes in one block of the kernel heap.  Its size is not stored:
it is the size of that block, and a write past it asks for a larger one.
-/

set_option autoImplicit false

namespace LakeOS.Model

open LakeOS.Library

/-- `t_VFMFile`, as far as the operations on an open file use it. -/
structure VfmFile where
  modified : FileChrono
  content : ℕ
  pos : ℕ
  opflags : ℕ
  fileflags : ℕ

/-- A file, the memory its block is in and `vfm_start_chrono`. -/
structure Vfm where
  memory : Memory
  startChrono : FileChrono
  file : VfmFile

/-- The file that `VFM_create` sets up.
SRCLINE: vfm.c:94-102 -/
def vfmNewFile (startChrono : FileChrono) (attribs : ℕ) : VfmFile where
  content := 0
  pos := 0
  opflags := 0
  fileflags := attribs
  modified := startChrono

/-- SRCLINE: vfm.c:122-127 -/
def vfmOpen (mode : ℕ) (s : Vfm) : Vfm :=
  { s with file := { s.file with opflags := mode, pos := 0 } }

/-- SRCLINE: vfm.c:129-132 -/
def vfmClose (s : Vfm) : Vfm :=
  { s with file := { s.file with opflags := 0, pos := 0 } }

/-- The number of bytes, the bytes and the new state.
SRCLINE: vfm.c:138-146 -/
def vfmRead (bytes : ℕ) (s : Vfm) : (ℕ × List Byte) × Vfm :=
  let fsize := ksize s.memory s.file.content
  let csize := if fsize < add32 s.file.pos bytes then sub32 fsize s.file.pos else bytes
  ((csize, s.memory.read (s.file.content + s.file.pos) csize),
    { s with file := { s.file with pos := add32 s.file.pos csize } })

/-- The block of the file before `bytes` bytes are written.
SRCLINE: vfm.c:149-151 -/
def vfmGrow (bytes : ℕ) (s : Vfm) : Option Vfm :=
  if ksize s.memory s.file.content < add32 s.file.pos bytes then
    (kexpand s.memory s.file.content bytes).map fun grown =>
      { s with memory := grown.2, file := { s.file with content := grown.1 } }
  else some s

/-- SRCLINE: vfm.c:148-157 -/
def vfmWrite (data : List Byte) (time : RtcTime) (s : Vfm) : Option (ℕ × Vfm) :=
  (vfmGrow data.length s).map fun s =>
    (data.length, { s with
      memory := s.memory.write (s.file.content + s.file.pos) data
      file := { s.file with
        pos := add32 s.file.pos data.length
        modified := vfsCurrChrono time } })

/-- SRCLINE: vfm.c:190-197 -/
def vfmFstat (s : Vfm) : FileStat where
  created := s.startChrono
  modified := s.file.modified
  size := ksize s.memory s.file.content
  flags := s.file.fileflags

/-- SRCLINE: vfm.c:199-201 -/
def vfmSeek (position : ℕ) (s : Vfm) : Vfm :=
  { s with file := { s.file with pos := position } }

/-- The driver for one file.  `VFM_seek` returns nothing: a caller that looks for a value
finds what the register holds, `eax`.  `write` is `VFM_write` where that returns. -/
def vfmOperations (eax : ℕ → Vfm → ℕ) (write : List Byte → Vfm → ℕ × Vfm) :
    VfsOperations Unit Unit Vfm where
  fLookup := fun _ _ _ => none
  fCreate := fun _ _ _ s => s
  fOpen := fun _ mode s => ((), vfmOpen mode s)
  fClose := fun _ s => vfmClose s
  fRead := fun _ => some fun bytes s => vfmRead bytes s
  fWrite := fun _ => some fun data s => write data s
  fNodeName := fun _ _ => []
  fStat := fun _ s => some (vfmFstat s)
  fSeek := some fun _ position s => (eax position s, vfmSeek position s)

/-! ## The directory -/

/-- What a pointer of the driver points to: `vfm_files`, a file of the list, or something
that is no file. -/
inductive VfmNode where
  | root
  | file (i : ℕ)
  | other (p : ℕ)
deriving DecidableEq

/-- `VFM_lookup` in the list of the names.
SRCLINE: vfm.c:76-87 -/
def vfmLookup (names : List CString) (parent : VfmNode) (name : CString) : Option VfmNode :=
  if parent ≠ .root then none
  else ((List.range names.length).find? fun i => strcmp (names.getD i []) name = 0).map .file

/-- `iter->next`; `wild` is what lies behind `vfm_files` and objects that are no files. -/
def vfmNext (names : List CString) (wild : VfmNode → Option VfmNode) : VfmNode → Option VfmNode
  | .file i => if i + 1 < names.length then some (.file (i + 1)) else none
  | node => wild node

/-- The loop of `VFM_ReadDir`.
SRCLINE: vfm.c:176-178 -/
def vfmReadDirLoop (names : List CString) (wild : VfmNode → Option VfmNode) :
    (n : ℕ) → VfmNode → Option VfmNode
  | 0, iter => some iter
  | n + 1, iter => (vfmNext names wild iter).bind (vfmReadDirLoop names wild n)

/-- SRCLINE: vfm.c:170-181 -/
def vfmReadDir (names : List CString) (wild : VfmNode → Option VfmNode) (dir : VfmNode)
    (n : ℕ) : Option VfmNode :=
  if dir ≠ .root then none else vfmReadDirLoop names wild n dir

/-- The name of the root is `VIRT`.
SRCLINE: vfm.c:183-188 -/
def vfmNodename (names : List CString) (wildName : ℕ → CString) : VfmNode → CString
  | .root => [0x56, 0x49, 0x52, 0x54]
  | .file i => names.getD i []
  | .other p => wildName p

end LakeOS.Model
