import LakeOS.Model.Vfs

/-!
# Device files

The driver keeps a list of device files, which `DEV_init` begins with `STDOUT`.  A file
is named by its place in the list.
-/

set_option autoImplicit false

namespace LakeOS.Model

open LakeOS.Library

/-- `DEV_lookup` in the root, with the list of the names.
SRCLINE: dev.c:97-110 -/
def devLookup (names : List CString) (name : CString) : Option ℕ :=
  (List.range names.length).find? fun i => strcmp (names.getD i []) name = 0

/-- The loop of `DEV_readdir`; it moves at most `n` times.
SRCLINE: dev.c:128-131 -/
def devReaddirLoop (names : List CString) (n : ℕ) : (fuel i : ℕ) → ℕ
  | 0, i => i
  | fuel + 1, i =>
      if i + 1 < names.length ∧ i < n then devReaddirLoop names n fuel (i + 1) else i

/-- SRCLINE: dev.c:124-137 -/
def devReaddir (names : List CString) (n : ℕ) : Option ℕ :=
  let i := devReaddirLoop names n n 0
  if i ≠ n then none else some i

/-- SRCLINE: dev.c:139-144 -/
def devNodename (names : List CString) (file : ℕ) : CString := names.getD file []

/-! ## The table of operations -/

/-- `FILE_ATTRIB_SYSTEM`. -/
abbrev fileAttribSystem : ℕ := 8

/-- `DEV_fstat` of a file that was `modified` at some time, or of the root.
SRCLINE: dev.c:146-160 -/
def devFstat (chrono : FileChrono) (modified : ℕ → FileChrono) : Option ℕ → FileStat
  | none => ⟨⟨0, 0, 0, 0, 0, 0⟩, ⟨0, 0, 0, 0, 0, 0⟩, 0, 0⟩
  | some file => ⟨chrono, modified file, 0, fileAttribSystem⟩

/-- `dev_vfs_ops`, with the root as `none`: the fields `f_Create`, `f_Remove`, `f_Open`, `f_Close`
and `f_Seek` are null.  `DEV_read` and `DEV_write` call the function `f_read` or `f_write` of the
file, which may be null; the root has neither.
SRCLINE: dev.c:6-21, dev.c:112-122 -/
def devOperations {δ : Type} (chrono : FileChrono) (modified : ℕ → FileChrono)
    (fRead : ℕ → Option (ℕ → δ → (ℕ × List Byte) × δ))
    (fWrite : ℕ → Option (List Byte → δ → ℕ × δ)) (names : List CString) :
    VfsOperations (Option ℕ) (Option ℕ) δ where
  fLookup := fun parent name _ =>
    if parent.isNone then (devLookup names name).map some else none
  fCreate := fun _ _ _ v => v
  fOpen := fun file _ v => (file, v)
  fClose := fun _ v => v
  fRead := fun file => file.bind fRead
  fWrite := fun file => file.bind fWrite
  fNodeName := fun file _ =>
    match file with
    | none => [0x44, 0x45, 0x56]
    | some file => devNodename names file
  fStat := fun file _ => some (devFstat chrono modified (file.elim id id))
  nullOps := [.fCreate, .fOpen, .fClose]

/-- `STDOUT`. -/
abbrev nameStdout : CString := [0x53, 0x54, 0x44, 0x4F, 0x55, 0x54]

/-- `STDIN`. -/
abbrev nameStdin : CString := [0x53, 0x54, 0x44, 0x49, 0x4E]

/-- The driver after `DEV_init`: `STDOUT` has only an `f_write`, `terminal_write`, and `STDIN` has
only an `f_read`, `PS2_read_bytes`.
SRCLINE: dev.c:54-80 -/
def devInit {δ : Type} (chrono : FileChrono) (modified : ℕ → FileChrono)
    (ps2ReadBytes : ℕ → δ → (ℕ × List Byte) × δ) (terminalWrite : List Byte → δ → ℕ × δ) :
    VfsOperations (Option ℕ) (Option ℕ) δ :=
  devOperations chrono modified
    (fun file => match file with
      | 1 => some ps2ReadBytes
      | _ => none)
    (fun file => match file with
      | 0 => some terminalWrite
      | _ => none)
    [nameStdout, nameStdin]

end LakeOS.Model
