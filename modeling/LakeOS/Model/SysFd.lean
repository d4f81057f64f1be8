import LakeOS.Model.FatNames
import LakeOS.Model.VfsEntry

/-!
# System calls with a descriptor

`ISR_syscall_handler` passes the value of `ebx` on as an `int`, and `descriptor_list` is indexed
with it as it is.  A call is `none` where it accesses memory outside `descriptor_list`, follows a
pointer to no live object or calls a null pointer.
-/

set_option autoImplicit false

namespace LakeOS.Model

open LakeOS.Library

/-- A system call with the value of `ebx`; `data` are the bytes at the buffer of a write. -/
inductive SysFdCall where
  | read (ebx len : ℕ)
  | write (ebx : ℕ) (data : List Byte)
  | close (ebx : ℕ)
  | fstat (ebx : ℕ)
  | lseek (ebx ecx edx : ℕ)

/-- What is left in `eax`, and what was stored through the pointer of the caller. -/
structure SysFdResult where
  eax : ℕ
  data : List Byte := []
  stat : Option FileStat := none

/-- The value of `ebx`. -/
def SysFdCall.ebx : SysFdCall → ℕ
  | .read ebx _ | .write ebx _ | .close ebx | .fstat ebx | .lseek ebx _ _ => ebx

/-- The `fd` that the handler passes. -/
def SysFdCall.fd (c : SysFdCall) : ℤ := toInt c.ebx

/-- Whether the descriptor is given back. -/
def SysFdCall.closes : SysFdCall → Bool
  | .close _ => true
  | _ => false

/-- The place of `descriptor_list[fd]`, unless it lies in front of the list. -/
def fdIndex (fd : ℤ) : Option ℕ := if 0 ≤ fd then some fd.toNat else none

section

variable {H F δ : Type}

/-- The slot of a descriptor is emptied.
SRCLINE: vfs.c:252-255 -/
def vfsRemDescriptor (fd : ℕ) (s : FileTable H F δ) : Option (FileTable H F δ) :=
  if fd < s.descriptorList.length then
    some { s with descriptorList := s.descriptorList.set fd 0 }
  else none

/-- `descriptor_list[fd]->driver` has the operation. -/
def fdPointer (fd : ℕ) (op : VfsOp) (s : FileTable H F δ) : Option Unit := do
  let file ← descriptorAt s fd
  if file.driver.isNull op then none else some ()

/-- SRCLINE: sys.c:75-77 -/
def sysRead (fd : ℤ) (count : ℕ) (s : FileTable H F δ) :
    Option (SysFdResult × FileTable H F δ) := do
  let fd ← fdIndex fd
  let res ← vfsRead fd count s
  return ({ eax := res.1.1, data := res.1.2 }, res.2)

/-- SRCLINE: sys.c:79-81 -/
def sysWrite (fd : ℤ) (data : List Byte) (s : FileTable H F δ) :
    Option (SysFdResult × FileTable H F δ) := do
  let fd ← fdIndex fd
  let res ← vfsWrite fd data s
  return ({ eax := res.1 }, res.2)

/-- SRCLINE: sys.c:87-90 -/
def sysClose (fd : ℤ) (s : FileTable H F δ) : Option (SysFdResult × FileTable H F δ) := do
  let fd ← fdIndex fd
  fdPointer fd .fClose s
  let s ← vfsClose fd s
  return ({ eax := 0 }, s)

/-- SRCLINE: sys.c:97-100 -/
def sysFstat (fd : ℤ) (s : FileTable H F δ) : Option (SysFdResult × FileTable H F δ) := do
  let fd ← fdIndex fd
  fdPointer fd .fStat s
  let stat ← vfsFstat fd s
  return ({ eax := 0, stat := some stat }, s)

/-- `VFS_seek` tests its pointer before it asks for the size.
SRCLINE: sys.c:102-104 -/
def sysLseek (fd offset whence : ℤ) (s : FileTable H F δ) :
    Option (SysFdResult × FileTable H F δ) := do
  let fd ← fdIndex fd
  if s.descriptorList[fd]? ≠ some 0 then fdPointer fd .fStat s
  let res ← vfsSeek fd offset whence s
  return ({ eax := res.1 }, res.2)

/-- A call with an `fd` in place of its own. -/
def SysFdCall.runWith (fd : ℤ) (s : FileTable H F δ) :
    SysFdCall → Option (SysFdResult × FileTable H F δ)
  | .read _ len => sysRead fd len s
  | .write _ data => sysWrite fd data s
  | .close _ => sysClose fd s
  | .fstat _ => sysFstat fd s
  | .lseek _ ecx edx => sysLseek fd (toInt ecx) (toInt edx) s

/-- SRCLINE: sys.c:9-17, sys.c:24-27, sys.c:34-42 -/
def sysFdRun (s : FileTable H F δ) (c : SysFdCall) : Option (SysFdResult × FileTable H F δ) :=
  c.runWith c.fd s

end

end LakeOS.Model
