import LakeOS.Model.Umm

/-!
# `mmap` and `munmap`

The two system calls of `sys.c` that edit the user memory of the running process.  The
files are behind `FileOps`.  What `sys_read` and `memset` write to user memory is not
modelled, only what they return.
-/

set_option autoImplicit false

namespace LakeOS.Model

open LakeOS.Library

/-- `SYSCALL_MMAP_FLAG_FIXED`. -/
abbrev syscallMmapFlagFixed : ℕ := 0x10

/-- `SYSCALL_MMAP_FLAG_ANONYMOUS`. -/
abbrev syscallMmapFlagAnonymous : ℕ := 0x20

/-- `SYSCALL_LSEEK_SET`. -/
abbrev syscallLseekSet : ℕ := 0

/-- `SYSCALL_LSEEK_CUR`. -/
abbrev syscallLseekCur : ℕ := 1

/-- `(void*) -1`. -/
abbrev mapFailed : ℕ := 0xFFFFFFFF

/-- The operations on open files: both return a `size_t`. -/
structure FileOps (φ : Type) where
  sysLseek : (fd offset whence : ℕ) → φ → ℕ × φ
  sysRead : (fd len : ℕ) → φ → ℕ × φ

/-- What a system call of the running process works on. -/
structure UserState (σ φ : Type) where
  blocks : List UmmBlock
  paging : σ
  files : φ

/-- `(length + 0xFFF) & ~0xFFFU` on 32 bits.
SRCLINE: sys.c:111 -/
def roundLength (length : ℕ) : ℕ := add32 length 0xFFF / 0x1000 * 0x1000

section

variable {σ φ : Type} (pages : PageOps σ) (files : FileOps φ)

/-- The seek, the read and the seek back: whether both seeks went where they should, and
the files afterwards.
SRCLINE: sys.c:130-140 -/
def mmapFile (fd offset length : ℕ) (f : φ) : Bool × φ :=
  let cur := files.sysLseek fd 0 syscallLseekCur f
  let seek := files.sysLseek fd offset syscallLseekSet cur.2
  if seek.1 ≠ offset then (false, seek.2)
  else
    let back := files.sysLseek fd cur.1 syscallLseekSet (files.sysRead fd length seek.2).2
    (back.1 = cur.1, back.2)

/-- The part of `sys_mmap` behind the mapping: the pages are filled, or the block is
unmapped again.
SRCLINE: sys.c:124-147 -/
def mmapFill (res length flags fd offset : ℕ) (u : UserState σ φ) :
    Option (ℕ × UserState σ φ) :=
  if res = 0 then some (mapFailed, u)
  else if hasFlag flags syscallMmapFlagAnonymous then some (res, u)
  else
    let file := mmapFile files fd offset length u.files
    if file.1 then some (res, { u with files := file.2 })
    else (ummUnmapPages pages res u.blocks u.paging).map
      fun r => (mapFailed, { blocks := r.1, paging := r.2, files := file.2 })

/-- SRCLINE: sys.c:106-148 -/
def sysMmap (addr length prot flags fd offset : ℕ) (u : UserState σ φ) :
    Option (ℕ × UserState σ φ) :=
  if addr % 0x1000 ≠ 0 then some (0, u)
  else
    let mapped :=
      if hasFlag flags syscallMmapFlagFixed then
        (addr, umapPages pages addr (roundLength length) prot flags u.blocks u.paging)
      else uallocPages pages (roundLength length) prot flags u.blocks u.paging
    mmapFill pages files mapped.1 length flags fd offset
      { u with blocks := mapped.2.1, paging := mapped.2.2 }

/-- SRCLINE: sys.c:150-162 -/
def sysMunmap (addr length : ℕ) (u : UserState σ φ) : Option (ℕ × UserState σ φ) :=
  if addr % 0x1000 ≠ 0 then some (mapFailed, u)
  else (ummUnmapRange pages addr (roundLength length) u.blocks u.paging).map
    fun r => (0, { u with blocks := r.1, paging := r.2 })

end

end LakeOS.Model
