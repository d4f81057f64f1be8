import LakeOS.Library.StringAt
import LakeOS.Model.Ps2
import LakeOS.Model.Vfs

/-!
# Walking a path in memory

`VFS_walk_path` cuts a copy of its path into pieces.  Here the copy and the string of the
caller are bytes in memory, and the static pointer of `strtok` is passed along.  A run that
does not end gives `none`.
-/

set_option autoImplicit false

namespace LakeOS.Model

open LakeOS.Library

section

variable (mem : Store Byte)

/-- The address of a character, `none` for `NULL`.
SRCLINE: strchr.c:3-13 -/
def strchr (chr : Byte) : ℕ → ℕ → Option (Option ℕ)
  | 0, _ => none
  | fuel + 1, str =>
      if mem str ≠ 0 then
        if mem str = chr then some (some str) else strchr chr fuel (str + 1)
      else some (if chr = 0 then some str else none)

/-- The first character of the set that is in the string, not the first one of the string.
SRCLINE: strpbrk.c:3-11 -/
def strpbrk (fuel str : ℕ) : ℕ → ℕ → Option (Option ℕ)
  | 0, _ => none
  | n + 1, set =>
      if mem set = 0 then some none
      else do
        match ← strchr mem (mem set) fuel str with
        | some found => some (some found)
        | none => strpbrk fuel str n (set + 1)

/-- The loop of `strtok` that passes over separators.
SRCLINE: strtok.c:9 -/
def strtokSkip (sep fuel : ℕ) : ℕ → ℕ → Option ℕ
  | 0, _ => none
  | n + 1, last =>
      if mem last = 0 then some last
      else do
        match ← strchr mem (mem last) fuel sep with
        | some _ => strtokSkip sep fuel n (last + 1)
        | none => some last

/-- What `strtok` leaves behind: the token, the static `last` and the memory. -/
structure Token where
  start : Option ℕ
  last : Option ℕ
  mem : Store Byte

/-- SRCLINE: strtok.c:3-27 -/
def strtokAt (fuel sep : ℕ) (last str : Option ℕ) : Option Token :=
  match str.or last with
  | none => some ⟨none, none, mem⟩
  | some last => do
      let start ← strtokSkip mem sep fuel fuel last
      if mem start = 0 then some ⟨none, none, mem⟩
      else
        match ← strpbrk mem fuel start fuel sep with
        | some found => some ⟨some start, some (found + 1), mem.write found [0]⟩
        | none => some ⟨some start, none, mem⟩

/-- `strdup`, with `block` as the memory from `kmalloc`.
SRCLINE: strdup.c:7-12 -/
def strdup (str block : ℕ) : Store Byte :=
  mem.write block (mem.read str (strlen mem str + 1))

end

section

variable {H F δ : Type}

/-- What a walk leaves behind: its result, the static `last` of `strtok`, the memory, and
whether the copy of the path was freed. -/
structure WalkRun (H F δ : Type) where
  found : Option ℕ
  vfs : Vfs H F δ
  last : Option ℕ
  mem : Store Byte
  copyFreed : Bool

/-- The loop of `VFS_walk_path`; a lookup reads the name where the token begins.
SRCLINE: vfs.c:181-188 -/
def vfsWalkCopy (fuel sep : ℕ) : ℕ → Vfs H F δ → ℕ → Token → Option (WalkRun H F δ)
  | 0, _, _, _ => none
  | n + 1, s, iter, token =>
      match token.start with
      | none => some ⟨some iter, s, token.last, token.mem, true⟩
      | some name =>
          match vfsLookup s iter (token.mem.read name (strlen token.mem name)) with
          | (none, s) => some ⟨none, s, token.last, token.mem, false⟩
          | (some iter, s) => do
              let next ← strtokAt token.mem fuel sep token.last none
              vfsWalkCopy fuel sep n s iter next

/-- `VFS_walk_path` for the string at `path`, with its copy at `block`.
SRCLINE: vfs.c:176-189 -/
def vfsWalkAt (mem : Store Byte) (fuel sep path block : ℕ) (last : Option ℕ) (s : Vfs H F δ) :
    Option (WalkRun H F δ) := do
  let token ← strtokAt (strdup mem path block) fuel sep last (some block)
  vfsWalkCopy fuel sep fuel s vfsRoot token

end

end LakeOS.Model
