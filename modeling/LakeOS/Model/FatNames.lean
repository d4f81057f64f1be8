import LakeOS.Model.FatDir

/-!
# The loops of `FAT_conv_fname`

The name is converted in place: the result goes, character by character, to the memory that
`out` points to.  Lengths are `int`s there, so a string of `2 ^ 31` characters or more has a
negative one.
-/

set_option autoImplicit false

namespace LakeOS.Model

open LakeOS.Library

/-- A number as an `int`. -/
def toInt (v : ℕ) : ℤ := if v % 2 ^ 32 < 2 ^ 31 then v % 2 ^ 32 else v % 2 ^ 32 - 2 ^ 32

/-- `name[i]`, with the character that ends the string. -/
def charAt (name : CString) (i : ℕ) : Byte := name.getD i 0

/-- The characters of the base: the index that is reached and the memory.
SRCLINE: fat.c:597-598 -/
def fatConvBase (name : CString) (l : ℤ) (out : ℕ) : (fuel i : ℕ) → Store Byte → ℕ × Store Byte
  | 0, i, m => (i, m)
  | fuel + 1, i, m =>
      if i < l ∧ i < 8 ∧ charAt name i ≠ dot then
        fatConvBase name l out fuel (i + 1) (m.write (out + i) [charAt name i])
      else (i, m)

/-- The blanks up to a bound: the index that is reached and the memory.
SRCLINE: fat.c:601-602, fat.c:609-610 -/
def fatConvPad (bound out : ℕ) : (fuel j : ℕ) → Store Byte → ℕ × Store Byte
  | 0, j, m => (j, m)
  | fuel + 1, j, m =>
      if j < bound then fatConvPad bound out fuel (j + 1) (m.write (out + j) [blank]) else (j, m)

/-- The characters of the extension.  The bound is on the index into the name.
SRCLINE: fat.c:606-607 -/
def fatConvExt (name : CString) (l : ℤ) (out : ℕ) :
    (fuel i j : ℕ) → Store Byte → ℕ × Store Byte
  | 0, _, j, m => (j, m)
  | fuel + 1, i, j, m =>
      if i < l ∧ i < 11 then
        fatConvExt name l out fuel (i + 1) (j + 1) (m.write (out + j) [charAt name i])
      else (j, m)

/-- The memory after `FAT_conv_fname`.  `memcpy` takes the length as a `size_t`.
SRCLINE: fat.c:586-611 -/
def fatConvFnameAt (name : CString) (out : ℕ) (m : Store Byte) : Store Byte :=
  let l := toInt name.length
  if charAt name 0 = dot ∧ l < 3 then
    let m := m.write out (name.take (l % 2 ^ 32).toNat)
    m.write (out + l).toNat (List.replicate (11 - l).toNat blank)
  else
    let base := fatConvBase name l out 8 0 m
    let pad := fatConvPad 8 out 8 base.1 base.2
    let ext := fatConvExt name l out 11 (base.1 + 1) pad.1 pad.2
    (fatConvPad 11 out 11 ext.1 ext.2).2

end LakeOS.Model
