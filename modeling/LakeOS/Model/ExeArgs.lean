import LakeOS.Model.Memmove
import LakeOS.Model.Ps2

/-!
# The arguments of a process

`add_entrance_args` copies the arguments of a process onto its stack: first the strings,
downwards, then the array of their addresses, which `temp_argv` holds until then, and then
`argc`.  `memcpy` returns the end of the destination and not its start.
-/

set_option autoImplicit false

namespace LakeOS.Model

open LakeOS.Library

/-- `memcpy`: the pointer returned and the memory afterwards.
SRCLINE: memcpy.c:4-23 -/
def memcpy (m : Memory) (dst src len : ℕ) : ℕ × Memory :=
  let m := copyUp m dst src (len / 4)
  let dst := dst + 4 * (len / 4)
  let src := src + 4 * (len / 4)
  let m₁ := if 2 ≤ len % 4 then m.save 2 dst (m.load 2 src) else m
  let done := if 2 ≤ len % 4 then 2 else 0
  (dst + done,
    if len % 2 = 1 then m₁.save 1 (dst + done) (m₁.load 1 (src + done)) else m₁)

/-- `strcpy`, which returns `dest`.
SRCLINE: strcpy.c:3-6 -/
def strcpy (m : Memory) (dest src : ℕ) : Memory := (memcpy m dest src (strlen m src + 1)).2

/-- `stack_base` and the memory after the first `n` rounds of the loop.
SRCLINE: exe.c:10-14 -/
def copyArgs (argv tempArgv : ℕ) : ℕ → ℕ × Memory → ℕ × Memory
  | 0, s => s
  | i + 1, s =>
      let s := copyArgs argv tempArgv i s
      let arg := s.2.load 4 (argv + 4 * i)
      let stackBase := sub32 s.1 (strlen s.2 arg + 1)
      (stackBase, (strcpy s.2 stackBase arg).save 4 (tempArgv + 4 * i) stackBase)

/-- `stack_base` that it returns, and the memory afterwards.
SRCLINE: exe.c:6-27 -/
def addEntranceArgs (m : Memory) (stackBase argc argv : ℕ) : Option (ℕ × Memory) :=
  (kmalloc m (mul32 4 (argc + 1))).map fun temp =>
    let m := temp.2.save 4 (temp.1 + 4 * argc) 0
    let s := copyArgs argv temp.1 argc (stackBase, m)
    let array := memcpy s.2 (sub32 s.1 (4 * (argc + 1))) temp.1 (4 * (argc + 1))
    let sp := sub32 array.1 4
    (sp, kfree (array.2.save 4 sp argc) temp.1)

end LakeOS.Model
