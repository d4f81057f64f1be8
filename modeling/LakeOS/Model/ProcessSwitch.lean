import LakeOS.Model.Stubs

/-!
# From one process to another

The ends of `execute` and `exit_process`, with the kernel stacks of the processes and the frames on
them.  The memory is that of the kernel, which all address spaces share.
-/

set_option autoImplicit false

namespace LakeOS.Model

open LakeOS.Library

/-- `kernelStacks` has the `kernel_stack` of each process, from `process_stack` on along `prev`, and
`esp0` is that of `g_tss`. -/
structure Switch where
  mem : ℕ → ℕ
  esp0 : ℕ
  kernelStacks : List ℕ

/-- The size of a kernel stack.
SRCLINE: exe.c:81-82 -/
def kernelStackSize : ℕ := 0x2000

/-- Where the frame of a process lies on its kernel stack.
SRCLINE: exe.c:86-87, exe.c:125-126 -/
def frameAt (kernelStack : ℕ) : ℕ := kernelStack + kernelStackSize - sizeofRegistersT

/-- The context of a new process, with its entry and the top of its stack.
SRCLINE: exe.c:62-71, exe.c:79 -/
def newContext (eip esp : ℕ) : RegistersT where
  ds := 0x23
  edi := 0
  esi := 0
  ebp := 0
  kernEsp := 0
  ebx := 0
  edx := 0
  ecx := 0
  eax := 0
  intNum := 0
  error := 0
  eip := eip
  cs := 0x1B
  eflags := 0x202
  esp := esp
  ss := 0x23

/-- `memset` of a kernel stack.
SRCLINE: exe.c:84 -/
def clearStack (kernelStack : ℕ) (mem : ℕ → ℕ) : ℕ → ℕ := fun a =>
  if kernelStack ≤ a ∧ a < kernelStack + kernelStackSize then 0 else mem a

/-- The new process gets its kernel stack, with its frame.
SRCLINE: exe.c:81-90 -/
def executeSwitch (kernelStack : ℕ) (context : RegistersT) (s : Switch) : Switch where
  mem := storeWords (clearStack kernelStack s.mem) (frameAt kernelStack) context.words
  esp0 := kernelStack + kernelStackSize
  kernelStacks := kernelStack :: s.kernelStacks

/-- The process before the dying one gets its exit code; `none` if there is no such process.
SRCLINE: exe.c:101-130 -/
def exitSwitch (code : ℕ) (s : Switch) : Option Switch :=
  match s.kernelStacks with
  | _ :: revive :: rest =>
    some
      { mem := Function.update s.mem (frameAt revive + 32) (code % 2 ^ 32)
        esp0 := revive + kernelStackSize
        kernelStacks := revive :: rest }
  | _ => none

end LakeOS.Model
