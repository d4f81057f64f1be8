import LakeOS.Library.Processor

/-!
# The entries of the kernel

The assembly that interrupts enter through, as instructions; `registers_t` is the frame that it
leaves on the stack for the handlers.
-/

set_option autoImplicit false

namespace LakeOS.Model

open LakeOS.Library

/-- SRCLINE: isr.h:9-16 -/
structure RegistersT where
  ds : ℕ
  edi : ℕ
  esi : ℕ
  ebp : ℕ
  kernEsp : ℕ
  ebx : ℕ
  edx : ℕ
  ecx : ℕ
  eax : ℕ
  intNum : ℕ
  error : ℕ
  eip : ℕ
  cs : ℕ
  eflags : ℕ
  esp : ℕ
  ss : ℕ
deriving DecidableEq

/-- The packed structure in memory. -/
def RegistersT.words (r : RegistersT) : List ℕ :=
  [r.ds, r.edi, r.esi, r.ebp, r.kernEsp, r.ebx, r.edx, r.ecx, r.eax, r.intNum, r.error, r.eip, r.cs,
    r.eflags, r.esp, r.ss]

/-- `sizeof(registers_t)`. -/
def sizeofRegistersT : ℕ := 64

/-- The instructions of `isr_common` and `common_irq` up to their `call`.
SRCLINE: isr.s:19-31, irq.s:12-24 -/
def saveContext : List Instr :=
  [.pusha, .clear .eax, .movFromSeg .eax .ds, .push .eax, .movLow .eax 0x10, .movToSeg .ds .eax,
    .movToSeg .es .eax, .movToSeg .fs .eax, .movToSeg .gs .eax, .push .esp]

/-- Those that restore the registers.
SRCLINE: isr.s:37-43, irq.s:28-34 -/
def restoreContext : List Instr :=
  [.pop .eax, .movToSeg .ds .eax, .movToSeg .es .eax, .movToSeg .fs .eax, .movToSeg .gs .eax, .popa]

/-- The end of `isr_common`.
SRCLINE: isr.s:36-45 -/
def isrReturn : List Instr := restoreContext ++ [.addEsp 8, .iret]

/-- SRCLINE: isr.s:18-45 -/
def isrCommon : List Instr := saveContext ++ [.call, .addEsp 4] ++ isrReturn

/-- The vectors with `IMPL_ISR_ERROR_CODE`.
SRCLINE: isr.s:55-77 -/
def isrErrorCode (num : ℕ) : Bool :=
  [8, 10, 11, 12, 13, 14, 17, 21, 29, 30].contains num

/-- SRCLINE: isr.s:3-16 -/
def isr (num : ℕ) : List Instr :=
  (if isrErrorCode num then [.pushImm num] else [.pushImm 0, .pushImm num]) ++ isrCommon

/-- SRCLINE: irq.s:3-36 -/
def irq (num : ℕ) : List Instr :=
  [.pushImm num] ++ saveContext ++ [.call, .addEsp 4] ++ restoreContext ++ [.addEsp 4, .iret]

/-- SRCLINE: user.s:5-9 -/
def enterContext : List Instr := [.movEspArg 4] ++ isrReturn

/-! ## System calls -/

/-- `e_SYSCALL_NUMS`.
SRCLINE: sys.h:23-35 -/
inductive SyscallNum where
  | read | write | open' | close | stat | fstat | lseek | mmap | munmap | exec | exit
deriving DecidableEq

/-- SRCLINE: sys.h:23-35 -/
def SyscallNum.ofEax : ℕ → Option SyscallNum
  | 0 => some .read
  | 1 => some .write
  | 2 => some .open'
  | 3 => some .close
  | 4 => some .stat
  | 5 => some .fstat
  | 8 => some .lseek
  | 9 => some .mmap
  | 11 => some .munmap
  | 59 => some .exec
  | 60 => some .exit
  | _ => none

/-- The registers that are passed on, in their order; `sys_open` has its mode in a byte.
SRCLINE: sys.c:9-67 -/
def SyscallNum.args (n : SyscallNum) (regs : RegistersT) : List ℕ :=
  match n with
  | .read | .write | .lseek | .exec => [regs.ebx, regs.ecx, regs.edx]
  | .open' => [regs.ebx, regs.ecx % 2 ^ 8]
  | .stat | .fstat | .munmap => [regs.ebx, regs.ecx]
  | .close | .exit => [regs.ebx]
  | .mmap => [regs.ebx, regs.ecx, regs.edx, regs.esi, regs.edi, regs.ebp]

section

variable {σ : Type}

/-- `ISR_syscall_handler` over the functions that it calls: each answers a value, or does not come
back.
SRCLINE: sys.c:7-73 -/
def isrSyscallHandler (sys : SyscallNum → List ℕ → σ → Option (ℕ × σ)) (regs : RegistersT) (s : σ) :
    Option (RegistersT × σ) :=
  match SyscallNum.ofEax regs.eax with
  | some n => (sys n (n.args regs) s).map fun (res, s) => ({ regs with eax := res % 2 ^ 32 }, s)
  | none => some ({ regs with eax := 2 ^ 32 - 1 }, s)

/-- `ISR_handler` with the page fault and the system call in `handlers`; all others end in
`kernelpanic`.
SRCLINE: isr.c:268-269, isr.c:286-316 -/
def isrHandler (pageFlt : σ → Option σ) (sys : SyscallNum → List ℕ → σ → Option (ℕ × σ))
    (regs : RegistersT) (s : σ) : Option (RegistersT × σ) :=
  if regs.intNum = 0xE then (pageFlt s).map fun s => (regs, s)
  else if regs.intNum = 0x80 then isrSyscallHandler sys regs s
  else none

end

end LakeOS.Model
