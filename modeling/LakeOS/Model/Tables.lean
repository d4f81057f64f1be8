import Mathlib.Logic.Function.Basic
import LakeOS.Library.SystemTables

/-!
# The tables of the processor

`gdt.c`, `idt.c` and `tss.c` fill the three tables of the processor, and `isr.c` and `irq.c` the
gates.  The addresses of the stubs are parameters.  A structure is the list of its bytes as the
compiler lays it out.
-/

set_option autoImplicit false

namespace LakeOS.Model

open LakeOS.Library

/-! ## Segments -/

/-- `GDT_entry_t`.
SRCLINE: gdt.h:12-19 -/
structure GdtEntry where
  limitLow : ℕ
  baseLow : ℕ
  baseMiddle : ℕ
  type : ℕ
  flagsLimitHi : ℕ
  baseHigh : ℕ

def GdtEntry.bytes (e : GdtEntry) : List Byte :=
  leBytes 2 e.limitLow ++ leBytes 2 e.baseLow ++ leBytes 1 e.baseMiddle ++ leBytes 1 e.type ++
    leBytes 1 e.flagsLimitHi ++ leBytes 1 e.baseHigh

/-- `GDT_ENTRY`.
SRCLINE: gdt.c:4-10 -/
def gdtEntry (base limit access flags : ℕ) : GdtEntry where
  limitLow := limit &&& 0xFFFF
  baseLow := base &&& 0xFFFF
  baseMiddle := (base >>> 16) &&& 0xFF
  type := access
  flagsLimitHi := ((limit >>> 16) &&& 0xF) ||| (flags &&& 0xF0)
  baseHigh := (base >>> 24) &&& 0xFF

/-- `sizeof(g_tss)`. -/
abbrev sizeofTss : ℕ := 112

/-- `GDT_entries` after `GDT_init`, with the address of `g_tss`.
SRCLINE: gdt.c:15-41, gdt.c:45-54 -/
def gdtEntries (tss : ℕ) : ℕ → GdtEntry
  | 0 => gdtEntry 0 0 0 0
  | 1 => gdtEntry 0 0xFFFFF (0x80 ||| 0x00 ||| 0x18 ||| 0x02) (0x40 ||| 0x80)
  | 2 => gdtEntry 0 0xFFFFF (0x80 ||| 0x00 ||| 0x10 ||| 0x02) (0x40 ||| 0x80)
  | 3 => gdtEntry 0 0xFFFFF (0x80 ||| 0x60 ||| 0x18 ||| 0x02) (0x40 ||| 0x80)
  | 4 => gdtEntry 0 0xFFFFF (0x80 ||| 0x60 ||| 0x10 ||| 0x02) (0x40 ||| 0x80)
  | _ => gdtEntry tss (sizeofTss - 1) (0x80 ||| 0x00 ||| 0x00 ||| 0x09) (0x40 ||| 0x00)

/-! ## Gates -/

/-- `IDT_entry_t`.
SRCLINE: idt.h:22-28 -/
structure IdtEntry where
  baseLow : ℕ
  segmentSelect : ℕ
  reserved : ℕ
  flags : ℕ
  baseHigh : ℕ

def IdtEntry.bytes (e : IdtEntry) : List Byte :=
  leBytes 2 e.baseLow ++ leBytes 2 e.segmentSelect ++ leBytes 1 e.reserved ++ leBytes 1 e.flags ++
    leBytes 2 e.baseHigh

/-- `IDT`. -/
abbrev Idt := ℕ → IdtEntry

/-- SRCLINE: idt.c:10-20 -/
def idtSetgate (intNum base segmentDescriptor flags : ℕ) (t : Idt) : Idt :=
  Function.update t intNum ⟨base &&& 0xFFFF, segmentDescriptor, 0, flags, (base >>> 16) &&& 0xFFFF⟩

/-- SRCLINE: idt.c:22-24 -/
def idtEnablegate (intNum : ℕ) (t : Idt) : Idt :=
  Function.update t intNum { t intNum with flags := (t intNum).flags ||| 0x80 }

/-- SRCLINE: idt.c:26-28 -/
def idtDisablegate (intNum : ℕ) (t : Idt) : Idt :=
  Function.update t intNum { t intNum with flags := (t intNum).flags &&& 0x7F }

/-- The first `n` of the calls; only gate 128 is for programs.
SRCLINE: isr.c:318-575 -/
def isrInitGates (isr : ℕ → ℕ) : ℕ → Idt → Idt
  | 0, t => t
  | n + 1, t =>
    idtSetgate n (isr n) 0x08 (if n = 128 then 0x60 ||| 0xE else 0x00 ||| 0xE) (isrInitGates isr n t)

/-- The loop that enables the gates.
SRCLINE: isr.c:271-272 -/
def isrEnableGates : ℕ → Idt → Idt
  | 0, t => t
  | n + 1, t => idtEnablegate n (isrEnableGates n t)

/-- SRCLINE: isr.c:264-273 -/
def isrInit (isr : ℕ → ℕ) (t : Idt) : Idt := isrEnableGates 256 (isrInitGates isr 256 t)

/-- The first `n` gates of the interrupt requests, from `PIC_REMAP_OFFSET` on.
SRCLINE: irq.c:46-63 -/
def irqInitGates (irq : ℕ → ℕ) : ℕ → Idt → Idt
  | 0, t => t
  | n + 1, t => idtSetgate (0x20 + n) (irq n) 0x08 (0x00 ||| 0xE ||| 0x80) (irqInitGates irq n t)

/-- The gates after `IRQ_init`.
SRCLINE: irq.c:43-67 -/
def irqInit (irq : ℕ → ℕ) (t : Idt) : Idt := irqInitGates irq 16 t

/-! ## The task state segment -/

/-- `tss_entry_t`, the fields that are ever other than `0`.
SRCLINE: tss.h:6-59 -/
structure TssEntry where
  link : ℕ
  esp0 : ℕ
  ss0 : ℕ

/-- The other fields are `0`.  `_reserved_10` and `ssp` begin at a multiple of four bytes. -/
def TssEntry.bytes (t : TssEntry) : List Byte :=
  leBytes 2 t.link ++ leBytes 2 0 ++ leBytes 4 t.esp0 ++ leBytes 2 t.ss0 ++
    List.replicate (sizeofTss - 10) 0

/-- SRCLINE: tss.c:9-14 -/
def tssInit (stackTop : ℕ) : TssEntry := ⟨0x10, stackTop, 0x10⟩

end LakeOS.Model
