import LakeOS.Model.AtaTransfer

/-!
# Interrupt requests

`pic.c` over the ports of the two controllers, and the handlers of `irq.c`; each handler ends its
interrupt at the controllers once.
-/

set_option autoImplicit false

namespace LakeOS.Model

/-- `PIC1_COMMAND_PORT`. -/
abbrev pic1CommandPort : ℕ := 0x20

/-- `PIC1_DATA_PORT`. -/
abbrev pic1DataPort : ℕ := 0x21

/-- `PIC2_COMMAND_PORT`. -/
abbrev pic2CommandPort : ℕ := 0xA0

/-- `PIC2_DATA_PORT`. -/
abbrev pic2DataPort : ℕ := 0xA1

/-- `PIC_REMAP_OFFSET`. -/
abbrev picRemapOffset : ℕ := 0x20

/-- The bytes of `PIC_configure`, in their order.
SRCLINE: pic.c:42-72 -/
def picConfigure (offsetPic1 offsetPic2 : ℕ) : List PortWrite :=
  [.byte pic1CommandPort 0x11, .byte pic2CommandPort 0x11, .byte pic1DataPort offsetPic1,
    .byte pic2DataPort offsetPic2, .byte pic1DataPort 0x4, .byte pic2DataPort 0x2,
    .byte pic1DataPort 0x1, .byte pic2DataPort 0x1, .byte pic1DataPort 0xFF,
    .byte pic2DataPort 0xFF]

/-- The port and the bit of a request.
SRCLINE: pic.c:75-82, pic.c:89-96 -/
def picPort (irq : ℕ) : ℕ × ℕ := if irq < 8 then (pic1DataPort, irq) else (pic2DataPort, irq - 8)

section

variable {σ : Type} (ports : Ports σ)

/-- SRCLINE: pic.c:74-86 -/
def picMask (irq : ℕ) (s : σ) : σ :=
  let (port, bit) := picPort irq
  let (mask, s) := ports.readByte port s
  ports.write (.byte port ((mask ||| 1 <<< bit) % 2 ^ 8)) s

/-- SRCLINE: pic.c:88-100 -/
def picUnmask (irq : ℕ) (s : σ) : σ :=
  let (port, bit) := picPort irq
  let (mask, s) := ports.readByte port s
  ports.write (.byte port ((mask &&& (2 ^ 32 - 1 - 1 <<< bit)) % 2 ^ 8)) s

/-- SRCLINE: pic.c:119-123 -/
def picEndOfInt (irq : ℕ) (s : σ) : σ :=
  let s := if 8 ≤ irq then ports.write (.byte pic2CommandPort 0x20) s else s
  ports.write (.byte pic1CommandPort 0x20) s

/-- `IRQ_handler` as far as the ports see it: the handlers of the timer, the keyboard and the floppy
disk, and the message for all others.
SRCLINE: irq.c:7-25, pit.c:59, ps2.c:94-100, fdc.c:56-60 -/
def irqHandler (irq : ℕ) (s : σ) : σ :=
  match irq with
  | 0 => picEndOfInt ports 0 s
  | 1 =>
    let s := picEndOfInt ports 1 s
    let (status, s) := ports.readByte 0x64 s
    if status &&& 0x1 ≠ 0 then (ports.readByte 0x60 s).2 else s
  | 6 => picEndOfInt ports 6 s
  | irq => picEndOfInt ports irq s

end

end LakeOS.Model
