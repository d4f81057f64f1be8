import Mathlib.Tactic.Common
import LakeOS.Library.Word32

/-!
# The ATA driver

`IDE_ATA_operation` reaches a drive through the ports of its channel.  What it writes there is a
list of bytes and words; the bytes that it reads are the status of the drive, which it waits for,
and the sector itself.
-/

set_option autoImplicit false

namespace LakeOS.Model

/-- What is written to a port. -/
inductive PortWrite where
  | byte (port data : ℕ)
  | word (port data : ℕ)
deriving DecidableEq

/-- `IDE_channel_regs_t`.
SRCLINE: ata.h:104-109 -/
structure IdeChannelRegs where
  ioBase : ℕ
  ctrlBase : ℕ
  busMasterIde : ℕ
  noInterrupt : ℕ

/-- `struct IDE_device`, the fields that an operation reads. -/
structure IdeDevice where
  channel : Fin 2
  isSlaveDrive : Fin 2
  features : ℕ

/-- The ports of the channels.
SRCLINE: ata.c:90-101 -/
def ideChannels (noInterrupt : ℕ) : Fin 2 → IdeChannelRegs
  | 0 => ⟨0x1F0, 0x3F6, 0, noInterrupt⟩
  | 1 => ⟨0x170, 0x376, 8, noInterrupt⟩

/-! ## Registers -/

/-- `ATA_REG_SECCOUNT0`. -/
abbrev ataRegSeccount0 : ℕ := 0x02

/-- `ATA_REG_LBA0`. -/
abbrev ataRegLba0 : ℕ := 0x03

/-- `ATA_REG_LBA1`. -/
abbrev ataRegLba1 : ℕ := 0x04

/-- `ATA_REG_LBA2`. -/
abbrev ataRegLba2 : ℕ := 0x05

/-- `ATA_REG_HDDEVSEL`. -/
abbrev ataRegHddevsel : ℕ := 0x06

/-- `ATA_REG_COMMAND`. -/
abbrev ataRegCommand : ℕ := 0x07

/-- `ATA_REG_SECCOUNT1`. -/
abbrev ataRegSeccount1 : ℕ := 0x08

/-- `ATA_REG_LBA3`. -/
abbrev ataRegLba3 : ℕ := 0x09

/-- `ATA_REG_LBA4`. -/
abbrev ataRegLba4 : ℕ := 0x0A

/-- `ATA_REG_LBA5`. -/
abbrev ataRegLba5 : ℕ := 0x0B

/-- `ATA_REG_CONTROL`. -/
abbrev ataRegControl : ℕ := 0x0C

/-- The write of `IDE_write` itself, to the port of the register.
SRCLINE: ata.c:51-58 -/
def ideWritePort (regs : IdeChannelRegs) (reg data : ℕ) : List PortWrite :=
  if reg < 0x08 then [.byte ((regs.ioBase + reg) % 2 ^ 16) (data % 2 ^ 8)]
  else if reg < 0x0C then [.byte ((regs.ioBase + reg - 0x06) % 2 ^ 16) (data % 2 ^ 8)]
  else if reg < 0x0E then [.byte ((regs.ctrlBase + reg - 0x0A) % 2 ^ 16) (data % 2 ^ 8)]
  else if reg < 0x16 then [.byte ((regs.busMasterIde + reg - 0x0E) % 2 ^ 16) (data % 2 ^ 8)]
  else []

/-- The registers from `SECCOUNT1` on share the ports of others; the control register is written
around them.
SRCLINE: ata.c:48-61 -/
def ideWrite (regs : IdeChannelRegs) (reg data : ℕ) : List PortWrite :=
  if 0x07 < reg ∧ reg < 0x0C then
    ideWritePort regs ataRegControl (0x80 ||| regs.noInterrupt) ++ ideWritePort regs reg data ++
      ideWritePort regs ataRegControl regs.noInterrupt
  else ideWritePort regs reg data

/-! ## Operations -/

/-- `lba_mode`, `lba_io` and `head`. -/
structure AtaAddress where
  lbaMode : ℕ
  lbaIo : List ℕ
  head : ℕ

/-- SRCLINE: ata.c:212-247 -/
def ataAddress (features lba : ℕ) : AtaAddress :=
  if 0x10000000 ≤ lba then
    ⟨2, [(lba &&& 0x000000FF) >>> 0, (lba &&& 0x0000FF00) >>> 8, (lba &&& 0x00FF0000) >>> 16,
      (lba &&& 0xFF000000) >>> 24, 0, 0], 0⟩
  else if features &&& 0x200 ≠ 0 then
    ⟨1, [(lba &&& 0x00000FF) >>> 0, (lba &&& 0x000FF00) >>> 8, (lba &&& 0x0FF0000) >>> 16, 0, 0, 0],
      (lba &&& 0xF000000) >>> 24⟩
  else
    let sector := (lba % 63 + 1) % 2 ^ 8
    let cylinder := (lba + 1 - sector) / (16 * 63) % 2 ^ 16
    ⟨0, [sector, (cylinder >>> 0) &&& 0xFF, (cylinder >>> 8) &&& 0xFF, 0, 0, 0],
      (lba + 1 - sector) % (16 * 63) / 63 % 2 ^ 8⟩

/-- The command of an operation.
SRCLINE: ata.c:271-286 -/
def ataCommand (direction : Bool) (lbaMode : ℕ) : ℕ :=
  if direction then if lbaMode = 2 then 0x34 else 0x30
  else if lbaMode = 2 then 0x24 else 0x20

/-- The parameters of a command, in the order in which they are written.
SRCLINE: ata.c:251-267 -/
def ataParams (regs : IdeChannelRegs) (device : IdeDevice) (address : AtaAddress) :
    List PortWrite :=
  let io := fun i => address.lbaIo.getD i 0
  let select := if address.lbaMode = 0 then 0xA0 else 0xE0
  ideWrite regs ataRegHddevsel (select ||| device.isSlaveDrive.val <<< 4 ||| address.head) ++
    (if address.lbaMode = 2 then
      ideWrite regs ataRegSeccount1 0 ++ ideWrite regs ataRegLba3 (io 3) ++
        ideWrite regs ataRegLba4 (io 4) ++ ideWrite regs ataRegLba5 (io 5)
    else []) ++
    ideWrite regs ataRegSeccount0 1 ++ ideWrite regs ataRegLba0 (io 0) ++
    ideWrite regs ataRegLba1 (io 1) ++ ideWrite regs ataRegLba2 (io 2)

/-- What follows the command: the words of the sector, or a flush of the cache behind a read.
SRCLINE: ata.c:290-310 -/
def ataTransfer (regs : IdeChannelRegs) (direction : Bool) (lbaMode : ℕ) (buff : List ℕ) :
    List PortWrite :=
  if direction then (buff.take 256).map fun w => .word (regs.ioBase % 2 ^ 16) (w % 2 ^ 16)
  else ideWrite regs ataRegCommand (if lbaMode = 2 then 0xEA else 0xE7)

/-- All that is written to ports; `direction` is `true` for `IDE_ATA_WRITE`.
SRCLINE: ata.c:201-311 -/
def ideAtaOperation (direction : Bool) (device : IdeDevice) (lba : ℕ) (buff : List ℕ) :
    List PortWrite :=
  let regs := ideChannels 0x02 device.channel
  let address := ataAddress device.features lba
  ideWrite regs ataRegControl regs.noInterrupt ++ ataParams regs device address ++
    ideWrite regs ataRegCommand (ataCommand direction address.lbaMode) ++
    ataTransfer regs direction address.lbaMode buff

end LakeOS.Model
