import LakeOS.Model.Ata

/-!
# The transfers of the ATA driver

The driver over any hardware behind the ports.  A wait for a drive reads its status until it is not
busy; it carries fuel and answers `none` when that runs out.
-/

set_option autoImplicit false

namespace LakeOS.Model

/-- What is behind the ports: `port_write_byte` and `port_write_word`, `port_read_byte`,
`port_read_word`, and `PIT_sleep` with its milliseconds. -/
structure Ports (σ : Type) where
  write : PortWrite → σ → σ
  readByte : ℕ → σ → ℕ × σ
  readWord : ℕ → σ → ℕ × σ
  sleep : ℕ → σ → σ

/-- `struct IDE_device`, the fields that the transfers of sectors look at.
SRCLINE: ata.c:10-27 -/
structure AtaDevice extends IdeDevice where
  exists' : Bool
  size : ℕ

section

variable {σ : Type} (ports : Ports σ)

/-- Some writes, one after the other. -/
def Ports.writes (ws : List PortWrite) (s : σ) : σ :=
  ws.foldl (fun s w => ports.write w s) s

/-- The port that a register is read from.
SRCLINE: ata.c:34-41 -/
def ideReadPort (regs : IdeChannelRegs) (reg : ℕ) : Option ℕ :=
  if reg < 0x08 then some ((regs.ioBase + reg) % 2 ^ 16)
  else if reg < 0x0C then some ((regs.ioBase + reg - 0x06) % 2 ^ 16)
  else if reg < 0x0E then some ((regs.ioBase + reg - 0x0A) % 2 ^ 16)
  else if reg < 0x16 then some ((regs.ioBase + reg - 0x0E) % 2 ^ 16)
  else none

/-- SRCLINE: ata.c:29-46 -/
def ideRead (regs : IdeChannelRegs) (reg : ℕ) (s : σ) : ℕ × σ :=
  let shared := 0x07 < reg ∧ reg < 0x0C
  let s := if shared then
      ports.writes (ideWritePort regs ataRegControl (0x80 ||| regs.noInterrupt)) s
    else s
  let (res, s) := match ideReadPort regs reg with
    | some port => ports.readByte port s
    | none => (0, s)
  (res, if shared then ports.writes (ideWritePort regs ataRegControl regs.noInterrupt) s else s)

/-- `ATA_REG_STATUS`. -/
abbrev ataRegStatus : ℕ := 0x07

/-- `while (IDE_read(channel, ATA_REG_STATUS) & ATA_SR_MASK_BUSY);`
SRCLINE: ata.c:72, 249 -/
def ideAwait (regs : IdeChannelRegs) : ℕ → σ → Option σ
  | 0, _ => none
  | fuel + 1, s =>
    let (status, s) := ideRead ports regs ataRegStatus s
    if status &&& 0x80 ≠ 0 then ideAwait regs fuel s else some s

/-- The answer: 2 for an error, 1 for a fault, 3 when no data is requested.
SRCLINE: ata.c:68-88 -/
def idePoll (regs : IdeChannelRegs) (advCheck : Bool) (fuel : ℕ) (s : σ) : Option (ℕ × σ) :=
  (ideAwait ports regs fuel (ports.sleep 1 s)).map fun s =>
    if advCheck then
      let (state, s) := ideRead ports regs ataRegStatus s
      if state &&& 0x01 ≠ 0 then (2, s)
      else if state &&& 0x20 ≠ 0 then (1, s)
      else if state &&& 0x08 = 0 then (3, s)
      else (0, s)
    else (0, s)

/-- Some words from a port.
SRCLINE: ata.c:298-299 -/
def readWords (port : ℕ) : ℕ → σ → List ℕ × σ
  | 0, s => ([], s)
  | n + 1, s =>
    let (w, s) := ports.readWord port s
    let (ws, s) := readWords port n s
    (w :: ws, s)

/-- `IDE_ATA_operation` with all that it reads; the answer has `buff` as it is afterwards.
SRCLINE: ata.c:201-311 -/
def ideAtaTransfer (direction : Bool) (device : IdeDevice) (lba : ℕ) (buff : List ℕ) (fuel : ℕ)
    (s : σ) : Option (List ℕ × σ) :=
  let regs := ideChannels 0x02 device.channel
  let address := ataAddress device.features lba
  let s := ports.writes (ideWrite regs ataRegControl regs.noInterrupt) s
  (ideAwait ports regs fuel s).bind fun s =>
    let s := ports.writes (ataParams regs device address) s
    let s := ports.writes
      (ideWrite regs ataRegCommand (ataCommand direction address.lbaMode)) s
    (idePoll ports regs false fuel s).bind fun (_, s) =>
      if direction then some (buff, ports.writes (ataTransfer regs true address.lbaMode buff) s)
      else
        let (buff, s) := readWords ports (regs.ioBase % 2 ^ 16) 256 s
        let s := ports.writes (ataTransfer regs false address.lbaMode buff) s
        (idePoll ports regs false fuel s).map fun (_, s) => (buff, s)

/-- The answer has the code, and `buff` as it is afterwards.
SRCLINE: ata.c:313-323 -/
def ideAtaWriteSector (devices : ℕ → AtaDevice) (drive lba : ℕ) (buff : List ℕ) (fuel : ℕ)
    (s : σ) : Option ((ℕ × List ℕ) × σ) :=
  if 3 < drive ∨ ¬(devices drive).exists' then some ((1, buff), s)
  else if (devices drive).size < lba then some ((1, buff), s)
  else (ideAtaTransfer ports true (devices drive).toIdeDevice lba buff fuel s).map
    fun (buff, s) => ((0, buff), s)

/-- SRCLINE: ata.c:325-335 -/
def ideAtaReadSector (devices : ℕ → AtaDevice) (drive lba : ℕ) (buff : List ℕ) (fuel : ℕ)
    (s : σ) : Option ((ℕ × List ℕ) × σ) :=
  if 3 < drive ∨ ¬(devices drive).exists' then some ((1, buff), s)
  else if (devices drive).size < lba then some ((1, buff), s)
  else (ideAtaTransfer ports false (devices drive).toIdeDevice lba buff fuel s).map
    fun (buff, s) => ((0, buff), s)

end

end LakeOS.Model
