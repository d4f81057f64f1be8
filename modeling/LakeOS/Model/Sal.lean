import LakeOS.Library.Store
import LakeOS.Library.Word32

/-!
# The storage abstraction layer

`sal.c` turns accesses at any byte offset into sector transfers.  A device is its
sector size with the two transfer functions of `storage_device_t`; `δ` is the state
they act on.  The static staging buffers of `SAL_read_unaligned` and
`SAL_write_unaligned` keep what an earlier call left in them, so they are part of the
state.

The caller's memory is a store and `buff` an address in it.  The `while` loops carry
fuel and answer `none` when it runs out; `SAL_write` and `SAL_read` give them one
iteration more than the bytes to move.
-/

set_option autoImplicit false

namespace LakeOS.Model

open LakeOS.Library

/-- SRCLINE: sal.h:8-21 -/
structure StorageDevice (δ : Type) where
  sectorSize : ℕ
  readSector : δ → ℕ → List Byte
  writeSector : δ → List Byte → ℕ → δ

/-- The device state and the two static `temp_buff`s.
SRCLINE: sal.c:17, 38 -/
structure Sal (δ : Type) where
  disk : δ
  writeTemp : Store Byte
  readTemp : Store Byte

/-- `copy_len` of an access that starts inside a sector.
SRCLINE: sal.c:57-59, 85-87 -/
def headLen (len sectorSize sectorOff : ℕ) : ℕ :=
  if len < sectorSize then len else sectorSize - sectorOff

section

variable {δ : Type} (device : StorageDevice δ)

/-- SRCLINE: sal.c:13-26 -/
def salWriteUnaligned (len sectorOff lba : ℕ) (mem : Store Byte) (buff : ℕ) (s : Sal δ) :
    Sal δ :=
  if 4096 < device.sectorSize then s
  else
    let temp := s.writeTemp.write 0 (device.readSector s.disk lba)
    let temp := temp.write sectorOff (mem.read buff len)
    { s with
      writeTemp := temp
      disk := device.writeSector s.disk (temp.read 0 device.sectorSize) lba }

/-- SRCLINE: sal.c:34-45 -/
def salReadUnaligned (len sectorOff lba : ℕ) (mem : Store Byte) (buff : ℕ) (s : Sal δ) :
    Store Byte × Sal δ :=
  if 4096 < device.sectorSize then (mem, s)
  else
    let temp := s.readTemp.write 0 (device.readSector s.disk lba)
    (mem.write buff (temp.read sectorOff len), { s with readTemp := temp })

/-- The loop over whole sectors of `SAL_write`.
SRCLINE: sal.c:93-96 -/
def salWriteLoop (len offset : ℕ) (mem : Store Byte) (buff : ℕ) :
    ℕ → ℕ → Sal δ → Option (ℕ × Sal δ)
  | 0, _, _ => none
  | fuel + 1, copiedLen, s =>
      if device.sectorSize ≤ sub32 len copiedLen then
        let disk := device.writeSector s.disk (mem.read (buff + copiedLen) device.sectorSize)
          (add32 offset copiedLen / device.sectorSize)
        salWriteLoop len offset mem buff fuel (add32 copiedLen device.sectorSize)
          { s with disk }
      else some (copiedLen, s)

/-- The end of `SAL_write`, from the loop on.
SRCLINE: sal.c:93-106 -/
def salWriteRest (len offset : ℕ) (mem : Store Byte) (buff copiedLen : ℕ) (s : Sal δ) :
    Option (Sal δ) :=
  (salWriteLoop device len offset mem buff (len + 1) copiedLen s).map fun (copiedLen, s) =>
    if sub32 len copiedLen ≠ 0 then
      let currOff := add32 offset copiedLen
      salWriteUnaligned device (sub32 len copiedLen) (currOff % device.sectorSize)
        (currOff / device.sectorSize) mem (buff + copiedLen) s
    else s

/-- SRCLINE: sal.c:78-107 -/
def salWrite (len offset : ℕ) (mem : Store Byte) (buff : ℕ) (s : Sal δ) : Option (Sal δ) :=
  let sectorOff := offset % device.sectorSize
  if sectorOff ≠ 0 then
    let copyLen := headLen len device.sectorSize sectorOff
    salWriteRest device len offset mem buff copyLen
      (salWriteUnaligned device copyLen sectorOff (offset / device.sectorSize) mem buff s)
  else salWriteRest device len offset mem buff 0 s

/-- The loop over whole sectors of `SAL_read`.
SRCLINE: sal.c:65-68 -/
def salReadLoop (len offset buff : ℕ) (s : Sal δ) :
    ℕ → ℕ → Store Byte → Option (ℕ × Store Byte)
  | 0, _, _ => none
  | fuel + 1, copiedLen, mem =>
      if device.sectorSize ≤ sub32 len copiedLen then
        let mem := mem.write (buff + copiedLen)
          (device.readSector s.disk (add32 offset copiedLen / device.sectorSize))
        salReadLoop len offset buff s fuel (add32 copiedLen device.sectorSize) mem
      else some (copiedLen, mem)

/-- The end of `SAL_read`, from the loop on.
SRCLINE: sal.c:65-75 -/
def salReadRest (len offset : ℕ) (mem : Store Byte) (buff copiedLen : ℕ) (s : Sal δ) :
    Option (Store Byte × Sal δ) :=
  (salReadLoop device len offset buff s (len + 1) copiedLen mem).map fun (copiedLen, mem) =>
    if sub32 len copiedLen ≠ 0 then
      let currOff := add32 offset copiedLen
      salReadUnaligned device (sub32 len copiedLen) (currOff % device.sectorSize)
        (currOff / device.sectorSize) mem (buff + copiedLen) s
    else (mem, s)

/-- SRCLINE: sal.c:51-76 -/
def salRead (len offset : ℕ) (mem : Store Byte) (buff : ℕ) (s : Sal δ) :
    Option (Store Byte × Sal δ) :=
  let sectorOff := offset % device.sectorSize
  if sectorOff ≠ 0 then
    let copyLen := headLen len device.sectorSize sectorOff
    let (mem, s) := salReadUnaligned device copyLen sectorOff (offset / device.sectorSize) mem
      buff s
    salReadRest device len offset mem buff copyLen s
  else salReadRest device len offset mem buff 0 s

/-- Exact sector transfers: `bytes` views the device state as one byte array of
`numSectors` sectors, and the two functions move whole sectors of it. -/
structure StorageDevice.Exact (bytes : δ → Store Byte) (numSectors : ℕ) : Prop where
  read_eq : ∀ d lba, lba < numSectors →
    device.readSector d lba = (bytes d).read (lba * device.sectorSize) device.sectorSize
  write_eq : ∀ d lba buf, lba < numSectors → buf.length = device.sectorSize →
    bytes (device.writeSector d buf lba) = (bytes d).write (lba * device.sectorSize) buf

end

/-- The device whose state is the byte array itself. -/
def memoryDevice (sectorSize : ℕ) : StorageDevice (Store Byte) where
  sectorSize
  readSector d lba := d.read (lba * sectorSize) sectorSize
  writeSector d buf lba := d.write (lba * sectorSize) buf

theorem memoryDevice_exact (sectorSize numSectors : ℕ) :
    (memoryDevice sectorSize).Exact id numSectors :=
  ⟨fun _ _ _ => rfl, fun _ _ _ _ _ => rfl⟩

end LakeOS.Model
