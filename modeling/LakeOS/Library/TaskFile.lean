import Mathlib.Data.Nat.Bitwise
import Mathlib.Tactic.Ring
import Mathlib.Tactic.Linarith

/-!
# The task file of an ATA drive

Sector count and address are written to registers of one byte that keep the byte before the last
one too.  A command takes the address from them in one of three ways: as cylinder, head and sector,
as 28 bits, or, with the bytes that were written first, as 48 bits.
-/

set_option autoImplicit false

namespace LakeOS.Library

/-- A register with the last byte written to it and the one before. -/
@[ext] structure TwoBytes where
  last : ℕ
  before : ℕ
deriving DecidableEq

/-- The byte is written. -/
def TwoBytes.push (r : TwoBytes) (data : ℕ) : TwoBytes := ⟨data, r.last⟩

/-- The registers of a drive. -/
structure TaskFile where
  count : TwoBytes
  low : TwoBytes
  mid : TwoBytes
  high : TwoBytes
  device : ℕ
deriving DecidableEq

/-- What a command does: to which of the two drives, whether it writes, the first sector and the
number of sectors. -/
structure SectorAccess where
  slave : ℕ
  write : Bool
  lba : ℕ
  count : ℕ
deriving DecidableEq

/-! ## Geometry -/

/-- The sector of a cylinder, a head and a sector number, which begins with 1. -/
def chsSector (heads sectors cylinder head sector : ℕ) : ℕ :=
  (cylinder * heads + head) * sectors + (sector - 1)

/-- INTERNAL: **every sector has a place** in a geometry. -/
theorem chsSector_eq {heads sectors : ℕ} (lba : ℕ) :
    chsSector heads sectors (lba / (heads * sectors)) (lba % (heads * sectors) / sectors)
      (lba % sectors + 1) = lba := by
  have hcylinder := Nat.div_add_mod lba (heads * sectors)
  have htrack := Nat.div_add_mod (lba % (heads * sectors)) sectors
  have hsector : lba % (heads * sectors) % sectors = lba % sectors :=
    Nat.mod_mul_left_mod lba heads sectors
  rw [hsector] at htrack
  unfold chsSector
  rw [Nat.add_sub_cancel]
  calc (lba / (heads * sectors) * heads + lba % (heads * sectors) / sectors) * sectors +
        lba % sectors
      = heads * sectors * (lba / (heads * sectors)) +
          (sectors * (lba % (heads * sectors) / sectors) + lba % sectors) := by ring
    _ = lba := by rw [htrack, hcylinder]

/-- INTERNAL: `w` bits of a number, from bit `k` on. -/
theorem shiftRight_and_bits (v w k : ℕ) : v >>> k &&& (2 ^ w - 1) = v / 2 ^ k % 2 ^ w := by
  rw [Nat.shiftRight_eq_div_pow]
  exact Nat.and_two_pow_sub_one_eq_mod (v / 2 ^ k) w

/-- INTERNAL: the same bits, masked before they are moved. -/
theorem and_bits (v w k : ℕ) : (v &&& (2 ^ w - 1) <<< k) >>> k = v / 2 ^ k % 2 ^ w := by
  rw [Nat.shiftRight_and_distrib, Nat.shiftLeft_shiftRight, shiftRight_and_bits]

namespace TaskFile

/-- A byte is written to the register at an offset. -/
def write (t : TaskFile) (offset data : ℕ) : TaskFile :=
  match offset with
  | 2 => { t with count := t.count.push data }
  | 3 => { t with low := t.low.push data }
  | 4 => { t with mid := t.mid.push data }
  | 5 => { t with high := t.high.push data }
  | 6 => { t with device := data }
  | _ => t

/-- The drive that the device register selects. -/
def slave (t : TaskFile) : ℕ := t.device / 16 % 2

/-- The address of a command of 28 bits: cylinder, head and sector on a drive with 16 heads and 63
sectors, or a number if the device register says so. -/
def lba28 (t : TaskFile) : ℕ :=
  if t.device / 64 % 2 = 0 then
    chsSector 16 63 (t.mid.last + 2 ^ 8 * t.high.last) (t.device % 16) t.low.last
  else t.low.last + 2 ^ 8 * t.mid.last + 2 ^ 16 * t.high.last + 2 ^ 24 * (t.device % 16)

/-- The address of an extended command. -/
def lba48 (t : TaskFile) : ℕ :=
  t.low.last + 2 ^ 8 * t.mid.last + 2 ^ 16 * t.high.last +
    2 ^ 24 * (t.low.before + 2 ^ 8 * t.mid.before + 2 ^ 16 * t.high.before)

/-- A command with these registers: `READ SECTORS`, `WRITE SECTORS` and the extended ones. -/
def execute (t : TaskFile) (command : ℕ) : List SectorAccess :=
  match command with
  | 0x20 => [⟨t.slave, false, t.lba28, t.count.last⟩]
  | 0x30 => [⟨t.slave, true, t.lba28, t.count.last⟩]
  | 0x24 => [⟨t.slave, false, t.lba48, t.count.last + 2 ^ 8 * t.count.before⟩]
  | 0x34 => [⟨t.slave, true, t.lba48, t.count.last + 2 ^ 8 * t.count.before⟩]
  | _ => []

end TaskFile

end LakeOS.Library
