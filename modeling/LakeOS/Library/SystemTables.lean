import Mathlib.Data.Nat.Bitwise
import LakeOS.Library.Store

/-!
# The tables that an interrupt goes through

The processor finds the gate of a vector in one table and the code segment that the gate names in
another.  Both tables are bytes, with the addresses cut into pieces.
-/

set_option autoImplicit false

namespace LakeOS.Library

/-- Some bytes of an entry as a number. -/
def fieldAt (bytes : List Byte) (off len : ℕ) : ℕ := leValue ((bytes.drop off).take len)

/-! ## Segments -/

/-- What a descriptor says about a segment: `limit` is the offset of its last byte. -/
structure Segment where
  base : ℕ
  limit : ℕ
  privilege : ℕ
  present : Bool
  code : Bool
  data : Bool
  access : Bool
deriving DecidableEq

/-- The descriptor of eight bytes; `access` is the right to read code or to write data. -/
def segmentOf (bytes : List Byte) : Segment :=
  let raw := fieldAt bytes 0 2 + 2 ^ 16 * (fieldAt bytes 6 1 % 16)
  let rights := fieldAt bytes 5 1
  { base := fieldAt bytes 2 2 + 2 ^ 16 * fieldAt bytes 4 1 + 2 ^ 24 * fieldAt bytes 7 1
    limit := if (fieldAt bytes 6 1).testBit 7 then 4096 * raw + 4095 else raw
    privilege := rights / 32 % 4
    present := rights.testBit 7
    code := rights.testBit 4 && rights.testBit 3
    data := rights.testBit 4 && !rights.testBit 3
    access := rights.testBit 1 }

/-! ## Gates -/

/-- What a gate says. -/
structure Gate where
  offset : ℕ
  selector : ℕ
  privilege : ℕ
  present : Bool
  type : ℕ
deriving DecidableEq

/-- The gate of eight bytes. -/
def gateOf (bytes : List Byte) : Gate :=
  let flags := fieldAt bytes 5 1
  { offset := fieldAt bytes 0 2 + 2 ^ 16 * fieldAt bytes 6 2
    selector := fieldAt bytes 2 2
    privilege := flags / 32 % 4
    present := flags.testBit 7
    type := flags % 32 }

/-- Why an interrupt is not delivered. -/
inductive TableFault where
  | protection (error : ℕ)
  | gateNotPresent (error : ℕ)
  | segmentNotPresent (error : ℕ)
deriving DecidableEq

/-- Where an interrupt leads: the linear address, the new privilege level and whether interrupts
are off. -/
structure Entrance where
  address : ℕ
  privilege : ℕ
  masked : Bool
deriving DecidableEq

/-- The tables with their limits. -/
structure SystemTables where
  gates : ℕ → List Byte
  gatesLimit : ℕ
  segments : ℕ → List Byte
  segmentsLimit : ℕ

/-- A vector at a privilege level, by an instruction or by the hardware; the last bit of an error
code says that it was the hardware. -/
def SystemTables.enter (t : SystemTables) (level : ℕ) (software : Bool) (vector : ℕ) :
    Except TableFault Entrance :=
  let gate := gateOf (t.gates vector)
  let segment := segmentOf (t.segments (gate.selector / 8))
  let external := if software then 0 else 1
  if t.gatesLimit < 8 * vector + 7 then .error (.protection (8 * vector + 2 + external))
  else if gate.type ≠ 0xE ∧ gate.type ≠ 0xF then
    .error (.protection (8 * vector + 2 + external))
  else if software ∧ gate.privilege < level then
    .error (.protection (8 * vector + 2 + external))
  else if !gate.present then .error (.gateNotPresent (8 * vector + 2 + external))
  else if gate.selector / 8 = 0 ∨ t.segmentsLimit < gate.selector / 8 * 8 + 7 ∨ !segment.code ∨
      level < segment.privilege then
    .error (.protection (gate.selector / 8 * 8 + external))
  else if !segment.present then
    .error (.segmentNotPresent (gate.selector / 8 * 8 + external))
  else if segment.limit < gate.offset then .error (.protection external)
  else .ok ⟨segment.base + gate.offset, segment.privilege, gate.type = 0xE⟩

/-! ## Ports -/

/-- A program may use a port of some bytes without the privilege for it: the task state segment, with
its limit, has a map of the ports, and the bits of these bytes are clear in it. -/
def portAllowed (tss : List Byte) (limit port width : ℕ) : Bool :=
  let map := fieldAt tss 102 2
  map + port / 8 + 1 ≤ limit &&
    (List.range width).all fun i => !(fieldAt tss (map + port / 8) 2).testBit (port % 8 + i)

end LakeOS.Library
