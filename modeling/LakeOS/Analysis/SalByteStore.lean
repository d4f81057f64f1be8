import LakeOS.Model.Sal

/-!
# When the storage layer is a byte store

`SAL_read` and `SAL_write` move a head (the rest of the sector the access starts in),
whole sectors, and a tail.  The head length is `len` as soon as `len` is below the
sector size, so a short access that starts in one sector and ends in the next is
staged through one sector only: the bytes past its end come from, or stay in, the
staging buffer.  For every other access the two functions are exact; the main result
is that equivalence.
-/

set_option autoImplicit false

namespace LakeOS.Analysis

open LakeOS.Library LakeOS.Model

section

variable {δ : Type} {device : StorageDevice δ} {bytes : δ → Store Byte} {numSectors : ℕ}

/-! ## One sector -/

/-- INTERNAL: a staged write inside one sector is a byte write.
SRCLINE: sal.c:13-26 -/
theorem salWriteUnaligned_bytes (hdev : device.Exact bytes numSectors)
    {len sectorOff lba : ℕ} (hsize : device.sectorSize ≤ 4096) (hlba : lba < numSectors)
    (hfit : sectorOff + len ≤ device.sectorSize) (mem : Store Byte) (buff : ℕ) (s : Sal δ) :
    bytes (salWriteUnaligned device len sectorOff lba mem buff s).disk =
      (bytes s.disk).write (lba * device.sectorSize + sectorOff) (mem.read buff len) := by
  unfold salWriteUnaligned
  rw [if_neg (by omega)]
  simp only
  rw [hdev.write_eq _ _ _ hlba (by simp), hdev.read_eq _ _ hlba]
  exact Store.write_patch _ _ _ (by simpa using hfit)

/-- INTERNAL: a staged read inside one sector is a byte read.
SRCLINE: sal.c:34-45 -/
theorem salReadUnaligned_eq (hdev : device.Exact bytes numSectors)
    {len sectorOff lba : ℕ} (hsize : device.sectorSize ≤ 4096) (hlba : lba < numSectors)
    (hfit : sectorOff + len ≤ device.sectorSize) (mem : Store Byte) (buff : ℕ) (s : Sal δ) :
    (salReadUnaligned device len sectorOff lba mem buff s).1 =
        mem.write buff ((bytes s.disk).read (lba * device.sectorSize + sectorOff) len) ∧
      (salReadUnaligned device len sectorOff lba mem buff s).2.disk = s.disk := by
  unfold salReadUnaligned
  rw [if_neg (by omega)]
  refine ⟨?_, rfl⟩
  simp only
  rw [hdev.read_eq _ _ hlba, Store.read_patch _ _ hfit]

/-! ## The loop over whole sectors -/

/-- The position `offset + copiedLen` is where a whole sector starts, or nothing is
left to copy: what the loops keep. -/
def AtBoundary (sectorSize len offset copiedLen : ℕ) : Prop :=
  copiedLen ≤ len ∧ ((offset + copiedLen) % sectorSize = 0 ∨ copiedLen = len)

/-- INTERNAL: one whole sector further is a boundary again, inside the device. -/
theorem AtBoundary.next {sectorSize len offset copiedLen : ℕ}
    (hat : AtBoundary sectorSize len offset copiedLen) (hpos : 1 ≤ sectorSize)
    (hleft : sectorSize ≤ len - copiedLen) (hin : offset + len ≤ numSectors * sectorSize) :
    AtBoundary sectorSize len offset (copiedLen + sectorSize) ∧
      (offset + copiedLen) / sectorSize < numSectors ∧
      (offset + copiedLen) / sectorSize * sectorSize = offset + copiedLen := by
  obtain ⟨hle, hmod | rfl⟩ := hat
  · refine ⟨⟨by omega, .inl ?_⟩, ?_, Nat.div_mul_cancel (Nat.dvd_of_mod_eq_zero hmod)⟩
    · rw [← Nat.add_assoc, Nat.add_mod_right, hmod]
    · rw [Nat.div_lt_iff_lt_mul (by omega)]
      omega
  · omega

/-- INTERNAL: the write loop writes whole sectors until less than one is left.
SRCLINE: sal.c:93-96 -/
theorem salWriteLoop_spec (hdev : device.Exact bytes numSectors) {len offset : ℕ}
    (hpos : 1 ≤ device.sectorSize) (hin : offset + len ≤ numSectors * device.sectorSize)
    (h32 : offset + len < 2 ^ 32) (mem : Store Byte) (buff : ℕ) {fuel copiedLen : ℕ}
    (hat : AtBoundary device.sectorSize len offset copiedLen) (hfuel : len - copiedLen < fuel)
    (s : Sal δ) :
    ∃ c s', salWriteLoop device len offset mem buff fuel copiedLen s = some (c, s') ∧
      AtBoundary device.sectorSize len offset c ∧ copiedLen ≤ c ∧
      len - c < device.sectorSize ∧
      bytes s'.disk = (bytes s.disk).write (offset + copiedLen)
        (mem.read (buff + copiedLen) (c - copiedLen)) := by
  induction fuel generalizing copiedLen s with
  | zero => omega
  | succ fuel ih =>
      have hle := hat.1
      unfold salWriteLoop
      rw [sub32_eq hle (by omega), add32_eq (by omega)]
      split
      · next hleft =>
          obtain ⟨hnext, hlba, hdiv⟩ := hat.next hpos hleft hin
          rw [add32_eq (by omega)]
          let sector := mem.read (buff + copiedLen) device.sectorSize
          let lba := (offset + copiedLen) / device.sectorSize
          obtain ⟨c, s', heq, hatc, hc, hend, hbytes⟩ := ih hnext (by omega)
            { s with disk := device.writeSector s.disk sector lba }
          refine ⟨c, s', heq, hatc, by omega, hend, ?_⟩
          have hsplit : c - copiedLen = device.sectorSize + (c - (copiedLen + device.sectorSize)) := by
            omega
          rw [hbytes, hdev.write_eq _ _ _ hlba (Store.length_read _ _ _), hdiv, hsplit,
            Store.read_add, Store.write_append, Store.length_read, Nat.add_assoc, Nat.add_assoc]
      · next hleft => exact ⟨copiedLen, s, rfl, hat, le_rfl, by omega, by simp⟩

/-- INTERNAL: the read loop reads whole sectors until less than one is left.
SRCLINE: sal.c:65-68 -/
theorem salReadLoop_spec (hdev : device.Exact bytes numSectors) {len offset : ℕ}
    (hpos : 1 ≤ device.sectorSize) (hin : offset + len ≤ numSectors * device.sectorSize)
    (h32 : offset + len < 2 ^ 32) (buff : ℕ) (s : Sal δ) {fuel copiedLen : ℕ}
    (hat : AtBoundary device.sectorSize len offset copiedLen) (hfuel : len - copiedLen < fuel)
    (mem : Store Byte) :
    ∃ c mem', salReadLoop device len offset buff s fuel copiedLen mem = some (c, mem') ∧
      AtBoundary device.sectorSize len offset c ∧ copiedLen ≤ c ∧
      len - c < device.sectorSize ∧
      mem' = mem.write (buff + copiedLen)
        ((bytes s.disk).read (offset + copiedLen) (c - copiedLen)) := by
  induction fuel generalizing copiedLen mem with
  | zero => omega
  | succ fuel ih =>
      have hle := hat.1
      unfold salReadLoop
      rw [sub32_eq hle (by omega), add32_eq (by omega)]
      split
      · next hleft =>
          obtain ⟨hnext, hlba, hdiv⟩ := hat.next hpos hleft hin
          rw [add32_eq (by omega)]
          obtain ⟨c, mem', heq, hatc, hc, hend, hmem⟩ := ih hnext (by omega)
            (mem.write (buff + copiedLen)
              (device.readSector s.disk ((offset + copiedLen) / device.sectorSize)))
          refine ⟨c, mem', heq, hatc, by omega, hend, ?_⟩
          have hsplit : c - copiedLen = device.sectorSize + (c - (copiedLen + device.sectorSize)) := by
            omega
          rw [hmem, hdev.read_eq _ _ hlba, hdiv, hsplit, Store.read_add,
            Store.write_append, Store.length_read, Nat.add_assoc, Nat.add_assoc]
      · next hleft => exact ⟨copiedLen, mem, rfl, hat, le_rfl, by omega, by simp⟩

/-! ## From the loop to the end -/

/-- INTERNAL: the tail of an access fits the sector it starts in. -/
theorem AtBoundary.tail {sectorSize len offset c : ℕ}
    (hat : AtBoundary sectorSize len offset c) (hpos : 1 ≤ sectorSize) (hne : len - c ≠ 0)
    (hend : len - c < sectorSize) (hin : offset + len ≤ numSectors * sectorSize) :
    (offset + c) / sectorSize < numSectors ∧ (offset + c) % sectorSize + (len - c) ≤ sectorSize ∧
      (offset + c) / sectorSize * sectorSize + (offset + c) % sectorSize = offset + c := by
  obtain ⟨hle, hmod | rfl⟩ := hat
  · refine ⟨?_, by omega, by rw [Nat.mul_comm]; exact Nat.div_add_mod _ _⟩
    rw [Nat.div_lt_iff_lt_mul (by omega)]
    omega
  · omega

/-- INTERNAL: from a boundary on `SAL_write` writes exactly what is left. -/
theorem salWriteRest_spec (hdev : device.Exact bytes numSectors) {len offset : ℕ}
    (hpos : 1 ≤ device.sectorSize) (hsize : device.sectorSize ≤ 4096)
    (hin : offset + len ≤ numSectors * device.sectorSize) (h32 : offset + len < 2 ^ 32)
    (mem : Store Byte) (buff : ℕ) {copiedLen : ℕ}
    (hat : AtBoundary device.sectorSize len offset copiedLen) (s : Sal δ) :
    ∃ s', salWriteRest device len offset mem buff copiedLen s = some s' ∧
      bytes s'.disk = (bytes s.disk).write (offset + copiedLen)
        (mem.read (buff + copiedLen) (len - copiedLen)) := by
  obtain ⟨c, s', heq, hatc, hc, hend, hbytes⟩ :=
    salWriteLoop_spec hdev hpos hin h32 mem buff hat (by omega : len - copiedLen < len + 1) s
  have hcl := hatc.1
  unfold salWriteRest
  refine ⟨_, by rw [heq]; rfl, ?_⟩
  simp only
  rw [sub32_eq hcl (by omega), add32_eq (by omega)]
  split
  · next hne =>
      obtain ⟨hlba, hfit, hdiv⟩ := hatc.tail hpos hne hend hin
      have hsplit : len - copiedLen = (c - copiedLen) + (len - c) := by omega
      rw [salWriteUnaligned_bytes hdev hsize hlba hfit, hdiv, hbytes, hsplit, Store.read_add,
        Store.write_append, Store.length_read, show offset + copiedLen + (c - copiedLen) = offset + c by omega,
        show buff + copiedLen + (c - copiedLen) = buff + c by omega]
  · next heq0 =>
      rw [hbytes, show c - copiedLen = len - copiedLen by omega]

/-- INTERNAL: from a boundary on `SAL_read` stores exactly what is left. -/
theorem salReadRest_spec (hdev : device.Exact bytes numSectors) {len offset : ℕ}
    (hpos : 1 ≤ device.sectorSize) (hsize : device.sectorSize ≤ 4096)
    (hin : offset + len ≤ numSectors * device.sectorSize) (h32 : offset + len < 2 ^ 32)
    (mem : Store Byte) (buff : ℕ) {copiedLen : ℕ}
    (hat : AtBoundary device.sectorSize len offset copiedLen) (s : Sal δ) :
    ∃ s', salReadRest device len offset mem buff copiedLen s =
        some (mem.write (buff + copiedLen)
          ((bytes s.disk).read (offset + copiedLen) (len - copiedLen)), s') ∧
      s'.disk = s.disk := by
  obtain ⟨c, mem', heq, hatc, hc, hend, hmem⟩ :=
    salReadLoop_spec hdev hpos hin h32 buff s hat (by omega : len - copiedLen < len + 1) mem
  have hcl := hatc.1
  unfold salReadRest
  rw [heq, Option.map_some]
  simp only
  rw [sub32_eq hcl (by omega), add32_eq (by omega)]
  split
  · next hne =>
      obtain ⟨hlba, hfit, hdiv⟩ := hatc.tail hpos hne hend hin
      obtain ⟨hfst, hsnd⟩ := salReadUnaligned_eq hdev hsize hlba hfit mem' (buff + c) s
      have hsplit : len - copiedLen = (c - copiedLen) + (len - c) := by omega
      refine ⟨_, congrArg some (Prod.ext ?_ rfl), hsnd⟩
      rw [hfst, hdiv, hmem, hsplit, Store.read_add, Store.write_append, Store.length_read,
        show offset + copiedLen + (c - copiedLen) = offset + c by omega,
        show buff + copiedLen + (c - copiedLen) = buff + c by omega]
  · next heq0 =>
      refine ⟨s, ?_, rfl⟩
      rw [hmem, show c - copiedLen = len - copiedLen by omega]

/-! ## The head -/

/-- `SAL_write` replaces exactly the bytes `[offset, offset + len)` of the disk. -/
def SalWriteExact (device : StorageDevice δ) (bytes : δ → Store Byte) (len offset : ℕ) : Prop :=
  ∀ (mem : Store Byte) (buff : ℕ) (s : Sal δ), ∃ s',
    salWrite device len offset mem buff s = some s' ∧
      bytes s'.disk = (bytes s.disk).write offset (mem.read buff len)

/-- `SAL_read` stores exactly the bytes `[offset, offset + len)` of the disk. -/
def SalReadExact (device : StorageDevice δ) (bytes : δ → Store Byte) (len offset : ℕ) : Prop :=
  ∀ (mem : Store Byte) (buff : ℕ) (s : Sal δ), ∃ s',
    salRead device len offset mem buff s =
        some (mem.write buff ((bytes s.disk).read offset len), s') ∧
      s'.disk = s.disk

/-- The access starts at a sector, is at least a sector long, or ends in the sector it
starts in. -/
def HeadFits (sectorSize len offset : ℕ) : Prop :=
  offset % sectorSize = 0 ∨ sectorSize ≤ len ∨ offset % sectorSize + len ≤ sectorSize

/-- INTERNAL: a head that fits stays in its sector and ends at a boundary. -/
theorem HeadFits.head {sectorSize len offset : ℕ} (hfits : HeadFits sectorSize len offset)
    (hpos : 1 ≤ sectorSize) (hoff : offset % sectorSize ≠ 0) :
    offset % sectorSize + headLen len sectorSize (offset % sectorSize) ≤ sectorSize ∧
      headLen len sectorSize (offset % sectorSize) ≤ len ∧
      AtBoundary sectorSize len offset (headLen len sectorSize (offset % sectorSize)) := by
  have hlt : offset % sectorSize < sectorSize := Nat.mod_lt _ hpos
  unfold headLen AtBoundary
  split
  · next hshort =>
      obtain h | h | h := hfits
      · contradiction
      · omega
      · exact ⟨h, le_rfl, le_rfl, .inr rfl⟩
  · next hlong =>
      refine ⟨by omega, by omega, by omega, .inl ?_⟩
      rw [Nat.add_mod, Nat.mod_eq_of_lt (show sectorSize - offset % sectorSize < sectorSize by omega)]
      rw [show offset % sectorSize + (sectorSize - offset % sectorSize) = sectorSize by omega,
        Nat.mod_self]

/-- INTERNAL: an access that starts inside a sector starts inside the device. -/
theorem headSector_lt {sectorSize offset : ℕ} (hpos : 1 ≤ sectorSize)
    (hin : offset ≤ numSectors * sectorSize) (hoff : offset % sectorSize ≠ 0) :
    offset / sectorSize < numSectors := by
  rw [Nat.div_lt_iff_lt_mul (by omega)]
  apply Nat.lt_of_le_of_ne hin
  intro heq
  exact hoff (heq ▸ Nat.mul_mod_left _ _)

/-- INTERNAL: a write whose head fits is exact. -/
theorem salWriteExact_of_headFits (hdev : device.Exact bytes numSectors) {len offset : ℕ}
    (hpos : 1 ≤ device.sectorSize) (hsize : device.sectorSize ≤ 4096)
    (hin : offset + len ≤ numSectors * device.sectorSize) (h32 : offset + len < 2 ^ 32)
    (hfits : HeadFits device.sectorSize len offset) : SalWriteExact device bytes len offset := by
  intro mem buff s
  unfold salWrite
  simp only
  split
  · next hoff =>
      obtain ⟨hfit, hhead, hat⟩ := hfits.head hpos hoff
      obtain ⟨s', heq, hbytes⟩ := salWriteRest_spec hdev hpos hsize hin h32 mem buff hat _
      have hlba := headSector_lt hpos (Nat.le_of_add_right_le hin) hoff
      refine ⟨s', heq, ?_⟩
      generalize headLen len device.sectorSize (offset % device.sectorSize) = k at *
      have hsplit : len = k + (len - k) := by omega
      rw [hbytes, salWriteUnaligned_bytes hdev hsize hlba hfit, Nat.mul_comm, Nat.div_add_mod]
      conv_rhs => rw [hsplit, Store.read_add, Store.write_append, Store.length_read]
  · next hoff =>
      have hat : AtBoundary device.sectorSize len offset 0 := ⟨by omega, .inl (not_not.mp hoff)⟩
      obtain ⟨s', heq, hbytes⟩ := salWriteRest_spec hdev hpos hsize hin h32 mem buff hat s
      exact ⟨s', heq, hbytes⟩

/-- INTERNAL: a read whose head fits is exact. -/
theorem salReadExact_of_headFits (hdev : device.Exact bytes numSectors) {len offset : ℕ}
    (hpos : 1 ≤ device.sectorSize) (hsize : device.sectorSize ≤ 4096)
    (hin : offset + len ≤ numSectors * device.sectorSize) (h32 : offset + len < 2 ^ 32)
    (hfits : HeadFits device.sectorSize len offset) : SalReadExact device bytes len offset := by
  intro mem buff s
  unfold salRead
  simp only
  split
  · next hoff =>
      obtain ⟨hfit, hhead, hat⟩ := hfits.head hpos hoff
      have hlba := headSector_lt hpos (Nat.le_of_add_right_le hin) hoff
      obtain ⟨hfst, hsnd⟩ := salReadUnaligned_eq hdev hsize hlba hfit mem buff s
      obtain ⟨s', heq, hdisk⟩ := salReadRest_spec hdev hpos hsize hin h32 _ buff hat _
      refine ⟨s', heq.trans ?_, hdisk.trans hsnd⟩
      generalize headLen len device.sectorSize (offset % device.sectorSize) = k at *
      have hsplit : len = k + (len - k) := by omega
      rw [hfst, hsnd, Nat.mul_comm, Nat.div_add_mod]
      conv_rhs => rw [hsplit, Store.read_add, Store.write_append, Store.length_read]
  · next hoff =>
      have hat : AtBoundary device.sectorSize len offset 0 := ⟨by omega, .inl (not_not.mp hoff)⟩
      exact salReadRest_spec hdev hpos hsize hin h32 mem buff hat s

/-! ## Where the head does not fit -/

/-- INTERNAL: once the head has taken the whole length nothing follows it. -/
theorem salWriteRest_done {len offset : ℕ} (hpos : 1 ≤ device.sectorSize) (mem : Store Byte)
    (buff : ℕ) (s : Sal δ) : salWriteRest device len offset mem buff len s = some s := by
  have hzero : sub32 len len = 0 := by
    unfold sub32
    omega
  simp [salWriteRest, salWriteLoop, hzero, Nat.not_le.mpr hpos]

theorem salReadRest_done {len offset : ℕ} (hpos : 1 ≤ device.sectorSize) (mem : Store Byte)
    (buff : ℕ) (s : Sal δ) : salReadRest device len offset mem buff len s = some (mem, s) := by
  have hzero : sub32 len len = 0 := by
    unfold sub32
    omega
  simp [salReadRest, salReadLoop, hzero, Nat.not_le.mpr hpos]

/-- INTERNAL: a byte different from a given one. -/
theorem exists_ne_byte (b : Byte) : ∃ b' : Byte, b' ≠ b :=
  ⟨~~~b, by revert b; decide⟩

/-- INTERNAL: the last byte of an access that crosses a sector boundary lies in the next
sector, which the head does not touch. -/
theorem lastByte_outside {sectorSize len offset : ℕ} (hpos : 1 ≤ sectorSize)
    (hcross : sectorSize < offset % sectorSize + len) :
    offset / sectorSize * sectorSize + sectorSize ≤ offset + (len - 1) := by
  have hdiv := Nat.div_add_mod offset sectorSize
  rw [Nat.mul_comm] at hdiv
  have hlt : offset % sectorSize < sectorSize := Nat.mod_lt _ hpos
  omega

/-- INTERNAL: a write whose head does not fit leaves its last byte as it was. -/
theorem not_salWriteExact (hdev : device.Exact bytes numSectors) [Nonempty δ] {len offset : ℕ}
    (hpos : 1 ≤ device.sectorSize) (hsize : device.sectorSize ≤ 4096)
    (hin : offset + len ≤ numSectors * device.sectorSize)
    (hfits : ¬ HeadFits device.sectorSize len offset) :
    ¬ SalWriteExact device bytes len offset := by
  simp only [HeadFits, not_or, not_le] at hfits
  obtain ⟨hoff, hshort, hcross⟩ := hfits
  intro hexact
  obtain ⟨d⟩ := ‹Nonempty δ›
  obtain ⟨b, hb⟩ := exists_ne_byte (bytes d (offset + (len - 1)))
  obtain ⟨s', heq, hbytes⟩ := hexact (fun _ => b) 0 ⟨d, fun _ => 0, fun _ => 0⟩
  have hlba := headSector_lt hpos (Nat.le_of_add_right_le hin) hoff
  have hout := lastByte_outside hpos hcross
  have hlen : 1 ≤ len := by
    have hlt := Nat.mod_lt offset hpos
    omega
  simp only [salWrite, if_pos hoff, headLen, if_pos hshort, salWriteRest_done hpos,
    Option.some.injEq] at heq
  -- the head writes back one sector, so the last byte is the old one
  have hkept : bytes s'.disk (offset + (len - 1)) = bytes d (offset + (len - 1)) := by
    rw [← heq]
    unfold salWriteUnaligned
    rw [if_neg (by omega)]
    simp only
    rw [hdev.write_eq _ _ _ hlba (Store.length_read _ _ _)]
    exact Store.write_of_notMem _ _ (.inr (by simpa using hout))
  apply hb
  rw [← hkept, hbytes, Store.write_add _ _ _ _ (by simp; omega), Store.getElem_read]

/-- A read whose head does not fit takes its last byte from the staging buffer. -/
theorem not_salReadExact (hdev : device.Exact bytes numSectors) [Nonempty δ] {len offset : ℕ}
    (hpos : 1 ≤ device.sectorSize) (hsize : device.sectorSize ≤ 4096)
    (hin : offset + len ≤ numSectors * device.sectorSize)
    (hfits : ¬ HeadFits device.sectorSize len offset) :
    ¬ SalReadExact device bytes len offset := by
  simp only [HeadFits, not_or, not_le] at hfits
  obtain ⟨hoff, hshort, hcross⟩ := hfits
  intro hexact
  obtain ⟨d⟩ := ‹Nonempty δ›
  obtain ⟨b, hb⟩ := exists_ne_byte (bytes d (offset + (len - 1)))
  obtain ⟨s', heq, -⟩ := hexact (fun _ => 0) 0 ⟨d, fun _ => 0, fun _ => b⟩
  have hlba := headSector_lt hpos (Nat.le_of_add_right_le hin) hoff
  have hlen : 1 ≤ len := by
    have hlt := Nat.mod_lt offset hpos
    omega
  simp only [salRead, if_pos hoff, headLen, if_pos hshort, salReadRest_done hpos,
    Option.some.injEq, Prod.mk.injEq] at heq
  -- past the sector the staging buffer still holds `b`
  have hstale : (salReadUnaligned device len (offset % device.sectorSize)
      (offset / device.sectorSize) (fun _ => 0) 0 ⟨d, fun _ => 0, fun _ => b⟩).1 (len - 1) = b := by
    unfold salReadUnaligned
    rw [if_neg (by omega)]
    simp only
    rw [Store.write_of_mem _ _ (Nat.zero_le _) (by simp; omega), Store.getElem_read,
      Store.write_of_notMem _ _ (.inr ?_)]
    rw [hdev.read_eq _ _ hlba, Store.length_read]
    omega
  apply hb
  rw [← hstale, heq.1, Store.write_of_mem _ _ (Nat.zero_le _) (by simp; omega),
    Store.getElem_read]
  rfl

/-- **The storage layer as a byte store.**  On every device of exact sector transfers
with sectors of 1 to 2048 bytes, an access inside the disk is exact, whatever the disk
and the staging buffers hold, if and only if it starts at a sector boundary, is at least
a sector long, or ends in the sector it starts in.
SRCLINE: sal.c:13-107 -/
theorem sal_exact_iff_headFits (hdev : device.Exact bytes numSectors) [Nonempty δ]
    {len offset : ℕ} (hpos : 1 ≤ device.sectorSize) (hsize : device.sectorSize ≤ 2048)
    (hin : offset + len ≤ numSectors * device.sectorSize) (h32 : offset + len < 2 ^ 32) :
    (SalWriteExact device bytes len offset ∧ SalReadExact device bytes len offset) ↔
      HeadFits device.sectorSize len offset := by
  constructor
  · rintro ⟨hwrite, -⟩
    by_contra hfits
    exact not_salWriteExact hdev hpos (by omega) hin hfits hwrite
  · intro hfits
    exact ⟨salWriteExact_of_headFits hdev hpos (by omega) hin h32 hfits,
      salReadExact_of_headFits hdev hpos (by omega) hin h32 hfits⟩

end

/-- Two bytes at offset 511 of a zeroed disk: of the two ones written, only the first
arrives. -/
theorem salWrite_across_sectors_not_exact :
    (salWrite (memoryDevice 512) 2 511 (fun _ => 1) 0
        ⟨fun _ => 0, fun _ => 0, fun _ => 0⟩).map (fun s => s.disk.read 511 2) =
      some [1, 0] ∧
    ¬ (SalWriteExact (memoryDevice 512) id 2 511 ∧
      SalReadExact (memoryDevice 512) id 2 511) := by
  have hrun : (salWrite (memoryDevice 512) 2 511 (fun _ => 1) 0
      ⟨fun _ => 0, fun _ => 0, fun _ => 0⟩).map (fun s => s.disk.read 511 2) =
        some [1, 0] := by decide +kernel
  refine ⟨hrun, fun hexact => ?_⟩
  obtain ⟨s', heq, hbytes⟩ := hexact.1 (fun _ => 1) 0 ⟨fun _ => 0, fun _ => 0, fun _ => 0⟩
  rw [heq, Option.map_some, Option.some.injEq] at hrun
  have hdisk : s'.disk.read 511 2 = [1, 1] := by
    rw [show s'.disk = _ from hbytes]
    decide +kernel
  rw [hdisk] at hrun
  exact absurd hrun (by decide)

/-- Sixteen bytes across the boundary of two 512-byte sectors do not fit, the first 512
bytes do. -/
theorem sal_exact_iff_headFits_floppy :
    (SalWriteExact (memoryDevice 512) id 16 504 ∧ SalReadExact (memoryDevice 512) id 16 504 ↔
      HeadFits 512 16 504) ∧
    (SalWriteExact (memoryDevice 512) id 512 0 ∧ SalReadExact (memoryDevice 512) id 512 0) :=
  ⟨sal_exact_iff_headFits (memoryDevice_exact 512 2880) (by decide) (by decide) (by decide)
      (by decide),
    (sal_exact_iff_headFits (memoryDevice_exact 512 2880) (by decide) (by decide) (by decide)
      (by decide)).mpr (.inl rfl)⟩

end LakeOS.Analysis
