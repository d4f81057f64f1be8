import Mathlib.Logic.Relation
import LakeOS.Analysis.SalByteStore

/-!
# What a write leaves alone

`SAL_write` is not exact for a short access that crosses a sector boundary
(`salWrite_across_sectors_not_exact`), but even then it stays in its range: it writes
only sectors that the range meets, and the bytes of these sectors that are not in the
range are written back as they were read.
-/

set_option autoImplicit false

namespace LakeOS.Analysis

open LakeOS.Library LakeOS.Model

section

variable {δ : Type} {device : StorageDevice δ} {bytes : δ → Store Byte} {numSectors : ℕ}

/-- Exact sector transfers of a disk that ends behind `numSectors` sectors: a transfer to
a sector beyond them changes no byte of it. -/
structure ExactTransfers (device : StorageDevice δ) (bytes : δ → Store Byte)
    (numSectors : ℕ) : Prop extends device.Exact bytes numSectors where
  beyond : ∀ d lba buf x, numSectors ≤ lba → x < numSectors * device.sectorSize →
    bytes (device.writeSector d buf lba) x = bytes d x

/-- A call of `write_sector` for a sector that meets `[offset, offset + len)`. -/
def WritesSector (device : StorageDevice δ) (len offset : ℕ) (d d' : δ) : Prop :=
  ∃ lba buf, lba * device.sectorSize < offset + len ∧ offset < (lba + 1) * device.sectorSize ∧
    d' = device.writeSector d buf lba

/-- The disk is changed by calls of `write_sector` for sectors that meet the range, and
no byte outside the range is changed. -/
structure StaysInRange (device : StorageDevice δ) (bytes : δ → Store Byte)
    (numSectors len offset : ℕ) (d d' : δ) : Prop where
  sectors : Relation.ReflTransGen (WritesSector device len offset) d d'
  outside : ∀ x < numSectors * device.sectorSize, x < offset ∨ offset + len ≤ x →
    bytes d' x = bytes d x

variable {len offset : ℕ} {d d' d'' : δ}

theorem StaysInRange.refl : StaysInRange device bytes numSectors len offset d d :=
  ⟨Relation.ReflTransGen.refl, fun _ _ _ => rfl⟩

theorem StaysInRange.trans (h : StaysInRange device bytes numSectors len offset d d')
    (h' : StaysInRange device bytes numSectors len offset d' d'') :
    StaysInRange device bytes numSectors len offset d d'' :=
  ⟨h.sectors.trans h'.sectors, fun x hx hout => (h'.outside x hx hout).trans (h.outside x hx hout)⟩

/-! ## One sector -/

/-- INTERNAL: a sector is written back with the bytes outside the range as they were. -/
theorem staysInRange_writeSector (hdev : ExactTransfers device bytes numSectors) {lba : ℕ}
    {buf : List Byte} (hlow : lba * device.sectorSize < offset + len)
    (hhigh : offset < (lba + 1) * device.sectorSize) (hbuf : buf.length = device.sectorSize)
    (hkeep : lba < numSectors → ∀ i, (hi : i < buf.length) →
      lba * device.sectorSize + i < offset ∨ offset + len ≤ lba * device.sectorSize + i →
      buf[i] = bytes d (lba * device.sectorSize + i)) :
    StaysInRange device bytes numSectors len offset d (device.writeSector d buf lba) := by
  refine ⟨.single ⟨lba, buf, hlow, hhigh, rfl⟩, fun x hx hout => ?_⟩
  by_cases hlba : lba < numSectors
  · rw [hdev.write_eq d lba buf hlba hbuf]
    by_cases hin : lba * device.sectorSize ≤ x ∧ x < lba * device.sectorSize + buf.length
    · have hsum : lba * device.sectorSize + (x - lba * device.sectorSize) = x := by omega
      rw [Store.write_of_mem _ _ hin.1 (by omega), hkeep hlba _ (by omega) (by rwa [hsum]), hsum]
    · exact Store.write_of_notMem _ _ (by omega)
  · exact hdev.beyond d lba buf x (Nat.not_lt.mp hlba) hx

/-- INTERNAL: a staged write of bytes of the range, past the end of its sector or not.
SRCLINE: sal.c:13-26 -/
theorem staysInRange_salWriteUnaligned (hdev : ExactTransfers device bytes numSectors)
    {k sectorOff lba : ℕ} (hsector : sectorOff < device.sectorSize) (hk : 1 ≤ k)
    (hfrom : offset ≤ lba * device.sectorSize + sectorOff)
    (hto : lba * device.sectorSize + sectorOff + k ≤ offset + len) (mem : Store Byte) (buff : ℕ)
    (s : Sal δ) :
    StaysInRange device bytes numSectors len offset s.disk
      (salWriteUnaligned device k sectorOff lba mem buff s).disk := by
  unfold salWriteUnaligned
  split
  next => exact .refl
  next =>
    apply staysInRange_writeSector hdev
    · omega
    · rw [Nat.add_mul]
      omega
    · exact Store.length_read _ _ _
    · intro hlba i hi hout
      rw [Store.length_read] at hi
      rw [Store.getElem_read, Nat.zero_add, Store.write_of_notMem _ _ (by simp; omega),
        hdev.read_eq _ _ hlba, Store.write_of_mem _ _ (Nat.zero_le i) (by simp; omega),
        Store.getElem_read, Nat.sub_zero]

/-! ## The lengths -/

/-- The values of `copied_len` in the run of `SAL_write`, each of which is taken from
`len`.
SRCLINE: sal.c:78-98 -/
inductive CopiedLen (sectorSize len offset : ℕ) : ℕ → Prop where
  | head : CopiedLen sectorSize len offset
      (if offset % sectorSize ≠ 0 then headLen len sectorSize (offset % sectorSize) else 0)
  | next {c : ℕ} : CopiedLen sectorSize len offset c → sectorSize ≤ sub32 len c →
      CopiedLen sectorSize len offset (add32 c sectorSize)

variable {sectorSize : ℕ}

/-- INTERNAL: the head ends at a boundary, or takes all there is. -/
theorem atBoundary_headLen (len : ℕ) (hpos : 1 ≤ sectorSize) (hoff : offset % sectorSize ≠ 0) :
    AtBoundary sectorSize len offset (headLen len sectorSize (offset % sectorSize)) := by
  by_cases hlong : sectorSize ≤ len
  · exact (HeadFits.head (.inr (.inl hlong)) hpos hoff).2.2
  · unfold headLen
    rw [if_pos (Nat.not_le.mp hlong)]
    exact ⟨le_rfl, .inr rfl⟩

theorem atBoundary_head (hpos : 1 ≤ sectorSize) : AtBoundary sectorSize len offset
    (if offset % sectorSize ≠ 0 then headLen len sectorSize (offset % sectorSize) else 0) := by
  by_cases hoff : offset % sectorSize ≠ 0
  · rw [if_pos hoff]
    exact atBoundary_headLen _ hpos hoff
  · rw [if_neg hoff]
    exact ⟨Nat.zero_le len, .inl (not_not.mp hoff)⟩

/-- INTERNAL: a range ends inside a disk that is large enough. -/
theorem le_disk (hpos : 1 ≤ sectorSize) : offset + len ≤ (offset + len + 1) * sectorSize :=
  calc offset + len ≤ (offset + len) * sectorSize := Nat.le_mul_of_pos_right _ hpos
    _ ≤ (offset + len + 1) * sectorSize := Nat.mul_le_mul_right _ (Nat.le_succ _)

/-- `len - copied_len` does not wrap. -/
theorem CopiedLen.atBoundary (hpos : 1 ≤ sectorSize) (h32 : offset + len < 2 ^ 32) {c : ℕ}
    (hcopied : CopiedLen sectorSize len offset c) : AtBoundary sectorSize len offset c := by
  induction hcopied with
  | head => exact atBoundary_head hpos
  | next _ hleft ih =>
      have hle := ih.1
      rw [sub32_eq hle (by omega)] at hleft
      rw [add32_eq (by omega)]
      exact (ih.next hpos hleft (le_disk hpos)).1

/-! ## The whole write -/

/-- INTERNAL: the loop over whole sectors stays in the range.
SRCLINE: sal.c:93-96 -/
theorem salWriteLoop_stays (hdev : ExactTransfers device bytes numSectors)
    (hpos : 1 ≤ device.sectorSize) (h32 : offset + len < 2 ^ 32) (mem : Store Byte) (buff : ℕ)
    {fuel copiedLen : ℕ} (hat : AtBoundary device.sectorSize len offset copiedLen)
    (hfuel : len - copiedLen < fuel) (s : Sal δ) :
    ∃ c s', salWriteLoop device len offset mem buff fuel copiedLen s = some (c, s') ∧
      AtBoundary device.sectorSize len offset c ∧ len - c < device.sectorSize ∧
      StaysInRange device bytes numSectors len offset s.disk s'.disk := by
  induction fuel generalizing copiedLen s with
  | zero => omega
  | succ fuel ih =>
      have hle := hat.1
      unfold salWriteLoop
      rw [sub32_eq hle (by omega), add32_eq (by omega)]
      split
      next hleft =>
        obtain ⟨hnext, -, hdiv⟩ := hat.next hpos hleft (le_disk hpos)
        rw [add32_eq (by omega)]
        obtain ⟨c, s', heq, hatc, hend, hstays⟩ := ih hnext (by omega) _
        refine ⟨c, s', heq, hatc, hend, .trans (staysInRange_writeSector hdev ?_ ?_ ?_ ?_) hstays⟩
        · rw [hdiv]
          omega
        · rw [Nat.add_mul, hdiv]
          omega
        · exact Store.length_read _ _ _
        · intro _ i hi hout
          rw [Store.length_read] at hi
          rw [hdiv] at hout
          omega
      next hleft => exact ⟨copiedLen, s, rfl, hat, by omega, .refl⟩

/-- INTERNAL: from a boundary on `SAL_write` stays in the range.
SRCLINE: sal.c:93-106 -/
theorem salWriteRest_stays (hdev : ExactTransfers device bytes numSectors)
    (hpos : 1 ≤ device.sectorSize) (h32 : offset + len < 2 ^ 32) (mem : Store Byte) (buff : ℕ)
    {copiedLen : ℕ} (hat : AtBoundary device.sectorSize len offset copiedLen) (s : Sal δ) :
    ∃ s', salWriteRest device len offset mem buff copiedLen s = some s' ∧
      StaysInRange device bytes numSectors len offset s.disk s'.disk := by
  obtain ⟨c, s', heq, hatc, hend, hstays⟩ :=
    salWriteLoop_stays hdev hpos h32 mem buff hat (by omega : len - copiedLen < len + 1) s
  have hle := hatc.1
  unfold salWriteRest
  refine ⟨_, by rw [heq]; rfl, ?_⟩
  simp only
  rw [sub32_eq hle (by omega), add32_eq (by omega)]
  split
  next hne =>
    obtain ⟨-, -, hdiv⟩ := hatc.tail hpos hne hend (le_disk hpos)
    apply hstays.trans
    apply staysInRange_salWriteUnaligned hdev (Nat.mod_lt _ hpos) (by omega)
    · rw [hdiv]
      omega
    · rw [hdiv]
      omega
  next => exact hstays

/-- **Storage writes stay in range.**  On every device of exact sector transfers with
sectors of 1 to 2048 bytes, `SAL_write` returns, writes only sectors that the range meets
and changes no byte of the disk outside it; `len - copied_len` never wraps.
SRCLINE: sal.c:13-26, 78-107 -/
theorem salWrite_stays_in_range (hdev : ExactTransfers device bytes numSectors)
    (hpos : 1 ≤ device.sectorSize) (_hsize : device.sectorSize ≤ 2048) (hlen : 1 ≤ len)
    (h32 : offset + len < 2 ^ 32) :
    (∀ (mem : Store Byte) (buff : ℕ) (s : Sal δ), ∃ s',
      salWrite device len offset mem buff s = some s' ∧
        Relation.ReflTransGen (WritesSector device len offset) s.disk s'.disk ∧
        ∀ x < numSectors * device.sectorSize, x < offset ∨ offset + len ≤ x →
          bytes s'.disk x = bytes s.disk x) ∧
      ∀ c, CopiedLen device.sectorSize len offset c → c ≤ len := by
  refine ⟨fun mem buff s => ?_, fun c hcopied => (hcopied.atBoundary hpos h32).1⟩
  have hrest : ∃ s', salWrite device len offset mem buff s = some s' ∧
      StaysInRange device bytes numSectors len offset s.disk s'.disk := by
    unfold salWrite
    simp only
    split
    next hoff =>
      have hat := atBoundary_headLen len hpos hoff
      obtain ⟨s', heq, hstays⟩ := salWriteRest_stays hdev hpos h32 mem buff hat _
      have hdiv := Nat.div_add_mod offset device.sectorSize
      rw [Nat.mul_comm] at hdiv
      have hmod := Nat.mod_lt offset hpos
      refine ⟨s', heq, .trans (staysInRange_salWriteUnaligned hdev hmod ?_ ?_ ?_ mem buff s) hstays⟩
      · unfold headLen
        split <;> omega
      · omega
      · have hle := hat.1
        omega
    next hoff =>
      exact salWriteRest_stays hdev hpos h32 mem buff ⟨len.zero_le, .inl (not_not.mp hoff)⟩ s
  obtain ⟨s', heq, hstays⟩ := hrest
  exact ⟨s', heq, hstays.sectors, hstays.outside⟩

end

/-- The device whose state is the byte array of a disk of `numSectors` sectors. -/
def diskDevice (sectorSize numSectors : ℕ) : StorageDevice (Store Byte) where
  sectorSize
  readSector d lba := d.read (lba * sectorSize) sectorSize
  writeSector d buf lba := if lba < numSectors then d.write (lba * sectorSize) buf else d

theorem diskDevice_exact (sectorSize numSectors : ℕ) :
    ExactTransfers (diskDevice sectorSize numSectors) id numSectors := by
  refine ⟨⟨fun _ _ _ => rfl, fun d lba buf hlba _ => ?_⟩, fun d lba buf x hlba _ => ?_⟩
  · exact if_pos hlba
  · exact congrFun (if_neg (Nat.not_lt.mpr hlba)) x

/-- Two bytes at offset 511 leave a floppy disk alone before and behind them. -/
theorem salWrite_stays_in_range_floppy :
    (∀ (mem : Store Byte) (buff : ℕ) (s : Sal (Store Byte)), ∃ s',
      salWrite (diskDevice 512 2880) 2 511 mem buff s = some s' ∧
        Relation.ReflTransGen (WritesSector (diskDevice 512 2880) 2 511) s.disk s'.disk ∧
        ∀ x < 2880 * 512, x < 511 ∨ 511 + 2 ≤ x → s'.disk x = s.disk x) ∧
      ∀ c, CopiedLen 512 2 511 c → c ≤ 2 :=
  salWrite_stays_in_range (diskDevice_exact 512 2880) (by decide) (by decide) (by decide)
    (by decide)

end LakeOS.Analysis
