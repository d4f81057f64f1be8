import LakeOS.Analysis.SalByteStore
import LakeOS.Model.FatDevice

/-!
# Accesses across sectors

What `SAL_read` and `SAL_write` do with an access that is shorter than a sector and runs over
its end: the part behind the end reads as zeros, and is not written.  Any other access is exact.
An entry of a FAT12 table that runs over the end of a sector loses its last digits in this way.
-/

set_option autoImplicit false

namespace LakeOS.Analysis

open LakeOS.Library LakeOS.Model

section

variable {sectorSize off len x : ℕ} {d : Disk}

/-! ## One access -/

/-- The byte lies behind the sector at whose end the access is not cut. -/
def Cut (sectorSize off len x : ℕ) : Prop :=
  off % sectorSize ≠ 0 ∧ len < sectorSize ∧ off / sectorSize * sectorSize + sectorSize ≤ x

instance (sectorSize off len x : ℕ) : Decidable (Cut sectorSize off len x) :=
  inferInstanceAs (Decidable (_ ∧ _ ∧ _))

/-- Nothing that fits is cut. -/
theorem HeadFits.not_cut (hfits : HeadFits sectorSize len off) (hx : x < off + len) :
    ¬ Cut sectorSize off len x := by
  rintro ⟨hoff, hlen, hbehind⟩
  have hdiv := Nat.div_add_mod' off sectorSize
  obtain h | h | h := hfits
  · exact hoff h
  · omega
  · omega

/-- INTERNAL: the bytes that `SAL_read` gives are those of the disk, but for what is cut. -/
theorem sectorRead_eq (hpos : 0 < sectorSize) (d : Disk) (off len : ℕ) :
    sectorRead sectorSize d off len =
      Store.read (fun x => if Cut sectorSize off len x then 0 else d x) off len := by
  have hdiv := Nat.div_add_mod' off sectorSize
  have hmod := Nat.mod_lt off hpos
  unfold sectorRead
  split
  next hshort =>
    dsimp only
    refine List.ext_getElem (by simp) fun i hi _ => ?_
    rw [Store.length_read] at hi
    rw [Store.getElem_read, Store.getElem_read]
    by_cases hin : off % sectorSize + i < sectorSize
    · rw [Store.write_of_mem _ _ (Nat.zero_le _) (by simpa using hin), Store.getElem_read,
        if_neg fun hcut => by have := hcut.2.2; omega]
      congr 1
      omega
    · rw [Store.write_of_ge _ _ (by simpa using hin), if_pos ⟨hshort.1, hshort.2, by omega⟩]
  next hlong =>
    refine Store.read_congr fun x _ _ => ?_
    rw [if_neg fun hcut => hlong ⟨hcut.1, hcut.2.1⟩]

/-- INTERNAL: `SAL_write` stores the bytes, but for what is cut. -/
theorem sectorWrite_eq (hpos : 0 < sectorSize) (d : Disk) (off : ℕ) (bytes : List Byte) :
    sectorWrite sectorSize d off bytes =
      fun x => if Cut sectorSize off bytes.length x then d x else d.write off bytes x := by
  have hdiv := Nat.div_add_mod' off sectorSize
  have hmod := Nat.mod_lt off hpos
  unfold sectorWrite
  split
  next hshort =>
    dsimp only
    funext x
    generalize hsector : off / sectorSize * sectorSize = sector at *
    by_cases hcut : Cut sectorSize off bytes.length x
    · rw [if_pos hcut, Store.write_of_ge _ _ (by simpa [← hsector] using hcut.2.2)]
    · have hx : x < sector + sectorSize := by
        by_contra hx
        exact hcut ⟨hshort.1, hshort.2, by omega⟩
      rw [if_neg hcut]
      by_cases hlow : x < sector
      · rw [Store.write_of_lt _ _ hlow, Store.write_of_lt _ _ (by omega)]
      · rw [Store.write_of_mem _ _ (by omega) (by simp; omega), Store.getElem_read, Nat.zero_add]
        by_cases hin : off ≤ x ∧ x < off + bytes.length
        · rw [Store.write_of_mem _ _ (by omega) (by omega), Store.write_of_mem _ _ hin.1 (by omega)]
          congr 1
          omega
        · rw [Store.write_of_notMem _ _ (by omega), Store.write_of_notMem d _ (by omega),
            Store.write_of_mem _ _ (Nat.zero_le _) (by simp; omega), Store.getElem_read]
          congr 1
          omega
  next hlong =>
    funext x
    rw [if_neg fun hcut => hlong ⟨hcut.1, hcut.2.1⟩]

/-- **An access that fits is exact.** -/
theorem sectorRead_of_fits (hpos : 0 < sectorSize) (hfits : HeadFits sectorSize len off) (d : Disk) :
    sectorRead sectorSize d off len = d.read off len := by
  rw [sectorRead_eq hpos]
  exact Store.read_congr fun x _ hx => if_neg (hfits.not_cut hx)

theorem sectorWrite_of_fits (hpos : 0 < sectorSize) {bytes : List Byte}
    (hfits : HeadFits sectorSize bytes.length off) (d : Disk) :
    sectorWrite sectorSize d off bytes = d.write off bytes := by
  rw [sectorWrite_eq hpos]
  funext x
  by_cases hx : x < off + bytes.length
  · exact if_neg (hfits.not_cut hx)
  · rw [Store.write_of_ge _ _ (by omega), ite_self]

theorem length_sectorRead (sectorSize : ℕ) (d : Disk) (off len : ℕ) :
    (sectorRead sectorSize d off len).length = len := by
  unfold sectorRead
  split <;> simp

/-! ## The storage layer -/

/-- Behind a sector there is nothing in the staging buffer of reads. -/
def NothingStaged (sectorSize : ℕ) (s : Sal Disk) : Prop :=
  ∀ x, sectorSize ≤ x → s.readTemp x = 0

/-- INTERNAL: a sector that is read leaves it so. -/
theorem NothingStaged.readUnaligned {s : Sal Disk} (h : NothingStaged sectorSize s)
    (len sectorOff lba : ℕ) (mem : Store Byte) (buff : ℕ) :
    NothingStaged sectorSize
      (salReadUnaligned (memoryDevice sectorSize) len sectorOff lba mem buff s).2 := by
  unfold salReadUnaligned
  split
  next => exact h
  next =>
    intro x hx
    have hsector : 0 + ((memoryDevice sectorSize).readSector s.disk lba).length ≤ x := by
      simpa [memoryDevice] using hx
    exact (Store.write_of_ge _ _ hsector).trans (h x hx)

/-- INTERNAL: so does the end of `SAL_read`. -/
theorem NothingStaged.readRest {s s' : Sal Disk} {mem' : Store Byte} (h : NothingStaged sectorSize s)
    {len offset copiedLen buff : ℕ} {mem : Store Byte}
    (hrun : salReadRest (memoryDevice sectorSize) len offset mem buff copiedLen s =
      some (mem', s')) : NothingStaged sectorSize s' := by
  obtain ⟨⟨copied, mem₁⟩, -, hrest⟩ := Option.map_eq_some_iff.mp hrun
  dsimp only at hrest
  split at hrest
  next =>
    obtain rfl := congrArg Prod.snd hrest
    exact h.readUnaligned _ _ _ _ _
  next =>
    obtain rfl := congrArg Prod.snd hrest
    exact h

theorem NothingStaged.read {s s' : Sal Disk} {mem' : Store Byte} (h : NothingStaged sectorSize s)
    {len offset buff : ℕ} {mem : Store Byte}
    (hrun : salRead (memoryDevice sectorSize) len offset mem buff s = some (mem', s')) :
    NothingStaged sectorSize s' := by
  unfold salRead at hrun
  dsimp only at hrun
  split at hrun
  next => exact (h.readUnaligned _ _ _ _ _).readRest hrun
  next => exact h.readRest hrun

/-- **`SAL_read`** gives these bytes.
SRCLINE: sal.c:51-76 -/
theorem salRead_sectorRead {s : Sal Disk} (hpos : 0 < sectorSize) (hsize : sectorSize ≤ 4096)
    (hstaged : NothingStaged sectorSize s) (h32 : off + len < 2 ^ 32) (mem : Store Byte)
    (buff : ℕ) :
    ∃ s', salRead (memoryDevice sectorSize) len off mem buff s =
        some (mem.write buff (sectorRead sectorSize s.disk off len), s') ∧
      s'.disk = s.disk ∧ NothingStaged sectorSize s' := by
  by_cases hfits : HeadFits sectorSize len off
  · have hin : off + len ≤ (off + len) * sectorSize := Nat.le_mul_of_pos_right _ hpos
    obtain ⟨s', hrun, hdisk⟩ := salReadExact_of_headFits
      (memoryDevice_exact sectorSize (off + len)) hpos hsize hin h32 hfits mem buff s
    refine ⟨s', ?_, hdisk, hstaged.read hrun⟩
    rw [hrun, sectorRead_of_fits hpos hfits]
    rfl
  · unfold HeadFits at hfits
    push Not at hfits
    obtain ⟨hoff, hlen, -⟩ := hfits
    have hrun : salRead (memoryDevice sectorSize) len off mem buff s =
        some (salReadUnaligned (memoryDevice sectorSize) len (off % sectorSize) (off / sectorSize)
          mem buff s) := by
      unfold salRead
      dsimp only
      rw [show (memoryDevice sectorSize).sectorSize = sectorSize from rfl, if_pos hoff, headLen,
        if_pos hlen]
      exact salReadRest_done (show 1 ≤ (memoryDevice sectorSize).sectorSize from hpos) _ buff _
    refine ⟨_, hrun.trans (congrArg some (Prod.ext ?_ rfl)), ?_, hstaged.readUnaligned _ _ _ _ _⟩
    · unfold salReadUnaligned sectorRead
      rw [show (memoryDevice sectorSize).sectorSize = sectorSize from rfl,
        if_neg (Nat.not_lt.mpr hsize), if_pos ⟨hoff, hlen⟩]
      dsimp only
      congr 1
      -- the staging buffer is the sector and zeros behind it
      refine Store.read_congr fun x _ _ => ?_
      by_cases hx : x < sectorSize
      · rw [Store.write_of_mem _ _ (Nat.zero_le _) (by simpa [memoryDevice] using hx),
          Store.write_of_mem _ _ (Nat.zero_le _) (by simpa using hx)]
        rfl
      · rw [Store.write_of_ge _ _ (by simpa [memoryDevice] using hx),
          Store.write_of_ge _ _ (by simpa using hx), hstaged x (by omega)]
    · unfold salReadUnaligned
      split <;> rfl

/-- **`SAL_write`** stores these bytes.
SRCLINE: sal.c:78-107 -/
theorem salWrite_sectorWrite {s : Sal Disk} (hpos : 0 < sectorSize) (hsize : sectorSize ≤ 4096)
    (h32 : off + len < 2 ^ 32) (mem : Store Byte) (buff : ℕ) :
    ∃ s', salWrite (memoryDevice sectorSize) len off mem buff s = some s' ∧
      s'.disk = sectorWrite sectorSize s.disk off (mem.read buff len) := by
  by_cases hfits : HeadFits sectorSize len off
  · have hin : off + len ≤ (off + len) * sectorSize := Nat.le_mul_of_pos_right _ hpos
    obtain ⟨s', hrun, hdisk⟩ := salWriteExact_of_headFits
      (memoryDevice_exact sectorSize (off + len)) hpos hsize hin h32 hfits mem buff s
    refine ⟨s', hrun, ?_⟩
    rw [sectorWrite_of_fits hpos (by rwa [Store.length_read])]
    exact hdisk
  · unfold HeadFits at hfits
    push Not at hfits
    obtain ⟨hoff, hlen, -⟩ := hfits
    refine ⟨salWriteUnaligned (memoryDevice sectorSize) len (off % sectorSize) (off / sectorSize)
      mem buff s, ?_, ?_⟩
    · unfold salWrite
      dsimp only
      rw [show (memoryDevice sectorSize).sectorSize = sectorSize from rfl, if_pos hoff, headLen,
        if_pos hlen]
      exact salWriteRest_done (show 1 ≤ (memoryDevice sectorSize).sectorSize from hpos) mem buff _
    · unfold salWriteUnaligned sectorWrite
      rw [show (memoryDevice sectorSize).sectorSize = sectorSize from rfl,
        if_neg (Nat.not_lt.mpr hsize), if_pos ⟨hoff, by rwa [Store.length_read]⟩]
      dsimp only [memoryDevice]
      congr 1
      -- only the sector of the staging buffer is written
      refine Store.read_congr fun x _ hx => ?_
      by_cases hin : off % sectorSize ≤ x ∧ x < off % sectorSize + len
      · rw [Store.write_of_mem _ _ hin.1 (by simp; omega),
          Store.write_of_mem _ _ hin.1 (by simp; omega)]
      · have hout : x < off % sectorSize ∨ off % sectorSize + (mem.read buff len).length ≤ x := by
          rw [Store.length_read]
          omega
        rw [Store.write_of_notMem _ _ hout, Store.write_of_notMem _ _ hout,
          Store.write_of_mem _ _ (Nat.zero_le _) (by simp; omega),
          Store.write_of_mem _ _ (Nat.zero_le _) (by simp; omega)]

end

end LakeOS.Analysis
