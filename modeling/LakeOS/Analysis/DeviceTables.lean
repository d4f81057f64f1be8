import LakeOS.Analysis.DeviceAccess
import LakeOS.Analysis.EntryNibbles
import LakeOS.Analysis.FatContents

/-!
# Tables on devices

An entry that lies inside one sector is read and set as it is.  One that runs over the end of
a sector is read without its last digits, and these are not set.
-/

set_option autoImplicit false

namespace LakeOS.Analysis

open LakeOS.Library LakeOS.Model

variable {v : FatDevice} {d : Disk} {k c off : ℕ}

/-- The bytes of an entry that `SAL_read` and `SAL_write` move at once. -/
def entryAccess (ctx : FatContext) : ℕ := if ctx.type = .fat32 then 4 else 2

/-- No copy of the entry runs over the end of a sector. -/
def EntryFits (v : FatDevice) (c : ℕ) : Prop :=
  ∀ k < v.bootSector.numFat,
    HeadFits v.sectorSize (entryAccess v.toFatContext) (fatEntryOffset v.toFatContext k c)

instance (sectorSize len offset : ℕ) : Decidable (HeadFits sectorSize len offset) :=
  inferInstanceAs (Decidable (_ ∨ _ ∨ _))

instance (v : FatDevice) (c : ℕ) : Decidable (EntryFits v c) :=
  inferInstanceAs (Decidable (∀ k < _, _))

/-! ## Words -/

/-- INTERNAL: a word of which the bytes from an address on are zeros. -/
theorem load_mask (d : Disk) (b k off : ℕ) :
    Store.load (fun x => if b ≤ x then 0 else d x) k off = d.load k off % 256 ^ (b - off) := by
  induction k generalizing off with
  | zero => simp [Store.load, leValue]
  | succ k ih =>
      have hcons : ∀ m : Disk, m.load (k + 1) off = (m off).toNat + 256 * m.load k (off + 1) := by
        intro m
        rw [Store.load, Nat.add_comm, Store.read_add]
        rfl
      rw [hcons, hcons, ih]
      by_cases hb : b ≤ off
      · rw [if_pos hb, Nat.sub_eq_zero_of_le hb, Nat.sub_eq_zero_of_le (by omega)]
        simp [Nat.mod_one]
      · have hlt := (d off).isLt
        obtain ⟨m, hm⟩ : ∃ m, b - off = m + 1 := ⟨b - off - 1, by omega⟩
        have hlow : ((d off).toNat + 256 * d.load k (off + 1)) % 256 = (d off).toNat := by omega
        have hhigh : ((d off).toNat + 256 * d.load k (off + 1)) / 256 = d.load k (off + 1) := by
          omega
        rw [if_neg hb, hm, show b - (off + 1) = m by omega, pow_succ', Nat.mod_mul, hlow, hhigh]

/-- INTERNAL: a word is read without its last bytes. -/
theorem FatDevice.load_eq_mod (v : FatDevice) (d : Disk) (k off : ℕ) :
    ∃ j, v.load d k off = d.load k off % 256 ^ j := by
  have hread := sectorRead_eq v.sectorSize_pos d off k
  by_cases hshort : off % v.sectorSize ≠ 0 ∧ k < v.sectorSize
  · refine ⟨off / v.sectorSize * v.sectorSize + v.sectorSize - off, ?_⟩
    rw [← load_mask, FatDevice.load, FatDevice.read, hread, Store.load]
    refine congrArg leValue (Store.read_congr fun x _ _ => ?_)
    exact if_congr ⟨fun hcut => hcut.2.2, fun hle => ⟨hshort.1, hshort.2, hle⟩⟩ rfl rfl
  · refine ⟨k, ?_⟩
    rw [Nat.mod_eq_of_lt (Store.load_lt d k off), FatDevice.load, FatDevice.read, sectorRead,
      if_neg hshort, Store.load]

theorem FatDevice.load_of_fits (hfits : HeadFits v.sectorSize k off)
    (d : Disk) : v.load d k off = d.load k off := by
  rw [FatDevice.load, FatDevice.read, sectorRead_of_fits v.sectorSize_pos hfits, Store.load]

theorem FatDevice.save_of_fits (hfits : HeadFits v.sectorSize k off)
    (d : Disk) (word : ℕ) : v.save d k off word = d.save k off word := by
  rw [FatDevice.save, FatDevice.write,
    sectorWrite_of_fits v.sectorSize_pos (by rwa [length_leBytes]), Store.save]

/-- INTERNAL: the first byte of a word is there. -/
theorem FatDevice.load_low (v : FatDevice) (d : Disk) (k off : ℕ) :
    v.load d (k + 1) off % 256 = (d off).toNat := by
  have hdiv := Nat.div_add_mod' off v.sectorSize
  have hmod := Nat.mod_lt off v.sectorSize_pos
  have hlt := (d off).isLt
  rw [FatDevice.load, FatDevice.read, sectorRead_eq v.sectorSize_pos, Nat.add_comm, Store.read_add]
  have hbyte : Store.read (fun x => if Cut v.sectorSize off (1 + k) x then 0 else d x) off 1 =
      [d off] := by
    simp [Store.read, Cut]
    omega
  rw [hbyte, List.singleton_append, leValue]
  omega

/-! ## Entries -/

/-- **An entry inside a sector** is read as it is.
SRCLINE: fat.c:128-163 -/
theorem FatDevice.fatGetEntry_of_fits (hfits : HeadFits v.sectorSize (entryAccess v.toFatContext)
      (fatEntryOffset v.toFatContext k c)) (d : Disk) :
    v.fatGetEntry k c d = fatGetEntry v.toFatContext k c d := by
  unfold FatDevice.fatGetEntry Model.fatGetEntry
  unfold entryAccess at hfits
  dsimp only
  cases htype : v.type with
  | fatNull => rfl
  | fat12 =>
      have hfits : HeadFits v.sectorSize 2 (fatEntryOffset v.toFatContext k c) := by
        simpa [htype] using hfits
      dsimp only
      rw [FatDevice.load_of_fits hfits]
  | fat16 => exact FatDevice.load_of_fits (by simpa [htype] using hfits) d
  | fat32 =>
      have hfits : HeadFits v.sectorSize 4 (fatEntryOffset v.toFatContext k c) := by
        simpa [htype] using hfits
      dsimp only
      rw [FatDevice.load_of_fits hfits]

/-- INTERNAL: and set as it is.
SRCLINE: fat.c:70-117 -/
theorem FatDevice.fatSetEntry_of_fits (hfits : HeadFits v.sectorSize (entryAccess v.toFatContext)
      (fatEntryOffset v.toFatContext k c)) (data : ℕ) (d : Disk) :
    v.fatSetEntry k c data d = fatSetEntry v.toFatContext k c data d := by
  unfold FatDevice.fatSetEntry Model.fatSetEntry
  unfold entryAccess at hfits
  dsimp only
  cases htype : v.type with
  | fatNull => rfl
  | fat12 =>
      have hfits : HeadFits v.sectorSize 2 (fatEntryOffset v.toFatContext k c) := by
        simpa [htype] using hfits
      dsimp only
      rw [FatDevice.load_of_fits hfits, FatDevice.save_of_fits hfits]
  | fat16 =>
      have hfits : HeadFits v.sectorSize 2 (fatEntryOffset v.toFatContext k c) := by
        simpa [htype] using hfits
      dsimp only
      rw [FatDevice.save_of_fits hfits]
  | fat32 =>
      have hfits : HeadFits v.sectorSize 4 (fatEntryOffset v.toFatContext k c) := by
        simpa [htype] using hfits
      dsimp only
      rw [FatDevice.load_of_fits hfits, FatDevice.save_of_fits hfits]

theorem FatDevice.fatSetEntries_of_fits (hfits : EntryFits v c)
    (data : ℕ) (d : Disk) : v.fatSetEntries c data d = fatSetEntries v.toFatContext c data d := by
  unfold FatDevice.fatSetEntries Model.fatSetEntries
  refine List.foldl_ext _ _ d fun d k hk => ?_
  rw [FatDevice.fatSetEntry_of_fits (hfits k (List.mem_range.mp hk))]

/-- INTERNAL: a free entry is read as free, also without its last digits. -/
theorem FatDevice.fatGetEntry_zero (h : fatGetEntry v.toFatContext k c d = 0) :
    v.fatGetEntry k c d = 0 := by
  unfold Model.fatGetEntry at h
  unfold FatDevice.fatGetEntry
  dsimp only at h ⊢
  obtain ⟨j₂, hj₂⟩ := FatDevice.load_eq_mod v d 2 (fatEntryOffset v.toFatContext k c)
  obtain ⟨j₄, hj₄⟩ := FatDevice.load_eq_mod v d 4 (fatEntryOffset v.toFatContext k c)
  have hmask : ∀ x m j : ℕ, x &&& m = 0 → x % 256 ^ j &&& m = 0 := by
    intro x m j hx
    rw [show 256 ^ j = 2 ^ (8 * j) by rw [Nat.pow_mul], ← Nat.and_two_pow_sub_one_eq_mod,
      Nat.and_assoc,
      Nat.and_comm _ m, ← Nat.and_assoc, hx, Nat.zero_and]
  cases htype : v.type with
  | fatNull => rfl
  | fat12 =>
      simp only [htype] at h ⊢
      rw [hj₂]
      split at h
      next hodd =>
        rw [if_pos hodd, Nat.shiftRight_eq_div_pow] at *
        have hle := Nat.div_le_div_right (c := 2 ^ 4)
          (Nat.mod_le (d.load 2 (fatEntryOffset v.toFatContext k c)) (256 ^ j₂))
        omega
      next heven =>
        rw [if_neg heven]
        exact hmask _ _ _ h
  | fat16 =>
      simp only [htype] at h ⊢
      rw [hj₂, h, Nat.zero_mod]
  | fat32 =>
      simp only [htype] at h ⊢
      rw [hj₄]
      exact hmask _ _ _ h

/-- INTERNAL: an entry that is read as free has a first digit `0`. -/
theorem FatDevice.nibble_of_get_zero (htype : v.type = .fat12 ∨ v.type = .fat16)
    (h : v.fatGetEntry k c d = 0) : d.nibble (nibbleStart v.toFatContext k c) = 0 := by
  have hlow : v.load d 2 (fatEntryOffset v.toFatContext k c) % 256 =
      (d (fatEntryOffset v.toFatContext k c)).toNat := FatDevice.load_low v d 1 _
  unfold FatDevice.fatGetEntry at h
  unfold nibbleStart Store.nibble hexDigit
  dsimp only at h
  generalize fatEntryOffset v.toFatContext k c = off at *
  rcases htype with htype | htype
  · simp only [htype] at h ⊢
    rcases Nat.mod_two_eq_zero_or_one c with hpar | hpar
    · rw [if_neg (by omega)] at h
      have hdigits : v.load d 2 off % 2 ^ 12 = 0 := by
        rw [← Nat.and_two_pow_sub_one_eq_mod]
        exact h
      rw [hpar, show (2 * off + 0) / 2 = off by omega, show (2 * off + 0) % 2 = 0 by omega,
        Nat.pow_zero, Nat.div_one]
      omega
    · rw [if_pos (by omega), Nat.shiftRight_eq_div_pow] at h
      rw [hpar, show (2 * off + 1) / 2 = off by omega, show (2 * off + 1) % 2 = 1 by omega,
        Nat.pow_one]
      omega
  · simp only [htype] at h ⊢
    rw [show 2 * off / 2 = off by omega, show 2 * off % 2 = 0 by omega, Nat.pow_zero,
      Nat.div_one]
    omega

/-! ## What is cut of an entry -/

/-- The disk as one copy of an entry is read from it. -/
def cutDisk (v : FatDevice) (k c : ℕ) (d : Disk) : Disk := fun x =>
  if Cut v.sectorSize (fatEntryOffset v.toFatContext k c) (entryAccess v.toFatContext) x then 0
  else d x

/-- INTERNAL: a word is read from such a disk. -/
theorem FatDevice.load_eq (v : FatDevice) (d : Disk) (k off : ℕ) : v.load d k off =
    Store.load (fun x => if Cut v.sectorSize off k x then 0 else d x) k off := by
  rw [FatDevice.load, FatDevice.read, sectorRead_eq v.sectorSize_pos, Store.load]

/-- INTERNAL: and is saved to one. -/
theorem FatDevice.save_eq (v : FatDevice) (d : Disk) (k off word : ℕ) : v.save d k off word =
    fun x => if Cut v.sectorSize off k x then d x else
      Store.save (fun x => if Cut v.sectorSize off k x then 0 else d x) k off word x := by
  rw [FatDevice.save, FatDevice.write, sectorWrite_eq v.sectorSize_pos]
  funext x
  rw [length_leBytes]
  by_cases hcut : Cut v.sectorSize off k x
  · rw [if_pos hcut, if_pos hcut]
  · rw [if_neg hcut, if_neg hcut, Store.save]
    by_cases hin : off ≤ x ∧ x < off + (leBytes k word).length
    · rw [Store.write_of_mem _ _ hin.1 (by omega), Store.write_of_mem _ _ hin.1 (by omega)]
    · rw [Store.write_of_notMem _ _ (by omega), Store.write_of_notMem _ _ (by omega), if_neg hcut]

/-- **An entry is read** without what is cut of it.
SRCLINE: fat.c:128-163 -/
theorem FatDevice.fatGetEntry_eq (v : FatDevice) (k c : ℕ) (d : Disk) :
    v.fatGetEntry k c d = fatGetEntry v.toFatContext k c (cutDisk v k c d) := by
  unfold FatDevice.fatGetEntry Model.fatGetEntry cutDisk entryAccess
  cases htype : v.type with
  | fatNull => rfl
  | fat12 => simp [FatDevice.load_eq]
  | fat16 => simp [FatDevice.load_eq]
  | fat32 => simp [FatDevice.load_eq]

/-- **And set**, but for that.
SRCLINE: fat.c:70-117 -/
theorem FatDevice.fatSetEntry_eq (v : FatDevice) (k c data : ℕ) (d : Disk) :
    (v.fatSetEntry k c data d).2 = fun x =>
      if Cut v.sectorSize (fatEntryOffset v.toFatContext k c) (entryAccess v.toFatContext) x
      then d x else (fatSetEntry v.toFatContext k c data (cutDisk v k c d)).2 x := by
  unfold FatDevice.fatSetEntry Model.fatSetEntry cutDisk entryAccess
  cases htype : v.type with
  | fatNull =>
      funext x
      dsimp only
      generalize (if FatType.fatNull = FatType.fat32 then 4 else 2) = len
      by_cases hcut : Cut v.sectorSize (fatEntryOffset v.toFatContext k c) len x
      · rw [if_pos hcut]
      · rw [if_neg hcut, if_neg hcut]
  | fat12 => simp [FatDevice.load_eq, FatDevice.save_eq]
  | fat16 => simp [FatDevice.save_eq]
  | fat32 => simp [FatDevice.load_eq, FatDevice.save_eq]

/-- The digit of the copy of an entry is moved. -/
def MovedNibble (v : FatDevice) (k c n : ℕ) : Prop :=
  CopyNibble v.toFatContext k c n ∧
    ¬ Cut v.sectorSize (fatEntryOffset v.toFatContext k c) (entryAccess v.toFatContext) (n / 2)

instance (v : FatDevice) (k c n : ℕ) : Decidable (MovedNibble v k c n) :=
  inferInstanceAs (Decidable (_ ∧ _))

theorem nibble_cutDisk (v : FatDevice) (k c n : ℕ) (d : Disk) :
    (cutDisk v k c d).nibble n = if Cut v.sectorSize (fatEntryOffset v.toFatContext k c)
      (entryAccess v.toFatContext) (n / 2) then 0 else d.nibble n := by
  split
  next hcut =>
    rw [Store.nibble, cutDisk, if_pos hcut]
    exact hexDigit_zero _
  next hcut => exact Store.nibble_congr (if_neg hcut)

theorem FatDevice.nibble_setEntry (htype : v.type = .fat12 ∨ v.type = .fat16) (k c data : ℕ)
    (d : Disk) (n : ℕ) : (v.fatSetEntry k c data d).2.nibble n =
      if MovedNibble v k c n then hexDigit data (n - nibbleStart v.toFatContext k c)
      else d.nibble n := by
  rw [FatDevice.fatSetEntry_eq]
  by_cases hcut : Cut v.sectorSize (fatEntryOffset v.toFatContext k c)
      (entryAccess v.toFatContext) (n / 2)
  · rw [if_neg fun hmoved => hmoved.2 hcut]
    exact Store.nibble_congr (if_pos hcut)
  · have hexact := Analysis.nibble_setEntry htype k c data (cutDisk v k c d) n
    rw [nibble_cutDisk, if_neg hcut] at hexact
    have hmoved : MovedNibble v k c n ↔ CopyNibble v.toFatContext k c n := and_iff_left hcut
    rw [if_congr hmoved rfl rfl]
    refine Eq.trans (Store.nibble_congr ?_) hexact
    exact if_neg hcut

/-- **All copies of an entry are cleared**, but for what is cut.
SRCLINE: fat.c:119-122 -/
theorem FatDevice.nibble_setEntries_zero (htype : v.type = .fat12 ∨ v.type = .fat16) (c : ℕ)
    (d : Disk) (n : ℕ) : (v.fatSetEntries c 0x0 d).nibble n =
      if ∃ k < v.bootSector.numFat, MovedNibble v k c n then 0 else d.nibble n := by
  have hstep : ∀ (d : Disk) (k : ℕ), (v.fatSetEntry k c 0x0 d).2.nibble n =
      if MovedNibble v k c n then 0 else d.nibble n := fun d k => by
    rw [FatDevice.nibble_setEntry htype, hexDigit_zero]
  rw [FatDevice.fatSetEntries, Store.nibble_foldl hstep]
  simp [List.mem_range]

/-- `FindFreeCluster` gives the first number whose entry is read as `0`, or `0`.
SRCLINE: fat.c:334-342 -/
theorem FatDevice.findFreeCluster_cases (v : FatDevice) (d : Disk) :
    v.findFreeCluster d = 0 ∧
        (∀ i, 2 ≤ i → i < scanLimit v.toFatContext → v.fatGetEntry 0 i d ≠ 0) ∨
      2 ≤ v.findFreeCluster d ∧ v.findFreeCluster d < scanLimit v.toFatContext ∧
        v.fatGetEntry 0 (v.findFreeCluster d) d = 0 ∧
        ∀ j, 2 ≤ j → j < v.findFreeCluster d → v.fatGetEntry 0 j d ≠ 0 :=
  firstZero_cases (fun i => v.fatGetEntry 0 i d) (scanLimit v.toFatContext)

end LakeOS.Analysis
