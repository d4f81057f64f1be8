import LakeOS.Model.FatMount
import LakeOS.Analysis.FatOffsets

/-!
# The bounds of the root directory

`num_root_entries` is used when the volume is mounted, and not again: `FAT_absolute_offset`
takes `bytes_per_sector` for the number of entries, and one more.  The offset of an entry
wraps around, so the indices behind the last one come back to the first.
-/

set_option autoImplicit false

namespace LakeOS.Analysis

open LakeOS.Library LakeOS.Model

variable {ctx : FatContext} {junk : Uninit} {d d' : Disk} {n i : ℕ}

/-- Where the root directory starts on the disk. -/
def rootStart (ctx : FatContext) : ℕ :=
  (ctx.bootSector.reservedSectors + ctx.bootSector.numFat * ctx.bootSector.sectorsPerFat) *
    ctx.bootSector.bytesPerSector

/-- The answer to `FAT_dir_entry` that an index of the root directory should have: the entry,
or a failure with the entry of the caller as it was. -/
def RootEntry (ctx : FatContext) (junk : Uninit) (n : ℕ) (d : Disk) (i : ℕ) : Prop :=
  if i < n then
    fatDirEntry ctx junk 0 i d = some (0, some (d.read (rootStart ctx + 32 * i) 32))
  else ∃ fail, fail ≠ 0 ∧ fatDirEntry ctx junk 0 i d = some (fail, none)

/-- The address of an entry of the root directory, `0` on failure. -/
def rootAddress (ctx : FatContext) (i : ℕ) : ℕ :=
  if mul32 ctx.bootSector.bytesPerSector 32 < mul32 i sizeofShortDirEntry then 0
  else add32 (mul32 (rootDirSector ctx) ctx.bootSector.bytesPerSector) (mul32 i sizeofShortDirEntry)

/-- INTERNAL: the root directory is the cluster `0`.
SRCLINE: fat.c:422-431, fat.c:460-471 -/
theorem fatDirEntry_root (ctx : FatContext) (junk : Uninit) (i : ℕ) (d : Disk) :
    fatDirEntry ctx junk 0 i d =
      if rootAddress ctx i = 0 then some (junk.lastFreeCluster, none)
      else some (0, some (d.read (rootAddress ctx i) sizeofShortDirEntry)) := by
  unfold fatDirEntry fatAbsoluteOffset rootAddress
  dsimp only
  rw [if_pos (by decide)]
  by_cases hpast : mul32 ctx.bootSector.bytesPerSector 32 < mul32 i sizeofShortDirEntry
  · simp [hpast]
  · rw [if_neg hpast, if_neg hpast]
    simp only [Option.map_some]
    split <;> simp_all

/-- INTERNAL: an entry that is read. -/
theorem rootEntry_of_ne (haddress : rootAddress ctx i ≠ 0) :
    RootEntry ctx junk n d i → i < n := by
  intro hentry
  by_contra hge
  rw [RootEntry, if_neg hge, fatDirEntry_root, if_neg haddress] at hentry
  obtain ⟨fail, -, heq⟩ := hentry
  simp at heq

/-- INTERNAL: an entry that is not read. -/
theorem rootEntry_of_eq (haddress : rootAddress ctx i = 0) :
    RootEntry ctx junk n d i ↔ n ≤ i ∧ junk.lastFreeCluster ≠ 0 := by
  rw [RootEntry, fatDirEntry_root, if_pos haddress]
  by_cases hlt : i < n
  · simp [hlt]
  · simp [hlt]
    omega

/-- INTERNAL: the offsets of entries wrap around. -/
theorem rootAddress_wrap (ctx : FatContext) (i : ℕ) :
    rootAddress ctx (i + 2 ^ 27) = rootAddress ctx i := by
  have hwrap : mul32 (i + 2 ^ 27) sizeofShortDirEntry = mul32 i sizeofShortDirEntry := by
    unfold mul32 sizeofShortDirEntry
    omega
  rw [rootAddress, rootAddress, hwrap]

/-- INTERNAL: **the entries that are read** are those up to `bytes_per_sector`. -/
theorem rootAddress_eq (htype : ctx.type = .fat12 ∨ ctx.type = .fat16)
    (hfit : rootStart ctx + 32 * ctx.bootSector.bytesPerSector < 2 ^ 32)
    (hi : i < 2 ^ 27) :
    rootAddress ctx i =
      if ctx.bootSector.bytesPerSector < i then 0 else rootStart ctx + 32 * i := by
  have hlimit : mul32 ctx.bootSector.bytesPerSector 32 = ctx.bootSector.bytesPerSector * 32 :=
    mul32_eq (by omega)
  have hoffset : mul32 i sizeofShortDirEntry = i * 32 :=
    mul32_eq (by unfold sizeofShortDirEntry; omega)
  have hstart : mul32 (rootDirSector ctx) ctx.bootSector.bytesPerSector = rootStart ctx := by
    have hsector : rootDirSector ctx = add32 ctx.bootSector.reservedSectors
        (mul32 ctx.bootSector.numFat ctx.bootSector.sectorsPerFat) := by
      unfold rootDirSector
      rcases htype with htype | htype
      · rw [htype]
      · rw [htype]
    rw [hsector]
    unfold mul32 add32
    rw [Nat.add_mod_mod, Nat.mod_mul_mod]
    apply Nat.mod_eq_of_lt
    unfold rootStart at hfit
    omega
  rw [rootAddress, hlimit, hoffset, hstart]
  by_cases hlt : ctx.bootSector.bytesPerSector < i
  · rw [if_pos (by omega), if_pos hlt]
  · rw [if_neg (by omega), if_neg hlt, Nat.mul_comm 32 i]
    apply add32_eq
    omega

/-- INTERNAL: with sectors of some bytes not all entries fail. -/
theorem rootAddress_ne_zero (hbytes : 0 < ctx.bootSector.bytesPerSector)
    (hsmall : ctx.bootSector.bytesPerSector < 2 ^ 16) :
    rootAddress ctx 0 ≠ 0 ∨ rootAddress ctx 1 ≠ 0 := by
  have hlimit : mul32 ctx.bootSector.bytesPerSector 32 = ctx.bootSector.bytesPerSector * 32 :=
    mul32_eq (by omega)
  have hone : mul32 1 sizeofShortDirEntry = 32 := rfl
  have hzero : mul32 0 sizeofShortDirEntry = 0 := rfl
  unfold rootAddress
  rw [hlimit, hone, hzero, if_neg (by omega), if_neg (by omega)]
  unfold add32
  omega

/-- **The root directory is never bounded** by `num_root_entries`: an index that is too large
reads an entry again.  Of the indices whose offsets do not wrap around, those that are read
are right only if there is one entry more than bytes in a sector, and if what
`last_free_cluster` happens to hold is a failure.
SRCLINE: fat.c:421-431, fat.c:460-471 -/
theorem root_not_bounded {allocated : ℕ} (hmount : fatMount allocated d = some ctx)
    (htype : ctx.type = .fat12 ∨ ctx.type = .fat16) (hbytes : 0 < ctx.bootSector.bytesPerSector)
    (junk : Uninit) (d' : Disk) :
    ¬ (∀ i < 2 ^ 32, RootEntry ctx junk (numRootEntries d) d' i) ∧
      (1 ≤ ctx.bootSector.reservedSectors →
        rootStart ctx + 32 * ctx.bootSector.bytesPerSector < 2 ^ 32 →
          ((∀ i < 2 ^ 27, RootEntry ctx junk (numRootEntries d) d' i) ↔
            numRootEntries d = ctx.bootSector.bytesPerSector + 1 ∧ junk.lastFreeCluster ≠ 0)) := by
  have hn : numRootEntries d < 2 ^ 16 := Store.load_lt d 2 17
  have hsmall : ctx.bootSector.bytesPerSector < 2 ^ 16 := by
    unfold fatMount at hmount
    split at hmount
    next => cases hmount
    next =>
      cases hmount
      exact Store.load_lt d 2 11
  constructor
  · intro hall
    -- an index that reads an entry reads it `2 ^ 27` indices later as well
    have hfail : ∀ i ≤ 1, rootAddress ctx i = 0 := by
      intro i hi
      by_contra haddress
      rw [← rootAddress_wrap] at haddress
      have hlt := rootEntry_of_ne haddress (hall (i + 2 ^ 27) (by omega))
      omega
    rcases rootAddress_ne_zero hbytes hsmall with hne | hne
    · exact hne (hfail 0 (by decide))
    · exact hne (hfail 1 (by decide))
  · intro hreserved hfit
    have hstart : 0 < rootStart ctx := Nat.mul_pos (by omega) hbytes
    constructor
    · intro hall
      have hlast := hall (ctx.bootSector.bytesPerSector + 1) (by omega)
      have hzero : rootAddress ctx (ctx.bootSector.bytesPerSector + 1) = 0 := by
        rw [rootAddress_eq htype hfit (by omega), if_pos (by omega)]
      rw [rootEntry_of_eq hzero] at hlast
      refine ⟨?_, hlast.2⟩
      have hlt := rootEntry_of_ne (i := ctx.bootSector.bytesPerSector)
        (by rw [rootAddress_eq htype hfit (by omega), if_neg (by omega)]; omega)
        (hall _ (by omega))
      omega
    · rintro ⟨hn, hjunk⟩ i hi
      have haddress := rootAddress_eq htype hfit hi
      by_cases hlt : ctx.bootSector.bytesPerSector < i
      · rw [if_pos hlt] at haddress
        rw [rootEntry_of_eq haddress]
        exact ⟨by omega, hjunk⟩
      · rw [if_neg hlt] at haddress
        rw [RootEntry, if_pos (by omega), fatDirEntry_root, haddress, if_neg (by omega)]

/-- The boot sector of a floppy disk. -/
def floppyDisk : Disk := fun x =>
  match x with
  | 12 => 0x02
  | 13 => 0x01
  | 14 => 0x01
  | 16 => 0x02
  | 17 => 0xE0
  | 19 => 0x40
  | 20 => 0x0B
  | 22 => 0x09
  | 0x1FE => 0x55
  | 0x1FF => 0xAA
  | _ => 0

theorem fatMount_floppyDisk : fatMount 0 floppyDisk = some floppy := by
  unfold fatMount
  rw [if_neg (by decide)]
  simp only [Option.some.injEq, floppy, FatContext.mk.injEq, bootSectorAt, BootSector.mk.injEq]
  decide

/-- Its 224 entries are not the ones that are read. -/
theorem root_not_bounded_floppy : ¬ (∀ i < 2 ^ 32, RootEntry floppy ⟨0, []⟩ 224 floppyDisk i) ∧
    (1 ≤ floppy.bootSector.reservedSectors →
      rootStart floppy + 32 * floppy.bootSector.bytesPerSector < 2 ^ 32 →
        ((∀ i < 2 ^ 27, RootEntry floppy ⟨0, []⟩ 224 floppyDisk i) ↔
          224 = floppy.bootSector.bytesPerSector + 1 ∧ (0 : ℕ) ≠ 0)) :=
  root_not_bounded (d := floppyDisk) fatMount_floppyDisk (.inl rfl) (by decide) ⟨0, []⟩ floppyDisk

/-- The entry behind them is the beginning of the data region. -/
theorem floppy_reads_data :
    fatDirEntry floppy ⟨0, []⟩ 0 224 floppyDisk =
      some (0, some (floppyDisk.read floppy.dataRegionStart 32)) ∧
        ¬ RootEntry floppy ⟨0, []⟩ (numRootEntries floppyDisk) floppyDisk 224 := by
  have haddress : rootAddress floppy 224 = floppy.dataRegionStart := by decide
  constructor
  · rw [fatDirEntry_root, haddress]
    simp [floppy]
  · intro hentry
    have hlt := rootEntry_of_ne (by decide) hentry
    exact absurd hlt (by decide)

end LakeOS.Analysis
