import LakeOS.Analysis.ChainGrowing
import LakeOS.Analysis.DeviceReads
import LakeOS.Analysis.VolumeLayout

/-!
# The range of the search for a free cluster

`FindFreeCluster` stops at `num_sectors` times the sectors of a cluster.  The volume has about
`num_sectors` divided by them, or `long_sectors` if there are more than 16 bits count.  Behind the
last cluster the words that follow are read as entries; on a volume with `long_sectors` none is
read at all.  A FAT12 entry that runs over the end of a sector is read without its last digits, so
that one in use can look free.
-/

set_option autoImplicit false

namespace LakeOS.Analysis

open LakeOS.Library LakeOS.Model

/-- The lowest data cluster with a free entry is found, and `0` if there is none. -/
structure FindsLowest (d₀ : Disk) (v : FatDevice) (d : Disk) : Prop where
  lowest : ∀ c, FreeCluster v.toFatContext (clusterCount d₀ v.toFatContext) d c →
    FreeCluster v.toFatContext (clusterCount d₀ v.toFatContext) d (v.findFreeCluster d) ∧
      v.findFreeCluster d ≤ c
  none : (∀ c, ¬ FreeCluster v.toFatContext (clusterCount d₀ v.toFatContext) d c) →
    v.findFreeCluster d = 0

/-- A free data cluster lies within the scan, and no entry in use below it is read as `0`; or no
data cluster is free, and nothing within the scan is read as `0`. -/
def ScanSuffices (d₀ : Disk) (v : FatDevice) (d : Disk) : Prop :=
  (∃ c, FreeCluster v.toFatContext (clusterCount d₀ v.toFatContext) d c ∧
      c < scanLimit v.toFatContext ∧
      ∀ e, 2 ≤ e → e < c → v.fatGetEntry 0 e d = 0 → fatGetEntry v.toFatContext 0 e d = 0) ∨
    (∀ c, ¬ FreeCluster v.toFatContext (clusterCount d₀ v.toFatContext) d c) ∧
      ∀ e, 2 ≤ e → e < scanLimit v.toFatContext → v.fatGetEntry 0 e d ≠ 0

section

variable {v : FatDevice} {d₀ d : Disk} {c : ℕ}

/-- INTERNAL: a free cluster within the scan is reached before anything behind the clusters. -/
theorem findsLowest_of_free
    (hfree : FreeCluster v.toFatContext (clusterCount d₀ v.toFatContext) d c)
    (hlt : c < scanLimit v.toFatContext)
    (hright : ∀ e, 2 ≤ e → e < c → v.fatGetEntry 0 e d = 0 →
      fatGetEntry v.toFatContext 0 e d = 0) : FindsLowest d₀ v d where
  lowest e he := by
    rcases FatDevice.findFreeCluster_cases v d with ⟨-, hnone⟩ | ⟨hlow, -, hentry, hbefore⟩
    · exact absurd (FatDevice.fatGetEntry_zero hfree.2.2) (hnone c hfree.1 hlt)
    · have hle : v.findFreeCluster d ≤ c := by
        by_contra hgt
        exact hbefore c hfree.1 (by omega) (FatDevice.fatGetEntry_zero hfree.2.2)
      have hzero : fatGetEntry v.toFatContext 0 (v.findFreeCluster d) d = 0 := by
        rcases hle.lt_or_eq with hltc | heq
        · exact hright _ hlow hltc hentry
        · rw [heq]
          exact hfree.2.2
      refine ⟨⟨hlow, hle.trans_lt hfree.2.1, hzero⟩, ?_⟩
      by_contra hgt
      exact hbefore e he.1 (by omega) (FatDevice.fatGetEntry_zero he.2.2)
  none hnone := absurd hfree (hnone c)

/-- INTERNAL: with nothing that looks free `0` is returned. -/
theorem findsLowest_of_full
    (hfull : ∀ c, ¬ FreeCluster v.toFatContext (clusterCount d₀ v.toFatContext) d c)
    (hscan : ∀ e, 2 ≤ e → e < scanLimit v.toFatContext → v.fatGetEntry 0 e d ≠ 0) :
    FindsLowest d₀ v d where
  lowest e he := absurd he (hfull e)
  none _ := by
    rcases FatDevice.findFreeCluster_cases v d with ⟨hzero, -⟩ | ⟨hlow, hlt, hentry, -⟩
    · exact hzero
    · exact absurd hentry (hscan _ hlow hlt)

end

/-- **The search for a free cluster** finds the lowest one, and tells a full volume, exactly if the
scan reaches a free cluster before an entry that only looks free, or there is no free cluster and
none that looks free in the scan.
SRCLINE: fat.c:334-342, fat.c:14-45, fat.c:129-164 -/
theorem findsLowest_iff (d₀ : Disk) (v : FatDevice) (d : Disk) :
    FindsLowest d₀ v d ↔ ScanSuffices d₀ v d := by
  constructor
  · intro hfinds
    by_cases hany : ∃ c, FreeCluster v.toFatContext (clusterCount d₀ v.toFatContext) d c
    · obtain ⟨c, hc⟩ := hany
      obtain ⟨hfound, -⟩ := hfinds.lowest c hc
      rcases FatDevice.findFreeCluster_cases v d with ⟨hzero, -⟩ | ⟨-, hscan, -, hbefore⟩
      · have hlow := hfound.1
        omega
      · exact .inl ⟨v.findFreeCluster d, hfound, hscan, fun e hlow hlt hread =>
          absurd hread (hbefore e hlow hlt)⟩
    · push Not at hany
      have hzero := hfinds.none hany
      refine .inr ⟨hany, fun e hlow hlt hread => ?_⟩
      rcases FatDevice.findFreeCluster_cases v d with ⟨-, hnone⟩ | ⟨hfirst, -⟩
      · exact hnone e hlow hlt hread
      · omega
  · rintro (⟨c, hfree, hlt, hright⟩ | ⟨hfull, hscan⟩)
    · exact findsLowest_of_free hfree hlt hright
    · exact findsLowest_of_full hfull hscan

/-- A volume whose sectors are counted in `long_sectors` is full for every search.
SRCLINE: fat.c:335 -/
theorem findFreeCluster_long {v : FatDevice} (hlong : v.bootSector.numSectors = 0) (d : Disk) :
    v.findFreeCluster d = 0 := by
  have hlimit : scanLimit v.toFatContext = 0 := by
    rw [scanLimit, hlong]
    simp [mul32]
  rcases FatDevice.findFreeCluster_cases v d with ⟨hzero, -⟩ | ⟨-, hscan, -⟩
  · exact hzero
  · omega

/-- The boot sector of a volume of 70000 sectors, with clusters of four. -/
def longDisk : Disk := fun x =>
  match x with
  | 12 => 0x02
  | 13 => 0x04
  | 14 => 0x01
  | 16 => 0x02
  | 18 => 0x02
  | 22 => 0x45
  | 32 => 0x70
  | 33 => 0x11
  | 34 => 0x01
  | 0x1FE => 0x55
  | 0x1FF => 0xAA
  | _ => 0

/-- What it is mounted as. -/
def longVolume : FatContext where
  bootSector := ⟨512, 4, 1, 2, 0, 69, 70000⟩
  sectorsPerFat32 := 0
  rootClusterNum := 0
  type := .fat16
  dataRegionStart := 87552
  bytesPClus := 2048

theorem fatMount_longDisk : fatMount 0 longDisk = some longVolume := by
  unfold fatMount
  rw [if_neg (by decide)]
  simp only [Option.some.injEq, longVolume, FatContext.mk.injEq, bootSectorAt, BootSector.mk.injEq]
  decide

/-- A floppy disk on which the entries of all clusters are taken. -/
def fullFloppy : Disk := fun x => if x < 4785 then 0xFF else 0

/-- It is on a disk with sectors of 512 bytes. -/
def longDrive : FatDevice := { floppyDrive with toFatContext := longVolume }

/-- INTERNAL: they all begin with a digit that is not `0`. -/
theorem fullFloppy_digit {c : ℕ} (hlt : c < 2849) :
    fullFloppy.nibble (nibbleStart floppy 0 c) = 15 := by
  have hstart : nibbleStart floppy 0 c / 2 < 4785 := by
    have hin : InTable floppy c := by
      show c + c / 2 + 2 ≤ 9 * 512
      omega
    have hoffset := floppy_layout.fatEntryOffset_eq (i := 0) (by decide) hin
    have hentry : fatEntryOffset floppy 0 c = 512 + (c + c / 2) := by
      rw [hoffset]
      show 1 * 512 + 0 * (9 * 512) + (c + c / 2) = 512 + (c + c / 2)
      omega
    have hnibble : nibbleStart floppy 0 c = 2 * fatEntryOffset floppy 0 c + c % 2 := rfl
    rw [hnibble, hentry]
    omega
  have hbyte : fullFloppy (nibbleStart floppy 0 c / 2) = 0xFF := if_pos hstart
  unfold Store.nibble hexDigit
  rw [hbyte]
  rcases Nat.mod_two_eq_zero_or_one (nibbleStart floppy 0 c) with hm | hm
  · rw [hm]
    rfl
  · rw [hm]
    rfl

theorem fullFloppy_taken {c : ℕ} (hlt : c < 2849) : fatGetEntry floppy 0 c fullFloppy ≠ 0 := by
  rw [fatGetEntry_eq_nibbles (.inl rfl), fullFloppy_digit hlt]
  omega

theorem fullFloppy_looks_taken {c : ℕ} (hlt : c < 2849) :
    floppyDrive.fatGetEntry 0 c fullFloppy ≠ 0 := by
  intro hread
  have hdigit := FatDevice.nibble_of_get_zero (.inl rfl) hread
  rw [show floppyDrive.toFatContext = floppy from rfl, fullFloppy_digit hlt] at hdigit
  cases hdigit

/-- The full floppy disk with the link `0x350` in the cluster 341, whose last digits lie in the next
sector. -/
def linkedFloppy : Disk := fun x =>
  if x = 1023 then 0x0F else if x = 1024 then 0x35 else fullFloppy x

/-- No cluster of the long volume is found; on the full floppy disk one is found that it does
not have, and one that is in use. -/
theorem findFreeCluster_fails :
    fatMount 0 longDisk = some longVolume ∧
      FreeCluster longVolume (clusterCount longDisk longVolume) longDisk 2 ∧
      longDrive.findFreeCluster longDisk = 0 ∧ ¬ FindsLowest longDisk longDrive longDisk ∧
    fatMount 0 floppyDisk = some floppy ∧ clusterCount floppyDisk floppy + 2 = 2849 ∧
      floppyDrive.findFreeCluster fullFloppy = 2849 ∧
      ¬ FindsLowest floppyDisk floppyDrive fullFloppy ∧
    fatGetEntry floppy 0 341 linkedFloppy = 0x350 ∧
      floppyDrive.fatGetEntry 0 341 linkedFloppy = 0 := by
  have hfree : FreeCluster longVolume (clusterCount longDisk longVolume) longDisk 2 := by
    refine ⟨by decide, by decide, by decide⟩
  have hlong : longDrive.findFreeCluster longDisk = 0 := findFreeCluster_long rfl longDisk
  have hcount : clusterCount floppyDisk floppy + 2 = 2849 := by decide
  have hfound : floppyDrive.findFreeCluster fullFloppy = 2849 := by
    have hzero : floppyDrive.fatGetEntry 0 2849 fullFloppy = 0 :=
      FatDevice.fatGetEntry_zero (by decide : fatGetEntry floppy 0 2849 fullFloppy = 0)
    rcases FatDevice.findFreeCluster_cases floppyDrive fullFloppy with
      ⟨-, hnone⟩ | ⟨-, -, hentry, hbefore⟩
    · exact absurd hzero (hnone 2849 (by decide) (by decide))
    · refine Nat.le_antisymm ?_ ?_
      · by_contra hgt
        exact hbefore 2849 (by decide) (by omega) hzero
      · by_contra hlt
        exact fullFloppy_looks_taken (by omega) hentry
  refine ⟨fatMount_longDisk, hfree, hlong, fun hfinds => ?_, fatMount_floppyDisk, hcount, hfound,
    fun hfinds => ?_, by decide, by decide +kernel⟩
  · have hlow := (hfinds.lowest 2 hfree).1.1
    rw [hlong] at hlow
    omega
  · have hnone : ∀ c, ¬ FreeCluster floppy (clusterCount floppyDisk floppy) fullFloppy c :=
      fun c hc => fullFloppy_taken (by have := hc.2.1; omega) hc.2.2
    have hzero := hfinds.none hnone
    rw [hfound] at hzero
    cases hzero

end LakeOS.Analysis
