import LakeOS.Analysis.DeviceTables
import LakeOS.Analysis.FatCursor

/-!
# Reading a file from a device

`FAT_read` takes a file from its device in up to three kinds of pieces.  Those that begin at a
cluster begin at a sector too; the first one may begin anywhere, and is cut where it is short and
runs over the end of a sector.
-/

set_option autoImplicit false

namespace LakeOS.Analysis

open LakeOS.Library LakeOS.Model

/-- A volume whose sectors are made of the sectors of its device, from which the data region begins
at one of them. -/
structure DeviceLayout (v : FatDevice) : Prop extends FatLayout v.toFatContext where
  sectors : v.sectorSize ∣ v.bootSector.bytesPerSector
  dataSectors : v.sectorSize ∣ v.dataRegionStart

/-- The entries of these clusters are read as they are. -/
def ReadsEntries (v : FatDevice) (d : Disk) (cs : List ℕ) : Prop :=
  ∀ c ∈ cs, v.fatGetEntry 0 c d = fatGetEntry v.toFatContext 0 c d

variable {v : FatDevice} {d : Disk} {c : ℕ} {cs : List ℕ} {file : FatFile}

/-- Entries inside of sectors are. -/
theorem ReadsEntries.of_fits (hnum : 1 ≤ v.bootSector.numFat) (hfits : ∀ c ∈ cs, EntryFits v c)
    (d : Disk) : ReadsEntries v d cs :=
  fun c hc => FatDevice.fatGetEntry_of_fits (hfits c hc 0 hnum) d

/-! ## Addresses -/

/-- INTERNAL: **the loop along a chain** whose entries are read as they are.
SRCLINE: fat.c:436-449 -/
theorem FatDevice.fatAbsoluteOffsetLoop_eq
    (hchain : Chain (fun c => fatGetEntry v.toFatContext 0 c d)
      (fun e => fatIsEoc v.toFatContext e) (c :: cs))
    (hreads : ReadsEntries v d (c :: cs)) (fuel offset : ℕ) :
    v.fatAbsoluteOffsetLoop d fuel c offset =
      fatAbsoluteOffsetLoop v.toFatContext d fuel c offset := by
  induction fuel generalizing c cs offset with
  | zero => rfl
  | succ fuel ih =>
      rw [FatDevice.fatAbsoluteOffsetLoop, Model.fatAbsoluteOffsetLoop,
        hreads c List.mem_cons_self]
      cases cs with
      | nil =>
          have heoc : fatIsEoc v.toFatContext (fatGetEntry v.toFatContext 0 c d) := hchain
          dsimp only
          rw [if_pos heoc, if_pos heoc]
      | cons b cs =>
          obtain ⟨hnext, -, hrest⟩ := hchain
          have hstep := ih hrest (fun x hx => hreads x (List.mem_cons_of_mem c hx))
            (offset - v.bytesPClus)
          dsimp only at hnext ⊢
          rw [hnext, hstep]

theorem FatDevice.fatAbsoluteOffset_eq (hchain : FatChain v.toFatContext d (c :: cs))
    (hreads : ReadsEntries v d (c :: cs)) (offset : ℕ) :
    v.fatAbsoluteOffset c offset d = fatAbsoluteOffset v.toFatContext c offset d := by
  unfold FatDevice.fatAbsoluteOffset Model.fatAbsoluteOffset
  rw [FatDevice.fatAbsoluteOffsetLoop_eq hchain.1 hreads]

namespace DeviceLayout

/-- INTERNAL: clusters begin at sectors. -/
theorem dvd_bytesPClus (h : DeviceLayout v) : v.sectorSize ∣ v.bytesPClus := by
  rw [h.bytesPClus]
  exact h.sectors.mul_left _

theorem dvd_clusterStart (h : DeviceLayout v) (c : ℕ) :
    v.sectorSize ∣ clusterStart v.toFatContext c :=
  Nat.dvd_add h.dataSectors (h.dvd_bytesPClus.mul_left _)

/-- INTERNAL: an address in a cluster lies in its sector as the offset does. -/
theorem address_mod (h : DeviceLayout v) (c pos : ℕ) :
    (clusterStart v.toFatContext c + pos % v.bytesPClus) % v.sectorSize = pos % v.sectorSize := by
  rw [Nat.add_mod, Nat.mod_eq_zero_of_dvd (h.dvd_clusterStart c), Nat.zero_add, Nat.mod_mod,
    Nat.mod_mod_of_dvd pos h.dvd_bytesPClus]

/-- INTERNAL: an offset at the start of a cluster has an address at the start of a sector, behind the
end of the chain too. -/
theorem aligned (h : DeviceLayout v) (hchain : FatChain v.toFatContext d (c :: cs)) {pos : ℕ}
    (hpos : pos % v.bytesPClus = 0) {off : ℕ × Option ℕ}
    (hoff : fatAbsoluteOffset v.toFatContext c pos d = some off) : off.1 % v.sectorSize = 0 := by
  by_cases hin : pos < (c :: cs).length * v.bytesPClus
  · rw [fatAbsoluteOffset_inside h.toFatLayout hchain hin] at hoff
    obtain rfl := Option.some.inj hoff
    rw [h.address_mod, ← Nat.mod_mod_of_dvd pos h.dvd_bytesPClus, hpos, Nat.zero_mod]
  · obtain ⟨last, -, hpast⟩ := fatAbsoluteOffset_past h.toFatLayout hchain (not_lt.mp hin)
    obtain rfl := Option.some.inj (hpast.symm.trans hoff)
    rfl

end DeviceLayout

/-! ## The pieces -/

/-- The bytes that are read or written before the next cluster. -/
def headPiece (v : FatDevice) (pos len : ℕ) : ℕ := min len (v.bytesPClus - pos % v.bytesPClus)

/-- INTERNAL: the piece is all there is to read, or ends where a cluster does. -/
theorem headPiece_end (hbpc : 0 < v.bytesPClus) (pos len : ℕ) :
    headPiece v pos len = len ∨ (pos + headPiece v pos len) % v.bytesPClus = 0 := by
  unfold headPiece
  rcases Nat.le_total len (v.bytesPClus - pos % v.bytesPClus) with hl | hl
  · exact .inl (Nat.min_eq_left hl)
  · right
    have hmod := Nat.mod_lt pos hbpc
    have hdiv := Nat.div_add_mod pos v.bytesPClus
    have hsum : pos + (v.bytesPClus - pos % v.bytesPClus) =
        v.bytesPClus * (pos / v.bytesPClus) + v.bytesPClus := by omega
    rw [Nat.min_eq_right hl, hsum, Nat.add_mod_right, Nat.mul_mod_right]

/-- INTERNAL: a piece that is cut does not end where a sector does. -/
theorem mod_ne_zero_of_cut {size len pos : ℕ} (hcut : ¬ HeadFits size len pos) :
    (pos + len) % size ≠ 0 := by
  unfold HeadFits at hcut
  push Not at hcut
  obtain ⟨-, hshort, hover⟩ := hcut
  have hmod := Nat.mod_lt pos (show 0 < size by omega)
  rw [← Nat.mod_add_mod, Nat.mod_eq_sub_mod (by omega), Nat.mod_eq_of_lt (by omega)]
  omega

theorem FatDevice.get_eq {r : FatReading} {off len : ℕ} (hfits : HeadFits v.sectorSize len off) :
    v.get r d off len = r.get d off len := by
  rw [FatDevice.get, FatReading.get, FatDevice.read, sectorRead_of_fits v.sectorSize_pos hfits]

/-- INTERNAL: **the clusters of a file**, from a position at the start of one.
SRCLINE: fat.c:963-978 -/
theorem FatDevice.fatReadClusters_eq (h : DeviceLayout v)
    (hchain : FatChain v.toFatContext d (c :: cs)) (hreads : ReadsEntries v d (c :: cs))
    {len : ℕ} {r : FatReading} (hstart : r.file.startingClus = c)
    (haligned : r.file.position % v.bytesPClus = 0 ∨ len ≤ r.data.length)
    (hsmall : r.file.position + (len - r.data.length) < 2 ^ 32) (fuel : ℕ) :
    v.fatReadClusters len d fuel r = fatReadClusters v.toFatContext len d fuel r := by
  have hbpc := h.bytesPClus_pos
  induction fuel generalizing r with
  | zero => rfl
  | succ fuel ih =>
      rw [FatDevice.fatReadClusters, Model.fatReadClusters, FatDevice.fatReadTail,
        Model.fatReadTail, hstart, FatDevice.fatAbsoluteOffset_eq hchain hreads]
      cases hoff : fatAbsoluteOffset v.toFatContext c r.file.position d with
      | none => rfl
      | some off =>
          simp only [Option.bind_eq_bind, Option.bind_some]
          split
          next hmore =>
            have haligned' : r.file.position % v.bytesPClus = 0 := by omega
            rw [FatDevice.get_eq (.inl (h.aligned hchain haligned' hoff))]
            have hmoved : (r.get d off.1 v.bytesPClus).file.position =
                r.file.position + v.bytesPClus := add32_eq (by omega)
            have hlength := length_get (d := d) r off.1 v.bytesPClus
            have hrest := ih (r := r.get d off.1 v.bytesPClus) hstart
              (.inl (by rw [hmoved, Nat.add_mod_right, haligned'])) (by omega)
            rw [FatReading.unlessPast, FatReading.unlessPast, hrest]
          next hfew =>
            split
            next hmore =>
              have haligned' : r.file.position % v.bytesPClus = 0 := by omega
              rw [FatDevice.get_eq (.inl (h.aligned hchain haligned' hoff))]
            next => rfl

/-- **`FAT_read` of a file whose first piece fits** is the exact one.
SRCLINE: fat.c:945-981 -/
theorem FatDevice.fatRead_eq (h : DeviceLayout v)
    (hchain : FatChain v.toFatContext d (file.startingClus :: cs))
    (hreads : ReadsEntries v d (file.startingClus :: cs)) {len : ℕ}
    (hin : file.position < (file.startingClus :: cs).length * v.bytesPClus ∨
      file.position % v.bytesPClus = 0 ∨ len = 0)
    (hsmall : file.position + len < 2 ^ 32)
    (hfits : HeadFits v.sectorSize (headPiece v file.position len) file.position) :
    v.fatRead file len d = fatRead v.toFatContext file len d := by
  have hbpc := h.bytesPClus_pos
  unfold FatDevice.fatRead Model.fatRead
  rw [FatDevice.fatAbsoluteOffset_eq hchain hreads]
  cases hoff : fatAbsoluteOffset v.toFatContext file.startingClus file.position d with
  | none => rfl
  | some off =>
      simp only [Option.bind_eq_bind, Option.bind_some]
      by_cases hoffset : file.position % v.bytesPClus ≠ 0
      · simp only [if_pos hoffset]
        have hpiece : (if len ≤ v.bytesPClus - file.position % v.bytesPClus then len
            else v.bytesPClus - file.position % v.bytesPClus) = headPiece v file.position len := rfl
        rw [hpiece]
        have hhead : HeadFits v.sectorSize (headPiece v file.position len) off.1 := by
          rcases hin with hin | haligned | rfl
          · rw [fatAbsoluteOffset_inside h.toFatLayout hchain hin] at hoff
            obtain rfl := Option.some.inj hoff
            unfold HeadFits at hfits ⊢
            rw [h.address_mod]
            exact hfits
          · exact absurd haligned hoffset
          · refine .inr (.inr ?_)
            have hmod := Nat.mod_lt off.1 v.sectorSize_pos
            simp only [headPiece, Nat.zero_min]
            omega
        rw [FatDevice.get_eq hhead]
        have hle : headPiece v file.position len ≤ len := Nat.min_le_left _ _
        have hmoved : (FatReading.get ⟨file, []⟩ d off.1
            (headPiece v file.position len)).file.position =
            file.position + headPiece v file.position len :=
          add32_eq (show file.position + headPiece v file.position len < 2 ^ 32 by omega)
        have hlength := length_get (d := d) ⟨file, []⟩ off.1 (headPiece v file.position len)
        rw [List.length_nil, Nat.zero_add] at hlength
        have hnext : (file.position + headPiece v file.position len) % v.bytesPClus = 0 ∨
            len ≤ headPiece v file.position len :=
          (headPiece_end hbpc file.position len).symm.imp_right Eq.ge
        have hplace : (FatReading.get ⟨file, []⟩ d off.1
            (headPiece v file.position len)).file.startingClus = file.startingClus := rfl
        have haligned : (FatReading.get ⟨file, []⟩ d off.1
              (headPiece v file.position len)).file.position % v.bytesPClus = 0 ∨
            len ≤ (FatReading.get ⟨file, []⟩ d off.1 (headPiece v file.position len)).data.length := by
          rw [hmoved, hlength]
          exact hnext
        have hrest := FatDevice.fatReadClusters_eq h hchain hreads hplace haligned
          (by rw [hmoved, hlength]; omega) fatFuel
        rw [FatReading.unlessPast, FatReading.unlessPast, hrest]
      · simp only [if_neg hoffset]
        rw [FatDevice.fatReadClusters_eq h hchain hreads rfl (.inl (not_not.mp hoffset))
          (by simpa using hsmall)]

/-- **`FAT_read` of a first piece that is cut** reads nothing but that piece.
SRCLINE: fat.c:952-978 -/
theorem FatDevice.fatRead_cut (h : DeviceLayout v)
    (hflag : hasFlag file.flags fatFileRead)
    (hchain : FatChain v.toFatContext d (file.startingClus :: cs))
    (hreads : ReadsEntries v d (file.startingClus :: cs)) {len : ℕ}
    (hin : file.position < (file.startingClus :: cs).length * v.bytesPClus)
    (hsmall : file.position + len < 2 ^ 32) (hlen : len ≤ file.size)
    (hcut : ¬ HeadFits v.sectorSize (headPiece v file.position len) file.position) :
    headPiece v file.position len = len ∧
    v.fatRead file len d =
      some (v.read d (clusterStart v.toFatContext ((file.startingClus :: cs).getD
          (file.position / v.bytesPClus) 0) + file.position % v.bytesPClus) len,
        { file with position := file.position + len }) := by
  have hbpc := h.bytesPClus_pos
  -- the ends of a cluster are ends of sectors
  have hoffset : file.position % v.bytesPClus ≠ 0 := by
    intro haligned
    have hsector := Nat.mod_mod_of_dvd file.position h.dvd_bytesPClus
    rw [haligned, Nat.zero_mod] at hsector
    exact hcut (.inl hsector.symm)
  have hpiece : headPiece v file.position len = len := by
    refine (headPiece_end hbpc file.position len).resolve_right fun hend => ?_
    have hsector := h.dvd_bytesPClus.trans (Nat.dvd_of_mod_eq_zero hend)
    exact mod_ne_zero_of_cut hcut (Nat.mod_eq_zero_of_dvd hsector)
  refine ⟨hpiece, ?_⟩
  have hle : len ≤ v.bytesPClus - file.position % v.bytesPClus := by
    rw [← hpiece]
    exact Nat.min_le_right _ _
  unfold FatDevice.fatRead
  rw [if_neg (by rw [hflag]; decide), FatDevice.fatAbsoluteOffset_eq hchain hreads,
    fatAbsoluteOffset_inside h.toFatLayout hchain hin]
  simp only [Option.bind_eq_bind, Option.bind_some, if_pos hoffset, if_pos hle]
  generalize clusterStart v.toFatContext ((file.startingClus :: cs).getD
    (file.position / v.bytesPClus) 0) + file.position % v.bytesPClus = off
  have hlength : (v.get ⟨file, []⟩ d off len).data.length = len := by
    simp [FatDevice.get, FatDevice.read, length_sectorRead]
  have hdone : v.fatReadClusters len d fatFuel (v.get ⟨file, []⟩ d off len) =
      some (v.get ⟨file, []⟩ d off len) := by
    rw [show fatFuel = (2 ^ 32 - 1) + 1 from rfl, FatDevice.fatReadClusters,
      if_neg (by rw [hlength]; omega), FatDevice.fatReadTail, if_neg (by rw [hlength]; omega)]
  rw [FatReading.unlessPast, if_neg (by rw [hlength]; exact Nat.not_lt.mpr hlen), hdone]
  simp [FatDevice.get, add32_eq hsmall]

/-! ## A floppy disk -/

/-- The floppy disk in a drive with sectors of 512 bytes. -/
def floppyDrive : FatDevice := ⟨floppy, 512, Nat.succ_pos 511⟩

theorem floppyDrive_layout : DeviceLayout floppyDrive :=
  { floppy_layout with
    sectors := ⟨1, rfl⟩
    dataSectors := ⟨33, rfl⟩ }

end LakeOS.Analysis
