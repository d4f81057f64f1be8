import LakeOS.Analysis.DeviceWrites
import LakeOS.Analysis.DirChanges
import Mathlib.Data.Nat.Prime.Basic

/-!
# Directories on devices

The entries of a directory lie inside of sectors, and are read and stored as they are.  So the
calls on a directory do what they would with exact transfers where the entries of the clusters
that they follow, take and free do not run over the end of a sector.
-/

set_option autoImplicit false

namespace LakeOS.Analysis

open LakeOS.Library LakeOS.Model

variable {v : FatDevice} {d d' : Disk} {c start k : ℕ} {cs : List ℕ} {junk : Uninit}

/-- A volume with sectors of the sizes of `fat.h`, made of those of its device. -/
structure DirLayout (v : FatDevice) : Prop extends SectorLayout v.toFatContext, DeviceLayout v

/-! ## Entries of a directory -/

/-- INTERNAL: an entry of a directory lies in one sector. -/
theorem headFits_entry {sectorSize x : ℕ} (hsector : sectorSize ∣ 2 ^ 12)
    (hx : x % sectorSize = mul32 k sizeofShortDirEntry % sectorSize) :
    HeadFits sectorSize sizeofShortDirEntry x := by
  obtain ⟨j, hj, rfl⟩ := (Nat.dvd_prime_pow Nat.prime_two).mp hsector
  unfold HeadFits
  unfold mul32 sizeofShortDirEntry at *
  interval_cases j
  all_goals omega

namespace DirLayout

variable (h : DirLayout v)
include h

theorem dvd_sector : v.sectorSize ∣ 2 ^ 12 := by
  refine h.sectors.trans ?_
  have hsector := h.sector
  simp only [List.mem_cons, List.not_mem_nil, or_false] at hsector
  rcases hsector with hbps | hbps | hbps | hbps
  · exact hbps ▸ ⟨8, rfl⟩
  · exact hbps ▸ ⟨4, rfl⟩
  · exact hbps ▸ ⟨2, rfl⟩
  · exact hbps ▸ ⟨1, rfl⟩

/-- INTERNAL: addresses wrap around at a sector. -/
theorem mod_wrap (x : ℕ) : x % 2 ^ 32 % v.sectorSize = x % v.sectorSize :=
  Nat.mod_mod_of_dvd x (h.dvd_sector.trans ⟨2 ^ 20, rfl⟩)

/-- INTERNAL: the address of an entry of a directory. -/
theorem entry_fits (hdir : DirClusters v.toFatContext d start cs) {off : ℕ × Option ℕ}
    (hoff : fatAbsoluteOffset v.toFatContext start (mul32 k sizeofShortDirEntry) d = some off)
    (hne : off.1 ≠ 0) : HeadFits v.sectorSize sizeofShortDirEntry off.1 := by
  refine headFits_entry (k := k) h.dvd_sector ?_
  rcases hdir with ⟨hroot, -⟩ | ⟨hhead, hchain⟩
  · rw [fatAbsoluteOffset, if_pos hroot] at hoff
    dsimp only at hoff
    split at hoff
    next =>
      obtain rfl := Option.some.inj hoff
      exact absurd rfl hne
    next =>
      obtain rfl := Option.some.inj hoff
      have hroot : mul32 (rootDirSector v.toFatContext) v.bootSector.bytesPerSector %
          v.sectorSize = 0 := by
        rw [mul32, h.mod_wrap]
        exact Nat.mod_eq_zero_of_dvd (h.sectors.mul_left _)
      dsimp only
      rw [add32, h.mod_wrap, Nat.add_mod, hroot, Nat.zero_add, Nat.mod_mod]
  · obtain ⟨b, rest, rfl⟩ := List.exists_cons_of_ne_nil hchain.1.ne_nil
    obtain rfl := Option.some.inj hhead
    by_cases hin : mul32 k sizeofShortDirEntry < (b :: rest).length * v.bytesPClus
    · rw [fatAbsoluteOffset_inside h.toFatLayout hchain hin] at hoff
      obtain rfl := Option.some.inj hoff
      exact h.address_mod _ _
    · obtain ⟨last, -, hpast⟩ := fatAbsoluteOffset_past h.toFatLayout hchain (not_lt.mp hin)
      obtain rfl := Option.some.inj (hpast.symm.trans hoff)
      exact absurd rfl hne

end DirLayout

/-- INTERNAL: the addresses of a directory whose chain is read as it is. -/
theorem FatDevice.fatAbsoluteOffset_dir (hdir : DirClusters v.toFatContext d start cs)
    (hreads : ReadsEntries v d cs) (off : ℕ) :
    v.fatAbsoluteOffset start off d = fatAbsoluteOffset v.toFatContext start off d := by
  rcases hdir with ⟨hroot, -⟩ | ⟨hhead, hchain⟩
  · unfold FatDevice.fatAbsoluteOffset Model.fatAbsoluteOffset
    rw [if_pos hroot, if_pos hroot]
  · obtain ⟨b, rest, rfl⟩ := List.exists_cons_of_ne_nil hchain.1.ne_nil
    obtain rfl := Option.some.inj hhead
    exact FatDevice.fatAbsoluteOffset_eq hchain hreads off

/-- **The entries of a directory** are read as they are.
SRCLINE: fat.c:460-471 -/
theorem FatDevice.fatDirEntry_eq (h : DirLayout v) (hdir : DirClusters v.toFatContext d start cs)
    (hreads : ReadsEntries v d cs) (junk : Uninit) (k : ℕ) :
    v.fatDirEntry junk start k d = fatDirEntry v.toFatContext junk start k d := by
  rw [FatDevice.fatDirEntry, Model.fatDirEntry, FatDevice.fatAbsoluteOffset_dir hdir hreads]
  cases hoff : fatAbsoluteOffset v.toFatContext start (mul32 k sizeofShortDirEntry) d with
  | none => rfl
  | some off =>
      rw [Option.map_some, Option.map_some]
      by_cases hne : off.1 ≠ 0
      · rw [if_pos hne, if_pos hne, FatDevice.read,
          sectorRead_of_fits v.sectorSize_pos (h.entry_fits hdir hoff hne)]
      · rw [if_neg hne, if_neg hne]

/-! ## `FAT_lookup` -/

/-- INTERNAL: scans that read the same entries.
SRCLINE: fat.c:707-717 -/
theorem FatDevice.fatFileEntryLoop_eq
    (hentry : ∀ k, v.fatDirEntry junk start k d = fatDirEntry v.toFatContext junk start k d)
    (conv : List Byte) (fuel i eoc : ℕ) (entry : List Byte) :
    v.fatFileEntryLoop junk start conv d fuel i eoc entry =
      fatFileEntryLoop v.toFatContext junk start conv d fuel i eoc entry := by
  induction fuel generalizing i eoc entry with
  | zero => rfl
  | succ fuel ih =>
      rw [FatDevice.fatFileEntryLoop, Model.fatFileEntryLoop, hentry]
      simp only [ih]

/-- **`FAT_lookup`** in a directory whose chain is read as it is.
SRCLINE: fat.c:812-835 -/
theorem FatDevice.fatLookup_eq (h : DirLayout v) {dir : FatHandle}
    (hdir : DirClusters v.toFatContext d dir.startCluster cs) (hreads : ReadsEntries v d cs)
    (name : CString) :
    v.fatLookup junk dir name d = fatLookup v.toFatContext junk dir name d := by
  have hentry := FatDevice.fatDirEntry_eq h hdir hreads junk
  unfold FatDevice.fatLookup Model.fatLookup FatDevice.fatFileEntry Model.fatFileEntry
  simp only [hentry, FatDevice.fatFileEntryLoop_eq hentry]

/-! ## `FAT_create` -/

section

variable (h : DirLayout v)
include h

/-- INTERNAL: `FAT_write_entry` up to the first free entry.
SRCLINE: fat.c:561-579 -/
theorem FatDevice.fatWriteEntryLoop_eq (hdir : DirClusters v.toFatContext d start cs)
    (hreads : ReadsEntries v d cs) (hk : k < slotCount v.toFatContext cs)
    (hfree : entryIsFree (dirSlot v.toFatContext cs d k))
    (hfirst : ∀ j < k, ¬ entryIsFree (dirSlot v.toFatContext cs d j))
    (hplace : add32 (fatClusToOff v.toFatContext start) (mul32 k sizeofShortDirEntry) =
      slotStart v.toFatContext cs k) {entry : List Byte} (hlength : entry.length = 32)
    (fuel : ℕ) {n i : ℕ} (hi : i + n = k) (read : List Byte) :
    v.fatWriteEntryLoop junk start entry (fuel + n + 1) i 0 read d =
      fatWriteEntryLoop v.toFatContext junk start entry (fuel + n + 1) i 0 read d := by
  have hcount := h.slotCount_lt hdir
  have hentry := FatDevice.fatDirEntry_eq h hdir hreads junk
  induction n generalizing i read with
  | zero =>
      obtain rfl : i = k := hi
      obtain ⟨hpos, x, hoff⟩ := h.slot_offset hdir hk
      have hfits := h.entry_fits hdir hoff hpos.ne'
      rw [h.fatWriteEntryLoop_free hdir hk hfree, FatDevice.fatWriteEntryLoop,
        FatDevice.fatExtendAtEnd, if_neg (by decide), Option.bind_eq_bind, Option.bind_some,
        hentry, h.fatDirEntry_slot hdir hk, Option.bind_eq_bind, Option.bind_some,
        Option.getD_some, if_pos hfree, hplace, FatDevice.write,
        sectorWrite_of_fits v.sectorSize_pos (by rw [hlength]; exact hfits)]
  | succ n ih =>
      have htaken := hfirst i (by omega)
      have hlt : i < slotCount v.toFatContext cs := by omega
      rw [← Nat.add_assoc, h.fatWriteEntryLoop_taken hdir hlt htaken,
        FatDevice.fatWriteEntryLoop, FatDevice.fatExtendAtEnd, if_neg (by decide),
        Option.bind_eq_bind, Option.bind_some, hentry, h.fatDirEntry_slot hdir hlt,
        Option.bind_eq_bind, Option.bind_some, Option.getD_some, if_neg htaken,
        add32_eq (by omega)]
      exact ih (by omega) _

/-- **`FAT_write_entry`** of a directory with a free entry, at its own address.
SRCLINE: fat.c:558-580 -/
theorem FatDevice.fatWriteEntry_eq (hdir : DirClusters v.toFatContext d start cs)
    (hreads : ReadsEntries v d cs) (hk : k < slotCount v.toFatContext cs)
    (hfree : entryIsFree (dirSlot v.toFatContext cs d k))
    (hfirst : ∀ j < k, ¬ entryIsFree (dirSlot v.toFatContext cs d j))
    (hplace : add32 (fatClusToOff v.toFatContext start) (mul32 k sizeofShortDirEntry) =
      slotStart v.toFatContext cs k) {entry : List Byte} (hlength : entry.length = 32) :
    v.fatWriteEntry junk start entry d = fatWriteEntry v.toFatContext junk start entry d := by
  have hcount := h.slotCount_lt hdir
  obtain ⟨fuel, hfuel⟩ : ∃ fuel, fatFuel = fuel + k + 1 :=
    ⟨fatFuel - 1 - k, by unfold fatFuel; omega⟩
  rw [h.fatWriteEntry_eq hdir, FatDevice.fatWriteEntry, FatDevice.fatDirEntry_eq h hdir hreads,
    h.fatDirEntry_slot hdir (h.slotCount_pos hdir), Option.bind_eq_bind, Option.bind_some,
    Option.getD_some, hfuel]
  exact FatDevice.fatWriteEntryLoop_eq h hdir hreads hk hfree hfirst hplace hlength fuel
    (Nat.zero_add k) _

/-- INTERNAL: in a directory of one cluster. -/
theorem FatDevice.fatWriteEntry_singleton (hchain : FatChain v.toFatContext d [c])
    (hfits : EntryFits v c)
    (hfree : ∃ k < slotCount v.toFatContext [c], entryIsFree (dirSlot v.toFatContext [c] d k))
    {entry : List Byte} (hlength : entry.length = 32) :
    v.fatWriteEntry junk c entry d = fatWriteEntry v.toFatContext junk c entry d := by
  obtain ⟨k, hk, hfreek, hfirst⟩ := SectorLayout.exists_first_free hfree
  refine FatDevice.fatWriteEntry_eq h (.inr ⟨rfl, hchain⟩) (.of_fits h.numFat ?_ d) hk hfreek
    hfirst (h.slot_place hchain hk) hlength
  intro e he
  rwa [List.mem_singleton.mp he]

/-- **`FAT_init_dir`** of a cluster whose entry lies inside of a sector.
SRCLINE: fat.c:638-663 -/
theorem FatDevice.fatInitDir_eq (hchain : FatChain v.toFatContext d [c]) (hfits : EntryFits v c)
    (parent : ℕ) : v.fatInitDir junk c parent d = fatInitDir v.toFatContext junk c parent d := by
  have hc := hchain.2 c List.mem_cons_self
  have hcount := h.dataClusters_lt
  have hwidth : c % 2 ^ 16 = c := Nat.mod_eq_of_lt (by have := hc.2; omega)
  have hclear : v.write d (fatClusToOff v.toFatContext c) (List.replicate v.bytesPClus 0) =
      d.write (clusterStart v.toFatContext c) (List.replicate v.bytesPClus 0) := by
    rw [h.fatClusToOff_eq hc, FatDevice.write, sectorWrite_of_fits v.sectorSize_pos
      (.inl (Nat.mod_eq_zero_of_dvd (h.dvd_clusterStart c)))]
  rw [FatDevice.fatInitDir, fatInitDir, hwidth, hclear, h.fatClusToOff_eq hc]
  generalize hfirst : makeEntry (dot :: List.replicate 10 blank) _ 0 0 c = first
  generalize hsecond : makeEntry (dot :: dot :: List.replicate 9 blank) _ 0 0 parent = second
  have hlength₁ : first.length = 32 := by rw [← hfirst, length_makeEntry (by simp)]
  have hlength₂ : second.length = 32 := by rw [← hsecond, length_makeEntry (by simp)]
  obtain ⟨hchain₁, hslots, -⟩ := h.cleared_spec hchain
  obtain ⟨d₂, hwrite, hchain₂, hfree₂, -⟩ := h.fatInitDir_first junk hchain hlength₁
  obtain ⟨hlt, hzero⟩ := hslots 0 (by decide)
  unfold cleared at hchain₁ hzero hwrite
  rw [FatDevice.fatWriteEntry_singleton h hchain₁ hfits ⟨0, hlt, by rw [hzero]; rfl⟩ hlength₁,
    hwrite]
  simp only [Option.bind_eq_bind, Option.bind_some]
  exact FatDevice.fatWriteEntry_singleton h hchain₂ hfits hfree₂ hlength₂

/-- **`FAT_create`** where the cluster that it takes has its entry inside of a sector.
SRCLINE: fat.c:837-853 -/
theorem FatDevice.fatCreate_eq {dir : FatHandle}
    (hdir : DirClusters v.toFatContext d dir.startCluster cs) (hreads : ReadsEntries v d cs)
    (ht : TakesInside v d [] 1)
    (hk : k < slotCount v.toFatContext cs)
    (hslot : entryIsFree (dirSlot v.toFatContext cs d k))
    (hfirst : ∀ j < k, ¬ entryIsFree (dirSlot v.toFatContext cs d j))
    (hplace : add32 (fatClusToOff v.toFatContext dir.startCluster)
      (mul32 k sizeofShortDirEntry) = slotStart v.toFatContext cs k)
    (name : CString) (time : RtcTime) (attribs : ℕ) :
    v.fatCreate junk time dir name attribs d =
      fatCreate v.toFatContext junk time dir name attribs d := by
  obtain ⟨hfind, hfits⟩ := ht.findFreeCluster_eq h.toFatLayout
  have hmem := findFreeCluster_mem h.toFatLayout (ht.fields (by decide))
    (Finset.card_pos.mp (show 0 < _ from ht.card_le))
  have hnew := (mem_freeClusters.mp hmem).1
  have hcount := h.dataClusters_lt
  have hwidth : findFreeCluster v.toFatContext d % 2 ^ 16 = findFreeCluster v.toFatContext d :=
    Nat.mod_eq_of_lt (by have := hnew.2; omega)
  rw [FatDevice.fatCreate, fatCreate, hfind, hwidth]
  generalize findFreeCluster v.toFatContext d = new at *
  generalize hentry : makeEntry (fatConvFname name) (fatConvAttrib attribs) (fatGetTime time)
    (fatGetDate time) new = entry
  have hlength : entry.length = 32 := by
    rw [← hentry, length_makeEntry]
    rw [length_fatConvFname]
    omega
  rw [FatDevice.fatWriteEntry_eq h hdir hreads hk hslot hfirst hplace hlength,
    h.fatWriteEntry_spec hdir hk hslot hfirst hplace]
  simp only [Option.bind_eq_bind, Option.bind_some]
  rw [FatDevice.fatSetEntries_of_fits hfits]
  have hadd := h.entryAdded_marked hdir hk hslot hlength hmem
  split
  next => exact FatDevice.fatInitDir_eq h (hadd.chain_new h.toFatLayout) hfits _
  next => rfl

end

/-! ## `FAT_remove` -/

/-- INTERNAL: **a chain is freed** as it should be.
SRCLINE: fat.c:688-699 -/
theorem FatDevice.fatFreeClusterChain_eq (h : FatLayout v.toFatContext) (fuel : ℕ)
    (hchain : FatChain v.toFatContext d (c :: cs)) (hfits : ∀ e ∈ c :: cs, EntryFits v e)
    (hmark : EntryFits v (fatGetEntry v.toFatContext 0
      ((c :: cs).getLast (List.cons_ne_nil c cs)) d)) :
    v.fatFreeClusterChain fuel c d = fatFreeClusterChain v.toFatContext fuel c d := by
  induction cs generalizing c d fuel with
  | nil =>
      have hc := hfits c List.mem_cons_self
      have heoc : fatIsEoc v.toFatContext (fatGetEntry v.toFatContext 0 c d) := hchain.1
      cases fuel with
      | zero => rfl
      | succ fuel =>
        rw [FatDevice.fatFreeClusterChain, Model.fatFreeClusterChain,
          FatDevice.fatGetEntry_of_fits (hc 0 h.numFat), FatDevice.fatSetEntries_of_fits hc]
        cases fuel with
        | zero => rfl
        | succ fuel =>
          rw [FatDevice.fatFreeClusterChain, Model.fatFreeClusterChain, if_pos heoc, if_pos heoc,
            FatDevice.fatSetEntries_of_fits (by simpa using hmark)]
  | cons b cs ih =>
      have hc := hfits c List.mem_cons_self
      obtain ⟨hnext, -, hrest⟩ := hchain.1
      have hnext' : fatGetEntry v.toFatContext 0 c d = b := hnext
      have hnotin : c ∉ b :: cs := (List.nodup_cons.mp hchain.1.nodup).1
      obtain ⟨hset, -⟩ :=
        fatSetEntries_spec h (h.inTable (hchain.2 c List.mem_cons_self)) 0 d
      have hsame : ∀ e ∈ b :: cs, fatGetEntry v.toFatContext 0 e
          (fatSetEntries v.toFatContext c 0 d) = fatGetEntry v.toFatContext 0 e d := by
        intro e he
        rw [hset e (h.inTable (hchain.2 e (List.mem_cons_of_mem c he))),
          if_neg (fun heq : e = c => hnotin (heq ▸ he))]
      have htail : FatChain v.toFatContext d (b :: cs) :=
        ⟨hrest, fun e he => hchain.2 e (List.mem_cons_of_mem c he)⟩
      cases fuel with
      | zero => rfl
      | succ fuel =>
        rw [FatDevice.fatFreeClusterChain, Model.fatFreeClusterChain,
          FatDevice.fatGetEntry_of_fits (hc 0 h.numFat), FatDevice.fatSetEntries_of_fits hc,
          hnext']
        rw [ih fuel (htail.congr hsame) (fun e he => hfits e (List.mem_cons_of_mem c he)) (by
          rw [hsame _ (List.getLast_mem _)]
          exact hmark)]

/-- The chains of the files of a name, and the end marks of these, have their entries inside of
sectors. -/
def FreesInside (v : FatDevice) (cs : List ℕ) (conv : List Byte) (d : Disk) : Prop :=
  ∀ k < slotCount v.toFatContext cs, slotName v.toFatContext cs d k = conv →
    ∀ fs, FatChain v.toFatContext d fs →
      fs.head? = some (entryFirstClusterLow (dirSlot v.toFatContext cs d k)) →
      (∀ e ∈ fs, EntryFits v e) ∧
        ∀ hne, EntryFits v (fatGetEntry v.toFatContext 0 (fs.getLast hne) d)

/-- INTERNAL: so it is from the `i`-th entry on. -/
def RemovesInside (v : FatDevice) (cs : List ℕ) (conv : List Byte) (chainOf : ℕ → List ℕ) (i : ℕ)
    (d : Disk) : Prop :=
  ∀ k, i ≤ k → k < slotCount v.toFatContext cs → slotName v.toFatContext cs d k = conv →
    (∀ e ∈ chainOf k, EntryFits v e) ∧
      ∀ hne, EntryFits v (fatGetEntry v.toFatContext 0 ((chainOf k).getLast hne) d)

/-- INTERNAL: the rest of `FAT_remove` from an entry on. -/
def removeRest (v : FatDevice) (junk : Uninit) (file : FatHandle) (fuel i : ℕ)
    (entry : List Byte) (d : Disk) : Option Disk := do
  let next ← v.fatDirEntry junk file.dirCluster i d
  v.fatRemoveLoop junk file (fatConvFname file.name) fuel i next.1 (next.2.getD entry) d

section

variable (h : DirLayout v) {file : FatHandle} {i : ℕ} {entry : List Byte}
  {chainOf : ℕ → List ℕ}
include h

/-- INTERNAL: **one entry is removed.**
SRCLINE: fat.c:863-869 -/
theorem FatDevice.fatRemoveEntry_eq (hdir : DirClusters v.toFatContext d file.dirCluster cs)
    (hreads : ReadsEntries v d cs) (hk : k < slotCount v.toFatContext cs) {fs : List ℕ}
    (hchain : FatChain v.toFatContext d fs)
    (hhead : fs.head? = some (entryFirstClusterLow (dirSlot v.toFatContext cs d k)))
    (hapart : fs.Disjoint cs) (hfits : ∀ e ∈ fs, EntryFits v e)
    (hmark : ∀ hne, EntryFits v (fatGetEntry v.toFatContext 0 (fs.getLast hne) d)) :
    v.fatRemoveEntry file k (dirSlot v.toFatContext cs d k) d =
      fatRemoveEntry v.toFatContext file k (dirSlot v.toFatContext cs d k) d := by
  have htype := h.type.imp And.left And.left
  obtain ⟨b, fs, rfl⟩ := List.exists_cons_of_ne_nil hchain.1.ne_nil
  obtain rfl := Option.some.inj hhead
  have hlength := hchain.length_le
  have hcount := h.dataClusters_lt
  obtain ⟨d₁, hfreed, hentries, -⟩ := fatFreeClusterChain_spec h.toSectorLayout hchain
    (show _ < fatFuel by unfold fatFuel; omega)
  have hkept : ∀ e ∈ cs, DataCluster v.toFatContext e →
      fatGetEntry v.toFatContext 0 e d₁ = fatGetEntry v.toFatContext 0 e d := fun e he hdata => by
    rw [hentries e hdata, if_neg fun hmem => hapart hmem he]
  obtain ⟨hdir₁, hreads₁⟩ : DirClusters v.toFatContext d₁ file.dirCluster cs ∧
      ReadsEntries v d₁ cs := by
    rcases hdir with ⟨hroot, rfl⟩ | ⟨hstart, hdirChain⟩
    · exact ⟨.inl ⟨hroot, rfl⟩, fun e he => absurd he List.not_mem_nil⟩
    · refine ⟨.inr ⟨hstart, hdirChain.congr fun e he => hkept e he (hdirChain.2 e he)⟩,
        fun e he => ?_⟩
      have hsame := hkept e he (hdirChain.2 e he)
      rw [FatDevice.fatGetEntry_congr htype hsame, hsame]
      exact hreads e he
  obtain ⟨hpos, x, hoff⟩ := h.slot_offset hdir₁ hk
  have hentry : HeadFits v.sectorSize zeroEntry.length (slotStart v.toFatContext cs k) :=
    h.entry_fits hdir₁ hoff hpos.ne'
  rw [FatDevice.fatRemoveEntry, fatRemoveEntry,
    FatDevice.fatFreeClusterChain_eq h.toFatLayout fatFuel hchain hfits (hmark _), hfreed]
  simp only [Option.bind_eq_bind, Option.bind_some]
  rw [FatDevice.fatAbsoluteOffset_dir hdir₁ hreads₁, hoff, Option.bind_some, Option.bind_some,
    FatDevice.write, sectorWrite_of_fits v.sectorSize_pos hentry]

/-- INTERNAL: the scan of `FAT_remove`.
SRCLINE: fat.c:862-873 -/
theorem removeRest_eq (fuel : ℕ)
    (hdir : DirClusters v.toFatContext d file.dirCluster cs)
    (hjunk : file.dirCluster < 2 → junk.lastFreeCluster ≠ 0) (hvalid : ValidName file.name)
    (hi : i ≤ slotCount v.toFatContext cs) (hreads : ReadsEntries v d cs)
    (hrem : Removable v.toFatContext cs (fatConvFname file.name) chainOf i d)
    (hinside : RemovesInside v cs (fatConvFname file.name) chainOf i d) :
    removeRest v junk file fuel i entry d =
      removeFrom v.toFatContext junk file fuel i entry d := by
  have htype := h.type.imp And.left And.left
  induction fuel generalizing i entry d with
  | zero =>
      rw [removeRest, removeFrom, FatDevice.fatDirEntry_eq h hdir hreads]
      rfl
  | succ fuel ih =>
      have hcount := h.slotCount_lt hdir
      obtain rfl | hlt := Nat.eq_or_lt_of_le hi
      · -- behind the last entry
        obtain ⟨fail, hfail, hpast⟩ := h.fatDirEntry_end hdir hjunk
        rw [removeRest, removeFrom, FatDevice.fatDirEntry_eq h hdir hreads, hpast]
        simp only [Option.bind_eq_bind, Option.bind_some]
        rw [FatDevice.fatRemoveLoop, Model.fatRemoveLoop, if_pos hfail, if_pos hfail]
      have hdevice : removeRest v junk file (fuel + 1) i entry d =
          if slotName v.toFatContext cs d i = fatConvFname file.name then
            (v.fatRemoveEntry file i (dirSlot v.toFatContext cs d i) d).bind
              (removeRest v junk file fuel (i + 1) zeroEntry)
          else removeRest v junk file fuel (i + 1) (dirSlot v.toFatContext cs d i) d := by
        rw [removeRest, FatDevice.fatDirEntry_eq h hdir hreads,
          h.fatDirEntry_slot hdir hlt, Option.bind_eq_bind, Option.bind_some,
          FatDevice.fatRemoveLoop, if_neg (not_not.mpr rfl), Option.getD_some]
        simp only [memcmp_slot hvalid, add32_eq (show i + 1 < 2 ^ 32 by omega)]
        rfl
      rw [hdevice, h.removeFrom_succ hdir hvalid hlt]
      by_cases hmatch : slotName v.toFatContext cs d i = fatConvFname file.name
      · obtain ⟨hfits, hmark⟩ := hinside i (Nat.le_refl i) hlt hmatch
        have hchain := hrem.chain i (Nat.le_refl i) hlt hmatch
        have hhead := hrem.head i (Nat.le_refl i) hlt hmatch
        have hapart := hrem.outside i (Nat.le_refl i) hlt hmatch
        obtain ⟨d₁, hentry, hdir₁, hone⟩ := h.fatRemoveEntry_spec hdir hlt hchain hhead hapart
          (hrem.spares i (Nat.le_refl i) hlt hmatch)
        rw [if_pos hmatch, if_pos hmatch,
          FatDevice.fatRemoveEntry_eq h hdir hreads hlt hchain hhead hapart hfits hmark, hentry,
          Option.bind_some, Option.bind_some]
        refine ih hdir₁ hlt (fun e he => ?_) (hone.removable hrem hmatch)
          fun k hk hkn hname => ?_
        · -- the chain of the directory is as before
          have hdata : DataCluster v.toFatContext e := by
            rcases hdir with ⟨-, rfl⟩ | ⟨-, hdirChain⟩
            · exact absurd he List.not_mem_nil
            · exact hdirChain.2 e he
          have hsame : fatGetEntry v.toFatContext 0 e d₁ = fatGetEntry v.toFatContext 0 e d := by
            rw [hone.entries e hdata, if_neg fun hmem => hapart hmem he]
          rw [FatDevice.fatGetEntry_congr htype hsame, hsame]
          exact hreads e he
        · rw [hone.slotName_eq hkn (by omega)] at hname
          obtain ⟨hfits', hmark'⟩ := hinside k (by omega) hkn hname
          refine ⟨hfits', fun hne => ?_⟩
          have hlast := List.getLast_mem hne
          rw [hone.entries _ ((hrem.chain k (by omega) hkn hname).2 _ hlast), if_neg fun hmem =>
            hrem.apart i k (Nat.le_refl i) hk hkn hmatch hname hmem hlast]
          exact hmark' hne
      · rw [if_neg hmatch, if_neg hmatch]
        exact ih hdir hlt hreads hrem.pass fun k hk => hinside k (by omega)

/-- **`FAT_remove`** where the chains that it frees have their entries inside of sectors.
SRCLINE: fat.c:855-874 -/
theorem FatDevice.fatRemove_eq (hdir : DirClusters v.toFatContext d file.dirCluster cs)
    (hjunk : file.dirCluster < 2 → junk.lastFreeCluster ≠ 0) (hvalid : ValidName file.name)
    (hreads : ReadsEntries v d cs)
    (hrem : Removable v.toFatContext cs (fatConvFname file.name) chainOf 0 d)
    (hinside : FreesInside v cs (fatConvFname file.name) d) :
    v.fatRemove junk file d = fatRemove v.toFatContext junk file d :=
  removeRest_eq h fatFuel hdir hjunk hvalid (Nat.zero_le _) hreads hrem fun k hk hkn hname =>
    hinside k hkn hname _ (hrem.chain k hk hkn hname) (hrem.head k hk hkn hname)

end

end LakeOS.Analysis
