import Mathlib.Algebra.Order.BigOperators.Group.List
import LakeOS.Analysis.FatOffsets
import LakeOS.Model.Dev
import LakeOS.Model.FatDir
import LakeOS.Model.Vfm

/-!
# Listing a directory

`f_ReadDir` should number the entries of a directory, and the names listed should be the
names that `f_Lookup` finds.  No driver does that for any directory:

* `FAT_read_dir` returns `NULL` where an entry was read and a handle where none was;
* the first file of the virtual directory is the directory itself;
* `DEV_lookup` compares names up to the length of the shorter one.
-/

set_option autoImplicit false

namespace LakeOS.Analysis

open LakeOS.Library LakeOS.Model

/-- `readDir` lists the entries of a directory, and `lookup` finds exactly the names
listed. -/
structure EnumerationMatches {ν : Type} (entries : List ν) (readDir : ℕ → Option ν)
    (nodeName : ν → CString) (lookup : CString → Option ν) : Prop where
  entry : ∀ n < 2 ^ 32, readDir n = entries[n]?
  names : ∀ name, (∃ n < 2 ^ 32, ∃ node, readDir n = some node ∧ nodeName node = name) ↔
    (lookup name).isSome

section

variable {ν : Type} {entries : List ν} {readDir : ℕ → Option ν} {nodeName : ν → CString}
  {lookup : CString → Option ν}

/-- The entries that a listing returns begin at `0` and leave no gap. -/
theorem EnumerationMatches.isSome_zero (h : EnumerationMatches entries readDir nodeName lookup)
    {n : ℕ} (hn : n < 2 ^ 32) (hsome : (readDir n).isSome) : (readDir 0).isSome := by
  rw [h.entry n hn] at hsome
  rw [h.entry 0 (Nat.two_pow_pos 32)]
  rw [isSome_getElem?] at *
  omega

end

/-! ## FAT -/

section

variable {ctx : FatContext} {d : Disk} {dir : FatHandle} {entries : List FatHandle}

/-- A directory: the root, or one that begins a chain of clusters. -/
def FatDirectory (ctx : FatContext) (d : Disk) (dir : FatHandle) : Prop :=
  dir.startCluster < 2 ∨ ∃ cs, FatChain ctx d (dir.startCluster :: cs)

/-- The first entry of a directory is read. -/
theorem fatDirEntry_zero (h : FatLayout ctx) (hdir : FatDirectory ctx d dir) (junk : Uninit) :
    ∃ entry, fatDirEntry ctx junk dir.startCluster 0 d = some (0, some entry) := by
  have hzero : mul32 0 sizeofShortDirEntry = 0 := rfl
  rcases hdir with hroot | ⟨cs, hchain⟩
  · obtain ⟨hpos, hlt⟩ := h.rootDir_pos
    rw [fatDirEntry, hzero, fatAbsoluteOffset, if_pos hroot]
    simp only [Nat.not_lt_zero, if_false, Option.map_some]
    rw [add32_eq (by omega), Nat.add_zero, if_pos hpos.ne']
    exact ⟨_, rfl⟩
  · have hinside := fatAbsoluteOffset_inside h hchain
      (Nat.mul_pos (Nat.succ_pos _) h.bytesPClus_pos)
    rw [Nat.zero_div, Nat.zero_mod, Nat.add_zero, List.getD_cons_zero] at hinside
    rw [fatDirEntry, hzero, hinside, Option.map_some, if_pos (h.clusterStart_pos _).ne']
    exact ⟨_, rfl⟩

/-- Some entry lies behind the end, and reading it fails with a number that is not `0`. -/
theorem fatDirEntry_past (h : FatLayout ctx) (hdir : FatDirectory ctx d dir)
    (hsector : ctx.bootSector.bytesPerSector ∈ [512, 1024, 2048, 4096]) (junk : Uninit)
    (hjunk : junk.lastFreeCluster ≠ 0) :
    ∃ n < 2 ^ 32, ∃ fail, fail ≠ 0 ∧
      fatDirEntry ctx junk dir.startCluster n d = some (fail, none) := by
  have hbps : 512 ≤ ctx.bootSector.bytesPerSector ∧ ctx.bootSector.bytesPerSector ≤ 4096 := by
    simp only [List.mem_cons, List.not_mem_nil, or_false] at hsector
    omega
  rcases hdir with hroot | ⟨cs, hchain⟩
  · refine ⟨ctx.bootSector.bytesPerSector + 1, by omega, junk.lastFreeCluster, hjunk, ?_⟩
    rw [fatDirEntry, mul32_eq (by unfold sizeofShortDirEntry; omega), fatAbsoluteOffset,
      if_pos hroot]
    dsimp only
    rw [mul32_eq (by omega), if_pos (by unfold sizeofShortDirEntry; omega)]
    rfl
  · -- the chain is shorter than the volume
    have hbytes : (dir.startCluster :: cs).length * ctx.bytesPClus + 512 ≤ 2 ^ 32 := by
      have hlen := hchain.bytes_le
      have hreserved := Nat.le_mul_of_pos_left ctx.bootSector.bytesPerSector h.reserved
      have htables := h.tables
      have hdata := h.data
      have hvolume := h.volume
      unfold fatStart at htables
      omega
    generalize hend : (dir.startCluster :: cs).length * ctx.bytesPClus = size at hbytes
    obtain ⟨last, hlast, hpast⟩ := fatAbsoluteOffset_past h hchain
      (show _ ≤ (size + 31) / 32 * 32 by omega)
    refine ⟨(size + 31) / 32, by omega, last, by omega, ?_⟩
    rw [fatDirEntry, mul32_eq (by unfold sizeofShortDirEntry; omega)]
    unfold sizeofShortDirEntry
    rw [hpast]
    rfl

/-- **FAT directories are listed the wrong way round.** -/
theorem fat_not_enumerationMatches (h : FatLayout ctx) (hdir : FatDirectory ctx d dir)
    (hsector : ctx.bootSector.bytesPerSector ∈ [512, 1024, 2048, 4096]) (junk : Uninit)
    (hjunk : junk.lastFreeCluster ≠ 0) :
    ¬ EnumerationMatches entries (fun n => (fatReadDir ctx junk dir n d).join) fatHandleName
      (fun name => (fatLookup ctx junk dir name d).join) := by
  intro hmatches
  obtain ⟨n, hn, fail, hfail, hpast⟩ := fatDirEntry_past h hdir hsector junk hjunk
  obtain ⟨entry, hfirst⟩ := fatDirEntry_zero h hdir junk
  have hsome : ((fatReadDir ctx junk dir n d).join).isSome := by
    rw [fatReadDir, hpast, Option.map_some, if_neg hfail]
    rfl
  have hzero := hmatches.isSome_zero hn hsome
  rw [fatReadDir, hfirst] at hzero
  cases hzero

end

/-! ## Virtual files -/

/-- **The listing of the virtual directory begins with the directory.** -/
theorem vfm_not_enumerationMatches (names : List CString) (wild : VfmNode → Option VfmNode)
    (wildName : ℕ → CString) :
    ¬ EnumerationMatches ((List.range names.length).map VfmNode.file)
      (vfmReadDir names wild .root) (vfmNodename names wildName) (vfmLookup names .root) := by
  intro hmatches
  have hzero := hmatches.entry 0 (Nat.two_pow_pos 32)
  have hroot : VfmNode.root ∈ (List.range names.length).map VfmNode.file :=
    List.mem_of_getElem? hzero.symm
  simp at hroot

/-! ## Device files -/

section

variable {names : List CString} {n : ℕ}

/-- The loop stops at `n` or at the last file. -/
theorem devReaddirLoop_eq {fuel i : ℕ} (hi : i < names.length) (hn : n ≤ i + fuel) (hle : i ≤ n) :
    devReaddirLoop names n fuel i = min n (names.length - 1) := by
  induction fuel generalizing i with
  | zero =>
      rw [devReaddirLoop]
      omega
  | succ fuel ih =>
      rw [devReaddirLoop]
      split
      next hmore => exact ih hmore.1 (by omega) (by omega)
      next hstop => omega

/-- Device files are listed in order. -/
theorem devReaddir_eq (hne : names ≠ []) : devReaddir names n = (List.range names.length)[n]? := by
  have hpos := List.length_pos_iff.mpr hne
  rw [devReaddir, devReaddirLoop_eq hpos (by omega) (Nat.zero_le n)]
  by_cases hn : n < names.length
  · rw [List.getElem?_range hn]
    have hmin : min n (names.length - 1) = n := by omega
    simp [hmin]
  · rw [List.getElem?_eq_none (by simpa using hn)]
    exact if_pos (by omega)

/-- A file whose name compares equal is found. -/
theorem devLookup_isSome {name : CString} {i : ℕ} (hi : i < names.length)
    (hcmp : strcmp (names.getD i []) name = 0) : (devLookup names name).isSome := by
  rw [devLookup, List.find?_isSome]
  exact ⟨i, List.mem_range.mpr hi, by simpa using hcmp⟩

/-- **Device files are found under names that none of them has.** -/
theorem dev_not_enumerationMatches (hne : names ≠ []) :
    ¬ EnumerationMatches (List.range names.length) (devReaddir names) (devNodename names)
      (devLookup names) := by
  intro hmatches
  -- every name found is the name of a file
  have hnames : ∀ name, (devLookup names name).isSome → name ∈ names := by
    intro name hfound
    obtain ⟨n, -, node, hnode, rfl⟩ := (hmatches.names name).mpr hfound
    rw [devReaddir_eq hne] at hnode
    have hlt : node < names.length := List.mem_range.mp (List.mem_of_getElem? hnode)
    rw [devNodename, List.getD_eq_getElem _ _ hlt]
    exact List.getElem_mem hlt
  have hpos := List.length_pos_iff.mpr hne
  have hempty : [] ∈ names := hnames [] (devLookup_isSome hpos (strcmp_nil_right _))
  obtain ⟨i, hi, hget⟩ := List.mem_iff_getElem.mp hempty
  -- a name that is longer than all others
  have hlong := hnames (List.replicate ((names.map List.length).sum + 1) 0)
    (devLookup_isSome hi (by rw [List.getD_eq_getElem _ _ hi, hget]; exact strcmp_nil_left _))
  have hle := List.single_le_sum (fun _ _ => Nat.zero_le _) _
    (List.mem_map_of_mem (f := List.length) hlong)
  rw [List.length_replicate] at hle
  omega

end

/-! ## All drivers -/

/-- **No directory is listed as it is looked up**: for FAT as soon as the uninitialised
number is not `0`, for virtual files and device files always. -/
theorem enumeration_never_matches (ctx : FatContext) (d : Disk) (dir : FatHandle)
    (entries : List FatHandle) (names : List CString) (hlayout : FatLayout ctx)
    (hsector : ctx.bootSector.bytesPerSector ∈ [512, 1024, 2048, 4096])
    (hdir : FatDirectory ctx d dir) :
    (¬ ∀ junk : Uninit, EnumerationMatches entries
        (fun n => (fatReadDir ctx junk dir n d).join) fatHandleName
        (fun name => (fatLookup ctx junk dir name d).join)) ∧
    (∀ (wild : VfmNode → Option VfmNode) (wildName : ℕ → CString),
      ¬ EnumerationMatches ((List.range names.length).map VfmNode.file)
        (vfmReadDir names wild .root) (vfmNodename names wildName) (vfmLookup names .root)) ∧
    (names ≠ [] →
      ¬ EnumerationMatches (List.range names.length) (devReaddir names) (devNodename names)
        (devLookup names)) :=
  ⟨fun hall =>
    fat_not_enumerationMatches hlayout hdir hsector ⟨1, []⟩ one_ne_zero (hall ⟨1, []⟩),
   vfm_not_enumerationMatches names, dev_not_enumerationMatches⟩

/-- `STDOUT`. -/
def stdoutName : CString := [0x53, 0x54, 0x44, 0x4F, 0x55, 0x54]

/-- The root directory of an empty floppy disk, and the devices when only `STDOUT` is
there. -/
theorem enumeration_never_matches_floppy :
    (¬ ∀ junk : Uninit, EnumerationMatches []
        (fun n => (fatReadDir floppy junk fatGetRoot n fun _ => 0).join) fatHandleName
        (fun name => (fatLookup floppy junk fatGetRoot name fun _ => 0).join)) ∧
      ¬ EnumerationMatches (List.range 1) (devReaddir [stdoutName]) (devNodename [stdoutName])
        (devLookup [stdoutName]) := by
  obtain ⟨hfat, -, hdev⟩ := enumeration_never_matches floppy (fun _ => 0) fatGetRoot []
    [stdoutName] floppy_layout (by simp [floppy]) (.inl (by decide))
  exact ⟨hfat, hdev (by simp)⟩

/-- A virtual directory with one file, `STDOUT`: its entry `0` is the directory. -/
theorem vfm_first_entry_is_root :
    vfmReadDir [stdoutName] (fun _ => none) .root 0 = some .root ∧
      ¬ EnumerationMatches ((List.range 1).map VfmNode.file)
        (vfmReadDir [stdoutName] (fun _ => none) .root)
        (vfmNodename [stdoutName] fun _ => []) (vfmLookup [stdoutName] .root) := by
  refine ⟨rfl, fun hmatches => ?_⟩
  have hzero := hmatches.entry 0 (by decide)
  exact absurd hzero (by decide)

end LakeOS.Analysis
