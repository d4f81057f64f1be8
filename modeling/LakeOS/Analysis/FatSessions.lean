import LakeOS.Analysis.DirMap
import LakeOS.Analysis.FatAppend
import LakeOS.Model.FatClose

/-!
# Files that are closed and opened again

What is left of a file when it is closed: `FAT_upd_entry` stores the size in the first entry with
the cluster of the file, erased entries included.  When that is the entry of the file, the file
has its size and its bytes when it is opened by its name again, and otherwise it has its old size.
-/

set_option autoImplicit false

namespace LakeOS.Analysis

open LakeOS.Library LakeOS.Model

/-! ## The fields of an entry -/

section entry

variable {entry field : List Byte} {off : ℕ}

theorem getElem?_setEntryField (h : off + field.length ≤ entry.length) {i : ℕ}
    (hi : i < off ∨ off + field.length ≤ i) : (setEntryField entry off field)[i]? = entry[i]? := by
  rw [setEntryField, List.append_assoc]
  rcases hi with hi | hi
  · rw [List.getElem?_append_left (by rw [List.length_take]; omega), List.getElem?_take_of_lt hi]
  · have hoff : (entry.take off).length = off := by rw [List.length_take]; omega
    rw [List.getElem?_append_right (by omega), List.getElem?_append_right (by omega),
      List.getElem?_drop, hoff]
    congr 1
    omega

/-- The field that is set. -/
theorem entryField_setEntryField (field : List Byte) (h : off + field.length ≤ entry.length) :
    entryField (setEntryField entry off field) off field.length = leValue field := by
  have hoff : (entry.take off).length = off := by rw [List.length_take]; omega
  rw [entryField, setEntryField, List.append_assoc, List.drop_append_of_le_length hoff.ge,
    List.drop_of_length_le hoff.le, List.nil_append, List.take_left]

/-- A field is what its bytes are. -/
theorem entryField_congr {entry' : List Byte} {len : ℕ}
    (h : ∀ i, off ≤ i → i < off + len → entry'[i]? = entry[i]?) :
    entryField entry' off len = entryField entry off len := by
  unfold entryField
  congr 1
  ext1 i
  rcases Nat.lt_or_ge i len with hi | hi
  · rw [List.getElem?_take_of_lt hi, List.getElem?_take_of_lt hi, List.getElem?_drop,
      List.getElem?_drop, h _ (by omega) (by omega)]
  · rw [List.getElem?_eq_none ((List.length_take_le _ _).trans hi),
      List.getElem?_eq_none ((List.length_take_le _ _).trans hi)]

variable {time : RtcTime} {file : FatFile}

theorem length_fatUpdatedEntry (time : RtcTime) (file : FatFile) (h : entry.length = 32) :
    (fatUpdatedEntry time file entry).length = 32 := by
  unfold fatUpdatedEntry
  dsimp only
  split <;> simp [setEntryField, h]

/-- The dates and the size are all that is set. -/
theorem getElem?_fatUpdatedEntry (h : entry.length = 32) {i : ℕ} (hi : UsedByte i) :
    (fatUpdatedEntry time file entry)[i]? = entry[i]? := by
  unfold UsedByte at hi
  unfold fatUpdatedEntry
  dsimp only
  split
  · rw [getElem?_setEntryField (by simp [setEntryField, h]) (by simp; omega),
      getElem?_setEntryField (by simp [setEntryField, h]) (by simp; omega),
      getElem?_setEntryField (by simp [setEntryField, h]) (by simp; omega),
      getElem?_setEntryField (by simp [h]) (by simp; omega)]
  · rw [getElem?_setEntryField (by simp [setEntryField, h]) (by simp; omega),
      getElem?_setEntryField (by simp [h]) (by simp; omega)]

theorem entryFileSize_fatUpdatedEntry (h : entry.length = 32) (hsize : file.size < 2 ^ 32) :
    entryFileSize (fatUpdatedEntry time file entry) = file.size := by
  have hset : entryFileSize (setEntryField entry 28 (leBytes 4 file.size)) = file.size := by
    have hfield := entryField_setEntryField (leBytes 4 file.size)
      (show 28 + _ ≤ entry.length by rw [length_leBytes, h])
    rw [length_leBytes, leValue_leBytes] at hfield
    exact hfield.trans (Nat.mod_eq_of_lt (by omega))
  refine Eq.trans (entryField_congr fun i hi hi' => ?_) hset
  unfold fatUpdatedEntry
  dsimp only
  split
  · rw [getElem?_setEntryField (by simp [setEntryField, h]) (by simp; omega),
      getElem?_setEntryField (by simp [setEntryField, h]) (by simp; omega),
      getElem?_setEntryField (by simp [setEntryField, h]) (by simp; omega)]
  · rw [getElem?_setEntryField (by simp [setEntryField, h]) (by simp; omega)]

end entry

/-! ## `FAT_upd_entry` -/

variable {ctx : FatContext} {d d' : Disk} {cs fs : List ℕ} {junk : Uninit} {k c : ℕ}
  {file : FatFile} {time : RtcTime} {dir : FatHandle} {name : CString}

theorem getElem?_dirSlot {o : ℕ} (ho : o < 32) :
    (dirSlot ctx cs d k)[o]? = some (d (slotStart ctx cs k + o)) := by
  rw [List.getElem?_eq_getElem (by rw [length_dirSlot]; exact ho)]
  exact congrArg some (Store.getElem_read d _ _ _ _)

/-- The first cluster that an entry names. -/
def slotCluster (ctx : FatContext) (cs : List ℕ) (d : Disk) (k : ℕ) : ℕ :=
  entryFirstClusterLow (dirSlot ctx cs d k)

/-- The first entry that names a cluster. -/
def FirstNaming (ctx : FatContext) (cs : List ℕ) (d : Disk) (c k : ℕ) : Prop :=
  slotCluster ctx cs d k = c ∧ ∀ j < k, slotCluster ctx cs d j ≠ c

/-- INTERNAL: some entry up to one that names a cluster is the first. -/
theorem exists_firstNaming (hk : slotCluster ctx cs d k = c) :
    ∃ i ≤ k, FirstNaming ctx cs d c i := by
  have hex : ∃ i, slotCluster ctx cs d i = c := ⟨k, hk⟩
  classical
  exact ⟨Nat.find hex, Nat.find_le hk, Nat.find_spec hex, fun j hj => Nat.find_min hex hj⟩

namespace SectorLayout

variable (h : SectorLayout ctx)
include h

/-- INTERNAL: the loop from an entry on that is not behind the one it stores in. -/
theorem fatUpdEntryLoop_spec (hdir : DirClusters ctx d file.parentClus cs)
    (hk : k < slotCount ctx cs) (hfirst : FirstNaming ctx cs d file.startingClus k) (n : ℕ) :
    ∀ {i fuel : ℕ} (entry : List Byte), i + n = k → n < fuel →
      fatUpdEntryLoop ctx junk time file fuel i entry d =
        some (d.write (slotStart ctx cs k) (fatUpdatedEntry time file (dirSlot ctx cs d k))) := by
  have hcount := h.slotCount_lt hdir
  induction n with
  | zero =>
    intro i fuel entry hi hfuel
    obtain ⟨fuel, rfl⟩ := Nat.exists_eq_succ_of_ne_zero (by omega : fuel ≠ 0)
    rw [Nat.add_zero] at hi
    subst hi
    obtain ⟨-, x, hoff⟩ := h.slot_offset hdir hk
    have hhere : file.startingClus = entryFirstClusterLow (dirSlot ctx cs d i) := hfirst.1.symm
    rw [fatUpdEntryLoop, h.fatDirEntry_slot hdir hk, Option.bind_eq_bind, Option.bind_some]
    dsimp only
    rw [Option.getD_some, if_pos hhere, hoff]
    rfl
  | succ n ih =>
    intro i fuel entry hi hfuel
    obtain ⟨fuel, rfl⟩ := Nat.exists_eq_succ_of_ne_zero (by omega : fuel ≠ 0)
    have hpass : file.startingClus ≠ entryFirstClusterLow (dirSlot ctx cs d i) :=
      (hfirst.2 i (by omega)).symm
    rw [fatUpdEntryLoop, h.fatDirEntry_slot hdir (show i < slotCount ctx cs by omega),
      Option.bind_eq_bind, Option.bind_some]
    dsimp only
    rw [Option.getD_some, if_neg hpass, if_neg (by decide),
      add32_eq (by omega)]
    exact ih _ (by omega) (by omega)

/-- **`FAT_close`** stores in the first entry with the cluster of the file.
SRCLINE: fat.c:743-762, fat.c:899-903 -/
theorem fatClose_first (junk : Uninit) (time : RtcTime)
    (hdir : DirClusters ctx d file.parentClus cs) (hk : k < slotCount ctx cs)
    (hfirst : FirstNaming ctx cs d file.startingClus k) :
    fatClose ctx junk time file d =
      some (d.write (slotStart ctx cs k) (fatUpdatedEntry time file (dirSlot ctx cs d k))) := by
  have hcount := h.slotCount_lt hdir
  exact h.fatUpdEntryLoop_spec hdir hk hfirst k junk.entry (Nat.zero_add k)
    (by unfold fatFuel; omega)

/-! ## Opening by a name -/

/-- INTERNAL: `FAT_file_entry` finds the first entry of a name. -/
theorem fatFileEntry_first (dir : FatHandle) (hdir : DirClusters ctx d dir.dirCluster cs)
    (hjunk : dir.dirCluster < 2 → junk.lastFreeCluster ≠ 0) (hk : k < slotCount ctx cs)
    (hfile : FirstFileAt ctx cs d k name c) (hname : fatConvFname dir.name = fatConvFname name) :
    fatFileEntry ctx junk dir d = some (dirSlot ctx cs d k) := by
  have hcount := h.slotCount_lt hdir
  have hpos := h.slotCount_pos hdir
  obtain ⟨e, hloop, hcases⟩ := h.fatFileEntryLoop_spec hdir hjunk hfile.valid hpos
    (show slotCount ctx cs - 0 < fatFuel by unfold fatFuel; omega)
  have hentry : fatFileEntry ctx junk dir d = some e := by
    rw [fatFileEntry, h.fatDirEntry_slot hdir hpos, Option.bind_eq_bind, Option.bind_some, hname]
    exact hloop
  rw [hentry]
  obtain ⟨j, hj, rfl, hnamed, hbefore⟩ | ⟨-, hnone⟩ := hcases
  · obtain hlt | rfl | hgt := lt_trichotomy j k
    · exact absurd ⟨hfile.valid, hnamed, rfl⟩ (hfile.first j hlt _)
    · rfl
    · exact absurd hfile.isNamed (hbefore k (Nat.zero_le k) hgt)
  · exact absurd hfile.isNamed (hnone k (Nat.zero_le k) hk)

end SectorLayout

/-- `FAT_lookup` and then `FAT_open`; `none` too if the file is not found. -/
def fatReopen (ctx : FatContext) (junk : Uninit) (dir : FatHandle) (name : CString) (flags : ℕ)
    (d : Disk) : Option FatFile :=
  (fatLookup ctx junk dir name d).bind fun found =>
    found.bind fun handle => fatOpen ctx junk handle flags d

/-- **A file is opened by its name** with the size of its first entry. -/
theorem SectorLayout.fatReopen_first (h : SectorLayout ctx)
    (hdir : DirClusters ctx d dir.startCluster cs)
    (hjunk : dir.startCluster < 2 → junk.lastFreeCluster ≠ 0) (hk : k < slotCount ctx cs)
    (hfile : FirstFileAt ctx cs d k name c) (hc : c ≠ 0) (flags : ℕ) :
    fatReopen ctx junk dir name flags d =
      some ⟨c, dir.startCluster, 0, entryFileSize (dirSlot ctx cs d k), flags⟩ := by
  have hfound := h.fatFileEntry_first ⟨dir.startCluster, 0, 0, name.take 11⟩ hdir hjunk hk
    hfile (fatConvFname_take name)
  have htake : name.take 13 = name :=
    List.take_of_length_le (hfile.valid.length_le.trans (by decide))
  rw [fatReopen, fatLookup, hfound, Option.bind_eq_bind, Option.bind_some]
  rw [hfile.cluster, if_pos hc, Option.pure_def, Option.bind_some, Option.bind_some, fatOpen,
    h.fatFileEntry_first _ hdir hjunk hk hfile (by rw [htake])]
  rfl

/-! ## Closing and opening again -/

/-- The file is the one of a name: its entry is the first of the name, and the entries up to this
one lie outside of the clusters of the file. -/
structure InDirectory (ctx : FatContext) (junk : Uninit) (dir : FatHandle) (cs fs : List ℕ)
    (name : CString) (k : ℕ) (file : FatFile) (d : Disk) : Prop where
  clusters : DirClusters ctx d dir.startCluster cs
  root : dir.startCluster < 2 → junk.lastFreeCluster ≠ 0
  slot : k < slotCount ctx cs
  first : FirstFileAt ctx cs d k name file.startingClus
  cluster : file.startingClus ≠ 0
  parent : file.parentClus = dir.startCluster
  chain : FatChain ctx d (file.startingClus :: fs)
  fits : file.size ≤ (file.startingClus :: fs).length * ctx.bytesPClus
  outside : ∀ j ≤ k, ∀ x, slotStart ctx cs j ≤ x → x < slotStart ctx cs j + 32 →
    ¬ InClusters ctx (file.startingClus :: fs) x

/-- The bytes of a file. -/
def fileBytes (ctx : FatContext) (file : FatFile) (fs : List ℕ) (d : Disk) : List Byte :=
  (chainBytes ctx d (file.startingClus :: fs)).take file.size

/-- Opened by its name, the file has these bytes: its size is their number, and a sequence of reads
gets them from the first on. -/
def OpensWith (ctx : FatContext) (junk : Uninit) (dir : FatHandle) (name : CString)
    (bytes : List Byte) (d : Disk) : Prop :=
  ∀ flags lens, hasFlag flags fatFileRead → lens.sum ≤ bytes.length →
    ∃ file, fatReopen ctx junk dir name flags d = some file ∧ file.size = bytes.length ∧
      fatReads ctx file lens d = some (bytes.take lens.sum)

namespace InDirectory

variable (hin : InDirectory ctx junk dir cs fs name k file d)
include hin

theorem size_lt (h : SectorLayout ctx) : file.size < 2 ^ 32 := by
  have hbytes := hin.chain.bytes_le
  have hvolume := h.volume
  have hfits := hin.fits
  omega

omit hin in
theorem length_fileBytes (hfits : file.size ≤ (file.startingClus :: fs).length * ctx.bytesPClus) :
    (fileBytes ctx file fs d).length = file.size := by
  rw [fileBytes, List.length_take, length_chainBytes]
  exact Nat.min_eq_left hfits

/-- **An entry is updated.**  The file stays the one of the name, with the same bytes. -/
theorem store (h : SectorLayout ctx) {i : ℕ} (hi : i ≤ k) {entry : List Byte}
    (hlength : entry.length = 32)
    (hused : ∀ o, UsedByte o → entry[o]? = (dirSlot ctx cs d i)[o]?) :
    InDirectory ctx junk dir cs fs name k file (d.write (slotStart ctx cs i) entry) ∧
      fileBytes ctx file fs (d.write (slotStart ctx cs i) entry) = fileBytes ctx file fs d ∧
      ∀ j ≤ k, dirSlot ctx cs (d.write (slotStart ctx cs i) entry) j =
        if j = i then entry else dirSlot ctx cs d j := by
  have hslot := hin.slot
  have hother : ∀ x, x < slotStart ctx cs i ∨ slotStart ctx cs i + 32 ≤ x →
      d.write (slotStart ctx cs i) entry x = d x := by
    intro x hx
    exact Store.write_of_notMem d entry (by rw [hlength]; omega)
  have htables : ∀ x, InTables ctx x → d.write (slotStart ctx cs i) entry x = d x := by
    intro x hx
    refine hother x (.inl (Nat.lt_of_not_le fun hle => ?_))
    exact h.slot_not_inTables hle hx
  have hgets : ∀ {gs : List ℕ}, FatChain ctx d gs →
      FatChain ctx (d.write (slotStart ctx cs i) entry) gs := fun hgs =>
    hgs.congr fun e he => fatGetEntry_of_tables h.toFatLayout htables (hgs.2 e he)
  have hslots : ∀ j ≤ k, dirSlot ctx cs (d.write (slotStart ctx cs i) entry) j =
      if j = i then entry else dirSlot ctx cs d j := by
    intro j hj
    split
    next heq =>
      have hread := Store.read_write_self d (slotStart ctx cs i) entry
      rw [hlength] at hread
      rw [heq]
      exact hread
    next hne =>
      refine Store.read_write_disjoint d entry ?_
      rw [hlength]
      exact h.slots_apart hin.clusters (by omega) (by omega) hne
  have hbytes : ∀ j ≤ k, ∀ o, UsedByte o →
      d.write (slotStart ctx cs i) entry (slotStart ctx cs j + o) = d (slotStart ctx cs j + o) := by
    intro j hj o ho
    have hlt : o < 32 := by unfold UsedByte at ho; omega
    have hsame : (dirSlot ctx cs (d.write (slotStart ctx cs i) entry) j)[o]? =
        (dirSlot ctx cs d j)[o]? := by
      rw [hslots j hj]
      split
      next heq => rw [heq, hused o ho]
      next => rfl
    rw [getElem?_dirSlot hlt, getElem?_dirSlot hlt] at hsame
    exact Option.some.inj hsame
  have hfiles : ∀ j ≤ k, ∀ c', FileAt ctx cs (d.write (slotStart ctx cs i) entry) j name c' ↔
      FileAt ctx cs d j name c' := fun j hj c' => FileAt.congr (hbytes j hj)
  have hkept : ∀ e ∈ file.startingClus :: fs, ∀ x, clusterStart ctx e ≤ x →
      x < clusterStart ctx e + ctx.bytesPClus →
        d.write (slotStart ctx cs i) entry x = d x := by
    intro e he x hx hx'
    refine hother x ?_
    by_contra hbetween
    exact hin.outside i hi x (by omega) (by omega) ⟨e, he, hx, hx'⟩
  refine ⟨⟨?_, hin.root, hslot, ⟨(hfiles k le_rfl _).mpr hin.first.toFileAt, ?_⟩, hin.cluster,
    hin.parent, hgets hin.chain, hin.fits, hin.outside⟩, ?_, hslots⟩
  · exact hin.clusters.imp id fun hchain => ⟨hchain.1, hgets hchain.2⟩
  · intro j hj c' hfile
    exact hin.first.first j hj c' ((hfiles j hj.le c').mp hfile)
  · rw [fileBytes, fileBytes, chainBytes_congr hkept]

/-- **The file is opened by its name** with the size in its entry. -/
theorem reopen (h : SectorLayout ctx) (flags : ℕ) :
    fatReopen ctx junk dir name flags d =
      some ⟨file.startingClus, dir.startCluster, 0, entryFileSize (dirSlot ctx cs d k), flags⟩ :=
  h.fatReopen_first hin.clusters hin.root hin.slot hin.first hin.cluster flags

/-- With the size of the file in its entry the file is opened with its bytes, and only then. -/
theorem opensWith_iff (h : SectorLayout ctx) :
    OpensWith ctx junk dir name (fileBytes ctx file fs d) d ↔
      entryFileSize (dirSlot ctx cs d k) = file.size := by
  have hlength := length_fileBytes (d := d) hin.fits
  constructor
  · intro hopens
    obtain ⟨file', hfile', hsize, -⟩ := hopens 1 [] rfl (Nat.zero_le _)
    rw [hin.reopen h, Option.some.injEq] at hfile'
    rw [← hlength, ← hsize, ← hfile']
  · intro hsize flags lens hreads hlens
    rw [hlength] at hlens
    refine ⟨_, hin.reopen h flags, by rw [hlength]; exact hsize, ?_⟩
    have happended : Appended ctx d
        ⟨file.startingClus, dir.startCluster, 0, entryFileSize (dirSlot ctx cs d k), flags⟩ d fs
        (fileBytes ctx file fs d) := by
      refine ⟨hin.chain, ?_, ?_, fun _ _ _ => rfl⟩
      · rw [hsize]
        exact hin.fits
      · rw [hsize]
        rfl
    have hread := fatReads_inside h.toFatLayout hreads happended
      (show 0 + lens.sum ≤ entryFileSize (dirSlot ctx cs d k) by rw [hsize]; omega)
    rwa [List.drop_zero] at hread

end InDirectory

/-- **When a file survives being closed.**  Closed and opened by its name again, the file has its
size and its bytes exactly when no entry before its own has its cluster, or when its size is the
one that its entry has already.
SRCLINE: fat.c:743-762, fat.c:812-835, fat.c:876-903, fat.c:945-981 -/
theorem fatClose_opensWith_iff (h : SectorLayout ctx)
    (hin : InDirectory ctx junk dir cs fs name k file d) (time : RtcTime) :
    ∃ d', fatClose ctx junk time file d = some d' ∧
      (OpensWith ctx junk dir name (fileBytes ctx file fs d) d' ↔
        (∀ j < k, slotCluster ctx cs d j ≠ file.startingClus) ∨
          entryFileSize (dirSlot ctx cs d k) = file.size) := by
  have hsize := hin.size_lt h
  obtain ⟨i, hi, hnaming⟩ := exists_firstNaming hin.first.cluster
  have hdir : DirClusters ctx d file.parentClus cs := by rw [hin.parent]; exact hin.clusters
  have hclose := h.fatClose_first junk time hdir
    (hi.trans_lt hin.slot) hnaming
  obtain ⟨hin', hbytes, hslots⟩ := hin.store h hi
    (length_fatUpdatedEntry time file (length_dirSlot ctx cs d i))
    fun o ho => getElem?_fatUpdatedEntry (length_dirSlot ctx cs d i) ho
  refine ⟨_, hclose, ?_⟩
  rw [← hbytes, hin'.opensWith_iff h, hslots k le_rfl]
  by_cases heq : k = i
  · -- the entry of the file is updated
    subst heq
    rw [if_pos rfl]
    exact iff_of_true (entryFileSize_fatUpdatedEntry (length_dirSlot ctx cs d k) hsize)
      (.inl hnaming.2)
  · -- another one is
    rw [if_neg heq]
    refine ⟨.inr, fun hor => hor.resolve_left fun hnone => ?_⟩
    exact hnone i (by omega) hnaming.1

/-! ## Sessions -/

/-- What is done with an open file before it is closed. -/
structure FatSession where
  time : RtcTime
  flags : ℕ
  datas : List (List Byte)

/-- The file is opened by its name, written to and closed. -/
def FatSession.run (ctx : FatContext) (junk : Uninit) (dir : FatHandle) (name : CString)
    (s : FatSession) (d : Disk) : Option Disk :=
  (fatReopen ctx junk dir name s.flags d).bind fun file =>
    (fatWrites ctx file s.datas d).bind fun res => fatClose ctx junk s.time res.2.1 res.2.2

/-- One session after the other. -/
def fatSessions (ctx : FatContext) (junk : Uninit) (dir : FatHandle) (name : CString) :
    List FatSession → Disk → Option Disk
  | [], d => some d
  | s :: rest, d => (s.run ctx junk dir name d).bind (fatSessions ctx junk dir name rest)

/-- Between two sessions: the file is in the root directory, its entry is the first with its
cluster and has its size. -/
structure AtRest (ctx : FatContext) (junk : Uninit) (dir : FatHandle) (fs : List ℕ)
    (name : CString) (k : ℕ) (file : FatFile) (d : Disk) : Prop
    extends InDirectory ctx junk dir [] fs name k file d where
  before : slotStart ctx [] k + 32 ≤ ctx.dataRegionStart
  alone : ∀ j < k, slotCluster ctx [] d j ≠ file.startingClus
  size : entryFileSize (dirSlot ctx [] d k) = file.size

theorem freeClusters_of_tables (h : FatLayout ctx) (hsame : ∀ x, InTables ctx x → d' x = d x) :
    freeClusters ctx d' = freeClusters ctx d := by
  ext e
  rw [mem_freeClusters, mem_freeClusters]
  exact and_congr_right fun he => by rw [fatGetEntry_of_tables h hsame he]

/-- INTERNAL: a sequence of writes takes no more clusters than it needs. -/
theorem fatWrites_taken (h : FatLayout ctx) (hfields : FieldsFit ctx) {d₀ : Disk}
    {old : List Byte} {datas : List (List Byte)} (hwrites : hasFlag file.flags fatFileWrite)
    (ha : Appended ctx d₀ file d fs old)
    (hfree : clustersTakenBy ctx file.size datas ≤ (freeClusters ctx d).card) :
    ∃ d' fs', fatWrites ctx file datas d =
        some (datas.map List.length, { file with size := file.size + datas.flatten.length }, d') ∧
      Appended ctx d₀ { file with size := file.size + datas.flatten.length } d' fs'
        (old ++ datas.flatten) ∧
      (freeClusters ctx d).card ≤
        (freeClusters ctx d').card + clustersTakenBy ctx file.size datas := by
  induction datas generalizing file d fs old with
  | nil =>
    rw [List.flatten_nil, List.append_nil]
    exact ⟨d, fs, rfl, ha, Nat.le_add_right _ _⟩
  | cons data datas ih =>
    rw [clustersTakenBy] at hfree ⊢
    obtain ⟨d₁, fs₁, hrun, ha₁, -, hcard⟩ := fatWrite_append h hwrites ha data
      (fun _ => hfields) (by omega)
    obtain ⟨d', fs', hruns, ha', hcard'⟩ := ih (by exact hwrites) ha₁ (by dsimp only; omega)
    dsimp only at hruns ha' hcard'
    rw [Nat.add_assoc, ← List.length_append, ← List.flatten_cons] at hruns ha'
    rw [List.append_assoc, ← List.flatten_cons] at ha'
    refine ⟨d', fs', ?_, ha', by omega⟩
    rw [fatWrites, hrun, Option.bind_some, hruns]
    rfl

/-- INTERNAL: the clusters for one sequence of writes after another. -/
theorem clustersTakenBy_append (xs ys : List (List Byte)) (size : ℕ) :
    clustersTakenBy ctx size (xs ++ ys) =
      clustersTakenBy ctx size xs + clustersTakenBy ctx (size + xs.flatten.length) ys := by
  induction xs generalizing size with
  | nil => simp [clustersTakenBy]
  | cons x xs ih =>
    simp only [List.cons_append, clustersTakenBy, ih, List.flatten_cons, List.length_append,
      Nat.add_assoc]

namespace AtRest

variable (hrest : AtRest ctx junk dir fs name k file d)
include hrest

omit hrest in
/-- INTERNAL: the entries of the root directory up to one lie in front of the clusters. -/
theorem root_outside (hbefore : slotStart ctx [] k + 32 ≤ ctx.dataRegionStart) {j : ℕ}
    (hj : j ≤ k) {x : ℕ} (hx : x < slotStart ctx [] j + 32) (gs : List ℕ) :
    ¬ InClusters ctx gs x := by
  rintro ⟨e, -, hle, -⟩
  have hstart := clusterStart_ge ctx e
  have hmono : slotStart ctx [] j ≤ slotStart ctx [] k := by
    unfold slotStart sizeofShortDirEntry
    simp only [if_pos]
    omega
  omega

/-- INTERNAL: writes leave the entries as they are. -/
theorem written (h : SectorLayout ctx) {d' : Disk} {fs' : List ℕ} {file' : FatFile}
    {bytes : List Byte} (ha : Appended ctx d file' d' fs' bytes)
    (hstart : file'.startingClus = file.startingClus) (hparent : file'.parentClus = file.parentClus) :
    InDirectory ctx junk dir [] fs' name k file' d' ∧
      ∀ j ≤ k, dirSlot ctx [] d' j = dirSlot ctx [] d j := by
  have hread : ∀ j ≤ k, ∀ x, slotStart ctx [] j ≤ x → x < slotStart ctx [] j + 32 → d' x = d x :=
    fun j hj x hx hx' =>
      ha.frame x (h.slot_not_inTables hx) (root_outside hrest.before hj hx' _)
  have hfiles : ∀ j ≤ k, ∀ c', FileAt ctx [] d' j name c' ↔ FileAt ctx [] d j name c' := by
    intro j hj c'
    refine FileAt.congr fun o ho => hread j hj _ (Nat.le_add_right _ _) ?_
    unfold UsedByte at ho
    omega
  refine ⟨⟨?_, hrest.root, hrest.slot, ⟨?_, ?_⟩, ?_, hparent.trans hrest.parent, ha.chain, ha.fits,
    fun j hj x _ hx => root_outside hrest.before hj hx _⟩, ?_⟩
  · exact hrest.clusters.imp id fun hchain => absurd rfl hchain.2.1.ne_nil
  · rw [hstart]
    exact (hfiles k le_rfl _).mpr hrest.first.toFileAt
  · intro j hj c' hfile
    exact hrest.first.first j hj c' ((hfiles j hj.le c').mp hfile)
  · rw [hstart]
    exact hrest.cluster
  · exact fun j hj => Store.read_congr fun x hx hx' => hread j hj x hx hx'

/-- **One session.**  The file grows by what is written, and is at rest again. -/
theorem session (h : SectorLayout ctx) (hfields : FieldsFit ctx) (s : FatSession)
    (hwrites : hasFlag s.flags fatFileWrite)
    (hfree : clustersTakenBy ctx file.size s.datas ≤ (freeClusters ctx d).card) :
    ∃ fs' file' d', s.run ctx junk dir name d = some d' ∧
      AtRest ctx junk dir fs' name k file' d' ∧
      file'.size = file.size + s.datas.flatten.length ∧
      fileBytes ctx file' fs' d' = fileBytes ctx file fs d ++ s.datas.flatten ∧
      (freeClusters ctx d).card ≤
        (freeClusters ctx d').card + clustersTakenBy ctx file.size s.datas := by
  have hopen := hrest.reopen h s.flags
  rw [hrest.size] at hopen
  have ha : Appended ctx d ⟨file.startingClus, dir.startCluster, 0, file.size, s.flags⟩ d fs
      (fileBytes ctx file fs d) := ⟨hrest.chain, hrest.fits, rfl, fun _ _ _ => rfl⟩
  obtain ⟨d₁, fs', hrun, ha₁, hcard⟩ := fatWrites_taken h.toFatLayout hfields hwrites ha hfree
  generalize hfile' : FatFile.mk file.startingClus dir.startCluster 0
    (file.size + s.datas.flatten.length) s.flags = file' at hrun ha₁
  have hstart : file'.startingClus = file.startingClus := by rw [← hfile']
  have hparent : file'.parentClus = dir.startCluster := by rw [← hfile']
  obtain ⟨hin₁, hslots₁⟩ := hrest.written h ha₁ hstart (hparent.trans hrest.parent.symm)
  -- the entry is still the first with the cluster
  have hnaming : FirstNaming ctx [] d₁ file'.startingClus k := by
    refine ⟨hin₁.first.cluster, fun j hj => ?_⟩
    rw [slotCluster, hslots₁ j hj.le, hstart]
    exact hrest.alone j hj
  have hclose := h.fatClose_first junk s.time
    (show DirClusters ctx d₁ file'.parentClus [] by rw [hparent]; exact hin₁.clusters)
    hin₁.slot hnaming
  obtain ⟨hin₂, hbytes, hslots₂⟩ := hin₁.store h le_rfl
    (length_fatUpdatedEntry s.time file' (length_dirSlot ctx [] d₁ k))
    fun o ho => getElem?_fatUpdatedEntry (length_dirSlot ctx [] d₁ k) ho
  refine ⟨fs', file', _, ?_, ⟨hin₂, hrest.before, fun j hj => ?_, ?_⟩, by rw [← hfile'], ?_, ?_⟩
  · rw [FatSession.run, hopen, Option.bind_some, hrun, Option.bind_some]
    exact hclose
  · rw [slotCluster, hslots₂ j hj.le, if_neg hj.ne]
    exact hnaming.2 j hj
  · rw [hslots₂ k le_rfl, if_pos rfl]
    exact entryFileSize_fatUpdatedEntry (length_dirSlot ctx [] d₁ k) (hin₁.size_lt h)
  · exact hbytes.trans ha₁.contents
  · rw [freeClusters_of_tables (d := d₁) h.toFatLayout fun x hx =>
      Store.write_of_lt _ _ (Nat.lt_of_not_le fun hle => h.slot_not_inTables hle hx)]
    exact hcard

end AtRest

/-- **Files grow over sessions.**  However often a file of the root directory is opened, written to
and closed, in the end it is opened with what it had and all that was written, in order.
SRCLINE: fat.c:743-762, fat.c:812-835, fat.c:876-981 -/
theorem fatSessions_append (h : SectorLayout ctx) (hfields : FieldsFit ctx)
    (hrest : AtRest ctx junk dir fs name k file d) (sessions : List FatSession)
    (hwrites : ∀ s ∈ sessions, hasFlag s.flags fatFileWrite)
    (hfree : clustersTakenBy ctx file.size (sessions.flatMap FatSession.datas) ≤
      (freeClusters ctx d).card) :
    ∃ d', fatSessions ctx junk dir name sessions d = some d' ∧
      OpensWith ctx junk dir name
        (fileBytes ctx file fs d ++ (sessions.flatMap FatSession.datas).flatten) d' := by
  induction sessions generalizing fs file d with
  | nil =>
    refine ⟨d, rfl, ?_⟩
    rw [List.flatMap_nil, List.flatten_nil, List.append_nil]
    exact (hrest.opensWith_iff h).mpr hrest.size
  | cons s sessions ih =>
    rw [List.flatMap_cons, clustersTakenBy_append] at hfree
    obtain ⟨fs', file', d', hrun, hrest', hsize, hbytes, hcard⟩ :=
      hrest.session h hfields s (hwrites s List.mem_cons_self) (by omega)
    obtain ⟨d'', hruns, hopens⟩ := ih hrest'
      (fun t ht => hwrites t (List.mem_cons_of_mem s ht)) (by rw [hsize]; omega)
    refine ⟨d'', ?_, ?_⟩
    · rw [fatSessions, hrun, Option.bind_some]
      exact hruns
    · rwa [hbytes, List.append_assoc, ← List.flatten_append, ← List.flatMap_cons] at hopens

/-! A floppy disk with the empty file `A`. -/

/-- The entry of the file is the first one of the root directory. -/
def emptyFile : Disk :=
  oneCluster.write (slotStart floppy [] 0)
    (makeEntry (fatConvFname [0x41]) (fatConvAttrib 0) 0 0 2)

theorem emptyFile_slot : dirSlot floppy [] emptyFile 0 =
    makeEntry (fatConvFname [0x41]) (fatConvAttrib 0) 0 0 2 :=
  Store.read_write_self oneCluster _ _

theorem emptyFile_tables {x : ℕ} (hx : InTables floppy x) : emptyFile x = oneCluster x :=
  Store.write_of_lt _ _ (hx.2.trans_le (by decide))

theorem emptyFile_free : 2 ≤ (freeClusters floppy emptyFile).card := by
  rw [freeClusters_of_tables floppy_layout fun x hx => emptyFile_tables hx]
  exact oneCluster_free

/-- INTERNAL: a name of one character. -/
theorem validName_a : ValidName [0x41] :=
  ⟨[0x41], [], by decide, by decide, by decide, by decide, by decide, .inl ⟨rfl, rfl⟩⟩

/-- INTERNAL: the file with some bytes of its cluster. -/
theorem emptyFile_inDirectory {size : ℕ} (hsize : size ≤ 512) (flags : ℕ) :
    InDirectory floppy ⟨1, []⟩ fatGetRoot [] [] [0x41] 0 ⟨2, 0, 0, size, flags⟩ emptyFile := by
  refine ⟨.inl ⟨by decide, rfl⟩, fun _ => by decide, Nat.succ_pos _, ⟨?_, ?_⟩, Nat.succ_ne_zero 1,
    rfl, ?_, hsize.trans (show 512 ≤ 1 * 512 by decide),
    fun j hj x _ hx => AtRest.root_outside (by decide) hj hx _⟩
  · exact (fileAt_makeEntry validName_a (by decide) emptyFile_slot).mpr ⟨validName_a, rfl, rfl⟩
  · exact fun j hj => absurd hj (Nat.not_lt_zero j)
  · exact oneCluster_chain.congr fun c hc =>
      fatGetEntry_of_tables floppy_layout (fun x hx => emptyFile_tables hx) (oneCluster_chain.2 c hc)

theorem emptyFile_size : entryFileSize (dirSlot floppy [] emptyFile 0) = 0 := by
  rw [emptyFile_slot]
  decide

theorem emptyFile_atRest : AtRest floppy ⟨1, []⟩ fatGetRoot [] [0x41] 0 ⟨2, 0, 0, 0, 2⟩ emptyFile :=
  ⟨emptyFile_inDirectory (Nat.zero_le 512) 2, by decide, fun j hj => absurd hj (Nat.not_lt_zero j),
    emptyFile_size⟩

/-- Three bytes of the cluster are in the file when it is closed. -/
theorem fatClose_opensWith_floppy :
    ∃ d', fatClose floppy ⟨1, []⟩ firstOfJanuary ⟨2, 0, 0, 3, 2⟩ emptyFile = some d' ∧
      (OpensWith floppy ⟨1, []⟩ fatGetRoot [0x41]
          (fileBytes floppy ⟨2, 0, 0, 3, 2⟩ [] emptyFile) d' ↔
        (∀ j < 0, slotCluster floppy [] emptyFile j ≠ 2) ∨
          entryFileSize (dirSlot floppy [] emptyFile 0) = 3) :=
  fatClose_opensWith_iff floppy_sectorLayout (emptyFile_inDirectory (by decide) 2) firstOfJanuary

/-- More than a cluster is written, and in the next session two bytes one after the other. -/
def twoSessions : List FatSession :=
  [⟨firstOfJanuary, 2, [List.replicate 600 0x41]⟩, ⟨firstOfJanuary, 3, [[0x42], [0x43]]⟩]

theorem fatSessions_append_floppy :
    ∃ d', fatSessions floppy ⟨1, []⟩ fatGetRoot [0x41] twoSessions emptyFile = some d' ∧
      OpensWith floppy ⟨1, []⟩ fatGetRoot [0x41]
        (fileBytes floppy ⟨2, 0, 0, 0, 2⟩ [] emptyFile ++
          (twoSessions.flatMap FatSession.datas).flatten) d' := by
  refine fatSessions_append floppy_sectorLayout floppy_fields emptyFile_atRest _ ?_ ?_
  · exact List.forall_mem_cons.mpr ⟨rfl, List.forall_mem_singleton.mpr rfl⟩
  · refine Nat.le_trans ?_ emptyFile_free
    simp only [twoSessions, List.flatMap_cons, List.flatMap_nil, List.append_nil, List.cons_append,
      List.nil_append, clustersTakenBy, List.length_replicate, List.length_singleton]
    decide

end LakeOS.Analysis
