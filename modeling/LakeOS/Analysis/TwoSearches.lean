import LakeOS.Model.FatPath
import LakeOS.Analysis.DirMap
import LakeOS.Analysis.PathWalk
import LakeOS.Analysis.RootBounds

/-!
# Two searches of a directory

`FAT_file_entry` passes over an entry unless it has the name and is no volume label.
`FAT_find_file` passes over an entry only if it has another name and is a volume label, so it
returns the first entry of any file.  Both are a scan of the entries of the directory; the
scans agree where the two entries that they stop at have one first cluster.
-/

set_option autoImplicit false

namespace LakeOS.Analysis

open LakeOS.Library LakeOS.Model

/-! ## Scanning a directory -/

/-- The entries of a directory, as `FAT_dir_entry` returns them.  Behind them it fails, or, in
the root directory, starts over again. -/
structure DirListing (ctx : FatContext) (junk : Uninit) (start : ℕ) (d : Disk)
    (l : List (List Byte)) : Prop where
  entries : ∀ (i : ℕ) (h : i < l.length), fatDirEntry ctx junk start i d = some (0, some l[i])
  short : l.length < 2 ^ 31
  rest : (∃ fail entry, fail ≠ 0 ∧ fatDirEntry ctx junk start l.length d = some (fail, entry)) ∨
    l ≠ [] ∧ ∀ i, fatDirEntry ctx junk start i d = some (0, none) ∨
      ∃ e ∈ l, fatDirEntry ctx junk start i d = some (0, some e)

/-- The directory has an end. -/
def DirEnds (ctx : FatContext) (junk : Uninit) (start : ℕ) (d : Disk) (l : List (List Byte)) :
    Prop :=
  ∃ fail entry, fail ≠ 0 ∧ fatDirEntry ctx junk start l.length d = some (fail, entry)

/-- The entry that a scan stops at, `none` at the end of the directory. -/
def scanDir (ctx : FatContext) (junk : Uninit) (start : ℕ) (d : Disk) (p : List Byte → Bool) :
    (fuel i eoc : ℕ) → (entry : List Byte) → Option (Option (List Byte))
  | 0, _, _, _ => none
  | fuel + 1, i, eoc, entry =>
      if eoc ≠ 0 then some none
      else if p entry then some (some entry)
      else do
        let next ← fatDirEntry ctx junk start (add32 i 1) d
        scanDir ctx junk start d p fuel (add32 i 1) next.1 (next.2.getD entry)

/-- `FAT_file_entry` stops at the entry. -/
def isNamed (name : CString) (entry : List Byte) : Bool :=
  memcmp entry (fatConvFname name) 11 == 0 && !hasFlag (entryAttributes entry) entryAttrVolumeId

/-- `FAT_find_file` stops at the entry. -/
def stopsAt (name : CString) (entry : List Byte) : Bool :=
  memcmp entry (fatConvFname name) 11 == 0 || !hasFlag (entryAttributes entry) entryAttrVolumeId

section

variable {ctx : FatContext} {junk : Uninit} {start : ℕ} {d : Disk} {l : List (List Byte)}
  {name : CString}

/-- INTERNAL: `FAT_file_entry` is a scan.
SRCLINE: fat.c:707-717 -/
theorem fatFileEntryLoop_eq (fuel i eoc : ℕ) (entry : List Byte) :
    fatFileEntryLoop ctx junk start (fatConvFname name) d fuel i eoc entry =
      (scanDir ctx junk start d (isNamed name) fuel i eoc entry).map fun found =>
        found.getD (List.replicate sizeofShortDirEntry 0) := by
  induction fuel generalizing i eoc entry with
  | zero => rfl
  | succ fuel ih =>
      unfold fatFileEntryLoop scanDir
      by_cases heoc : eoc ≠ 0
      · simp [heoc]
      · rw [if_neg heoc, if_neg heoc]
        by_cases hnamed : isNamed name entry
        · have hstop : memcmp entry (fatConvFname name) 11 = 0 ∧
              !hasFlag (entryAttributes entry) entryAttrVolumeId := by
            simpa [isNamed] using hnamed
          rw [if_pos hstop, if_pos hnamed]
          rfl
        · have hstop : ¬ (memcmp entry (fatConvFname name) 11 = 0 ∧
              !hasFlag (entryAttributes entry) entryAttrVolumeId) := by
            simpa [isNamed] using hnamed
          rw [if_neg hstop, if_neg hnamed]
          cases fatDirEntry ctx junk start (add32 i 1) d with
          | none => rfl
          | some next => exact ih _ _ _

/-- INTERNAL: so is `FAT_find_file`.
SRCLINE: fat.c:512-523 -/
theorem fatFindFileLoop_eq (fuel i eoc : ℕ) (entry : List Byte) :
    fatFindFileLoop ctx junk start (fatConvFname name) d fuel i eoc entry =
      (scanDir ctx junk start d (stopsAt name) fuel i eoc entry).map fun found =>
        (found.map entryFirstClusterLow).getD 0xFFFFFFFF := by
  induction fuel generalizing i eoc entry with
  | zero => rfl
  | succ fuel ih =>
      unfold fatFindFileLoop scanDir
      by_cases heoc : eoc = 0
      · by_cases hstops : stopsAt name entry
        · have hstop : ¬ (eoc = 0 ∧ memcmp entry (fatConvFname name) 11 ≠ 0 ∧
              hasFlag (entryAttributes entry) entryAttrVolumeId) := by
            simp [stopsAt] at hstops
            simp [heoc]
            intro hne
            simpa [hne] using hstops
          rw [if_neg hstop, if_neg (not_not.mpr heoc), if_pos hstops]
          simp [heoc]
        · have hstop : eoc = 0 ∧ memcmp entry (fatConvFname name) 11 ≠ 0 ∧
              hasFlag (entryAttributes entry) entryAttrVolumeId := by
            simp [stopsAt] at hstops
            exact ⟨heoc, hstops.1, hstops.2⟩
          rw [if_pos hstop, if_neg (not_not.mpr heoc), if_neg hstops]
          cases fatDirEntry ctx junk start (add32 i 1) d with
          | none => rfl
          | some next => exact ih _ _ _
      · simp [heoc]

/-- INTERNAL: a scan never ends where the directory starts over again and no entry stops it. -/
theorem scanDir_repeats {p : List Byte → Bool}
    (hrest : ∀ i, fatDirEntry ctx junk start i d = some (0, none) ∨
      ∃ e ∈ l, fatDirEntry ctx junk start i d = some (0, some e))
    (hnone : ∀ e ∈ l, ¬ p e) (fuel i : ℕ) {entry : List Byte} (hentry : entry ∈ l) :
    scanDir ctx junk start d p fuel i 0 entry = none := by
  induction fuel generalizing i entry with
  | zero => rfl
  | succ fuel ih =>
      rw [scanDir, if_neg (not_not.mpr rfl), if_neg (hnone entry hentry)]
      rcases hrest (add32 i 1) with hread | ⟨e, he, hread⟩
      · rw [hread]
        exact ih _ hentry
      · rw [hread]
        exact ih _ he

/-- INTERNAL: **a scan finds** the first entry that stops it. -/
theorem scanDir_drop (h : DirListing ctx junk start d l) (p : List Byte → Bool) {k fuel : ℕ}
    (hk : k < l.length) (hfuel : l.length - k < fuel) :
    (∀ e, (l.drop k).find? p = some e →
      scanDir ctx junk start d p fuel k 0 l[k] = some (some e)) ∧
    (DirEnds ctx junk start d l → (l.drop k).find? p = none →
      scanDir ctx junk start d p fuel k 0 l[k] = some none) := by
  induction fuel generalizing k with
  | zero => omega
  | succ fuel ih =>
      have hshort := h.short
      have hnext : add32 k 1 = k + 1 := add32_eq (by omega)
      rw [List.drop_eq_getElem_cons hk, List.find?_cons, scanDir, if_neg (not_not.mpr rfl), hnext]
      by_cases hp : p l[k]
      · simp [hp]
      · rw [if_neg hp]
        simp only [hp]
        by_cases hlast : k + 1 < l.length
        · rw [h.entries (k + 1) hlast]
          exact ih hlast (by omega)
        · have hdrop : l.drop (k + 1) = [] := List.drop_eq_nil_of_le (by omega)
          rw [hdrop]
          refine ⟨by simp, ?_⟩
          rintro ⟨fail, entry, hfail, hread⟩ -
          have hlen : k + 1 = l.length := by omega
          rw [hlen, hread]
          cases fuel with
          | zero => omega
          | succ fuel =>
              show scanDir ctx junk start d p (fuel + 1) _ fail _ = _
              rw [scanDir, if_pos hfail]

/-- A whole scan, from the first entry. -/
def scanAll (ctx : FatContext) (junk : Uninit) (start : ℕ) (d : Disk) (p : List Byte → Bool) :
    Option (Option (List Byte)) := do
  let first ← fatDirEntry ctx junk start 0 d
  scanDir ctx junk start d p fatFuel 0 first.1 (first.2.getD junk.entry)

theorem scanAll_some (h : DirListing ctx junk start d l) {p : List Byte → Bool} {e : List Byte}
    (hfind : l.find? p = some e) : scanAll ctx junk start d p = some (some e) := by
  have hpos : 0 < l.length := by
    cases l with
    | nil => simp at hfind
    | cons a l => simp
  have hshort := h.short
  have hscan := (scanDir_drop h p hpos (show l.length - 0 < 2 ^ 32 by omega)).1 e
  rw [scanAll, h.entries 0 hpos]
  exact hscan (by simpa using hfind)

theorem scanAll_end (h : DirListing ctx junk start d l) {p : List Byte → Bool}
    (hends : DirEnds ctx junk start d l) (hfind : l.find? p = none) :
    scanAll ctx junk start d p = some none := by
  by_cases hpos : 0 < l.length
  · have hshort := h.short
    have hscan := (scanDir_drop h p hpos (show l.length - 0 < 2 ^ 32 by omega)).2 hends
    rw [scanAll, h.entries 0 hpos]
    exact hscan (by simpa using hfind)
  · obtain ⟨fail, entry, hfail, hread⟩ := hends
    have hlen : l.length = 0 := by omega
    rw [hlen] at hread
    rw [scanAll, hread]
    show scanDir ctx junk start d p fatFuel 0 fail _ = _
    rw [show fatFuel = (2 ^ 32 - 1) + 1 from rfl, scanDir, if_pos hfail]

theorem scanAll_endless (h : DirListing ctx junk start d l) {p : List Byte → Bool}
    (hends : ¬ DirEnds ctx junk start d l) (hfind : l.find? p = none) :
    scanAll ctx junk start d p = none := by
  rcases h.rest with hend | ⟨hne, hrest⟩
  · exact absurd hend hends
  · have hpos := List.length_pos_of_ne_nil hne
    rw [scanAll, h.entries 0 hpos]
    exact scanDir_repeats hrest (List.find?_eq_none.mp hfind) _ _ (List.getElem_mem hpos)

theorem fatFileEntry_eq (file : FatHandle) :
    fatFileEntry ctx junk file d =
      (scanAll ctx junk file.dirCluster d (isNamed file.name)).map fun found =>
        found.getD (List.replicate sizeofShortDirEntry 0) := by
  rw [fatFileEntry, scanAll]
  cases fatDirEntry ctx junk file.dirCluster 0 d with
  | none => rfl
  | some first => exact fatFileEntryLoop_eq _ _ _ _

theorem fatFindFile_eq (start : ℕ) (name : CString) :
    fatFindFile ctx junk start name d =
      (scanAll ctx junk start d (stopsAt name)).map fun found =>
        (found.map entryFirstClusterLow).getD 0xFFFFFFFF := by
  rw [fatFindFile, scanAll]
  cases fatDirEntry ctx junk start 0 d with
  | none => rfl
  | some first => exact fatFindFileLoop_eq _ _ _ _

end

/-! ## The directories of a volume -/

/-- The entries of a directory. -/
def dirSlots (ctx : FatContext) (cs : List ℕ) (d : Disk) : List (List Byte) :=
  (List.range (slotCount ctx cs)).map (dirSlot ctx cs d)

section

variable {ctx : FatContext} {junk : Uninit} {start : ℕ} {d : Disk} {cs : List ℕ}

/-- INTERNAL: the offsets of entries wrap around. -/
theorem fatDirEntry_wrap (ctx : FatContext) (junk : Uninit) (start i : ℕ) (d : Disk) :
    fatDirEntry ctx junk start i d = fatDirEntry ctx junk start (i % 2 ^ 27) d := by
  have hwrap : mul32 i sizeofShortDirEntry = mul32 (i % 2 ^ 27) sizeofShortDirEntry := by
    unfold mul32 sizeofShortDirEntry
    omega
  rw [fatDirEntry, fatDirEntry, hwrap]

/-- INTERNAL: where `last_free_cluster` is `0`, the root directory starts over again. -/
theorem fatDirEntry_repeats (h : SectorLayout ctx) (hdir : DirClusters ctx d start cs)
    (hstart : start < 2) (hjunk : junk.lastFreeCluster = 0) (i : ℕ) :
    fatDirEntry ctx junk start i d = some (0, none) ∨
      ∃ e ∈ dirSlots ctx cs d, fatDirEntry ctx junk start i d = some (0, some e) := by
  rw [fatDirEntry_wrap]
  have hlt : i % 2 ^ 27 < 2 ^ 27 := Nat.mod_lt _ (by decide)
  generalize i % 2 ^ 27 = k at hlt
  by_cases hk : k < slotCount ctx cs
  · right
    exact ⟨_, List.mem_map.mpr ⟨k, List.mem_range.mpr hk, rfl⟩, h.fatDirEntry_slot hdir hk⟩
  · left
    have hbps := h.bps_bounds
    obtain ⟨-, rfl⟩ | ⟨hhead, hchain⟩ := hdir
    · rw [slotCount, if_pos rfl] at hk
      have hsize : mul32 ctx.bootSector.bytesPerSector 32 = ctx.bootSector.bytesPerSector * 32 :=
        mul32_eq (by omega)
      have hoff : mul32 k sizeofShortDirEntry = k * 32 :=
        mul32_eq (by unfold sizeofShortDirEntry; omega)
      rw [fatDirEntry, fatAbsoluteOffset, if_pos hstart]
      dsimp only
      rw [hsize, hoff, if_pos (by omega)]
      simp [hjunk]
    · have htwo := (hchain.2 start (List.mem_of_mem_head? hhead)).1
      omega

/-- **Every directory** of a FAT12 or FAT16 volume is listed. -/
theorem dirSlots_listing (h : SectorLayout ctx) (hdir : DirClusters ctx d start cs)
    (junk : Uninit) : DirListing ctx junk start d (dirSlots ctx cs d) := by
  have hcount := h.slotCount_lt hdir
  have hlen : (dirSlots ctx cs d).length = slotCount ctx cs := by simp [dirSlots]
  refine ⟨?_, by omega, ?_⟩
  · intro i hi
    rw [h.fatDirEntry_slot hdir (by omega)]
    simp [dirSlots]
  · by_cases hzero : start < 2 ∧ junk.lastFreeCluster = 0
    · have hpos := h.slotCount_pos hdir
      right
      refine ⟨List.ne_nil_of_length_pos (by omega), ?_⟩
      exact fatDirEntry_repeats h hdir hzero.1 hzero.2
    · left
      have hjunk : start < 2 → junk.lastFreeCluster ≠ 0 := fun hlt hjunk => hzero ⟨hlt, hjunk⟩
      obtain ⟨fail, hfail, hend⟩ := h.fatDirEntry_end hdir hjunk
      exact ⟨fail, none, hfail, by rw [hlen]; exact hend⟩

end

/-! ## Where the searches agree -/

/-- `FAT_find_file` returns the first cluster of the entry that `FAT_file_entry` selects, the
first one with the name that is no label, and fails where there is none. -/
def SearchesAgree (ctx : FatContext) (junk : Uninit) (start : ℕ) (d : Disk)
    (l : List (List Byte)) (name : CString) : Prop :=
  (∀ e, l.find? (isNamed name) = some e →
    (∀ file : FatHandle, file.dirCluster = start → file.name = name →
      fatFileEntry ctx junk file d = some e) ∧
      fatFindFile ctx junk start name d = some (entryFirstClusterLow e)) ∧
  (l.find? (isNamed name) = none → fatFindFile ctx junk start name d = some 0xFFFFFFFF)

/-- No entry stops `FAT_find_file`, and the directory has an end; or the first one that does
has the first cluster of the file. -/
def SearchCondition (ctx : FatContext) (junk : Uninit) (start : ℕ) (d : Disk)
    (l : List (List Byte)) (name : CString) : Prop :=
  l.find? (stopsAt name) = none ∧ DirEnds ctx junk start d l ∨
    ∃ e e', l.find? (stopsAt name) = some e ∧ l.find? (isNamed name) = some e' ∧
      entryFirstClusterLow e = entryFirstClusterLow e'

/-- On the way along the pieces of a path the condition is met in each directory, and what is
found has a cluster. -/
def StepsAgree (ctx : FatContext) (junk : Uninit) (d : Disk) : ℕ → List CString → Prop
  | _, [] => True
  | start, name :: names => ∃ l, DirListing ctx junk start d l ∧
      SearchCondition ctx junk start d l name ∧
      ∀ e, l.find? (isNamed name) = some e →
        entryFirstClusterLow e ≠ 0 ∧ StepsAgree ctx junk d (entryFirstClusterLow e) names

section

variable {ctx : FatContext} {junk : Uninit} {start : ℕ} {d : Disk} {l : List (List Byte)}
  {name : CString}

theorem entryFirstClusterLow_lt (entry : List Byte) : entryFirstClusterLow entry < 2 ^ 16 := by
  have hlt := leValue_lt ((entry.drop 26).take 2)
  have hlen : ((entry.drop 26).take 2).length ≤ 2 := List.length_take_le 2 _
  have hpow : 256 ^ ((entry.drop 26).take 2).length ≤ 256 ^ 2 :=
    Nat.pow_le_pow_right (by decide) hlen
  unfold entryFirstClusterLow entryField
  omega

theorem stopsAt_of_isNamed {entry : List Byte} (h : isNamed name entry) : stopsAt name entry := by
  simp [isNamed] at h
  simp [stopsAt, h]

theorem find_stopsAt_isSome {e : List Byte} (h : l.find? (isNamed name) = some e) :
    ∃ e', l.find? (stopsAt name) = some e' := by
  have hp := stopsAt_of_isNamed (List.find?_some h)
  have hmem := List.mem_of_find?_eq_some h
  exact Option.isSome_iff_exists.mp (List.find?_isSome.mpr ⟨e, hmem, hp⟩)

/-- INTERNAL: `FAT_file_entry` selects the first entry with the name.
SRCLINE: fat.c:701-718 -/
theorem fatFileEntry_first (h : DirListing ctx junk start d l) {e : List Byte}
    (hfind : l.find? (isNamed name) = some e) {file : FatHandle} (hdir : file.dirCluster = start)
    (hname : file.name = name) : fatFileEntry ctx junk file d = some e := by
  rw [fatFileEntry_eq, hdir, hname, scanAll_some h hfind]
  rfl

theorem fatFindFile_stops (h : DirListing ctx junk start d l) {e : List Byte}
    (hfind : l.find? (stopsAt name) = some e) :
    fatFindFile ctx junk start name d = some (entryFirstClusterLow e) := by
  rw [fatFindFile_eq, scanAll_some h hfind]
  rfl

/-- INTERNAL: **the two searches agree** under the condition, and under no other. -/
theorem searchesAgree_iff (h : DirListing ctx junk start d l) (name : CString) :
    SearchesAgree ctx junk start d l name ↔ SearchCondition ctx junk start d l name := by
  constructor
  · intro hagree
    cases hnamed : l.find? (isNamed name) with
    | some e' =>
        obtain ⟨e, hstops⟩ := find_stopsAt_isSome hnamed
        have hfound := (hagree.1 e' hnamed).2
        rw [fatFindFile_stops h hstops] at hfound
        exact .inr ⟨e, e', hstops, hnamed, Option.some.inj hfound⟩
    | none =>
        have hmissing := hagree.2 hnamed
        left
        cases hstops : l.find? (stopsAt name) with
        | some e =>
            have hlt := entryFirstClusterLow_lt e
            rw [fatFindFile_stops h hstops] at hmissing
            have heq := Option.some.inj hmissing
            omega
        | none =>
            refine ⟨rfl, ?_⟩
            by_contra hends
            rw [fatFindFile_eq, scanAll_endless h hends hstops] at hmissing
            cases hmissing
  · rintro (⟨hstops, hends⟩ | ⟨e, e', hstops, hnamed, hcluster⟩)
    · have hnamed : l.find? (isNamed name) = none := by
        by_contra hsome
        obtain ⟨e, he⟩ := Option.ne_none_iff_exists'.mp hsome
        obtain ⟨e', he'⟩ := find_stopsAt_isSome he
        rw [hstops] at he'
        cases he'
      refine ⟨by simp [hnamed], fun _ => ?_⟩
      rw [fatFindFile_eq, scanAll_end h hends hstops]
      rfl
    · refine ⟨?_, by simp [hnamed]⟩
      intro e'' hnamed'
      rw [hnamed] at hnamed'
      cases hnamed'
      refine ⟨fun file hdir hname => fatFileEntry_first h hnamed hdir hname, ?_⟩
      rw [fatFindFile_stops h hstops, hcluster]

/-! ## Paths -/

/-- The pieces of a path, looked up with `FAT_find_file`. -/
def clusterOfPieces (ctx : FatContext) (junk : Uninit) (d : Disk) : ℕ → List CString → Option ℕ
  | clus, [] => some clus
  | clus, name :: names => do
      let clus ← fatFindFile ctx junk clus name d
      if clus = 0xFFFFFFFF then some 0xFFFFFFFF else clusterOfPieces ctx junk d clus names

/-- INTERNAL: the loop of `FAT_file_cluster` looks up the pieces of its string. -/
theorem fatFileClusterLoop_eq (fuel clus : ℕ) (last : Option CString)
    (hfuel : (remaining last).length ≤ fuel) :
    fatFileClusterLoop ctx junk d fuel clus (strtok last) =
      clusterOfPieces ctx junk d clus (remaining last) := by
  induction fuel generalizing clus last with
  | zero =>
      rw [List.eq_nil_of_length_eq_zero (Nat.le_zero.mp hfuel)]
      rfl
  | succ fuel ih =>
      obtain ⟨hnil, htok⟩ | ⟨piece, htok, hcons⟩ := strtok_spec last
      · rw [hnil, ← Prod.mk.eta (p := strtok last), htok]
        rfl
      · rw [hcons, ← Prod.mk.eta (p := strtok last), htok, fatFileClusterLoop, clusterOfPieces]
        rw [hcons, List.length_cons] at hfuel
        have hrest := fun clus => ih clus (strtok last).2 (Nat.le_of_succ_le_succ hfuel)
        cases fatFindFile ctx junk clus piece d with
        | none => rfl
        | some found =>
            simp only [Option.bind_eq_bind, Option.bind_some]
            split
            · rfl
            · exact hrest found

/-- INTERNAL: `FAT_lookup` in a directory that has the name. -/
theorem fatLookup_found {dir : FatHandle} (h : DirListing ctx junk dir.startCluster d l)
    {e : List Byte} (hfind : l.find? (isNamed name) = some e) (hne : entryFirstClusterLow e ≠ 0) :
    ∃ handle, fatLookup ctx junk dir name d = some (some handle) ∧
      handle.startCluster = entryFirstClusterLow e := by
  have htake : isNamed (name.take 11) = isNamed name := by
    funext entry
    rw [isNamed, isNamed, fatConvFname_take]
  have hentry : fatFileEntry ctx junk ⟨dir.startCluster, 0, 0, name.take 11⟩ d = some e :=
    fatFileEntry_first h (htake ▸ hfind) rfl rfl
  refine ⟨⟨dir.startCluster, entryFirstClusterLow e, entryAttributes e, name.take 13⟩, ?_, rfl⟩
  rw [fatLookup, hentry]
  simp only [Option.bind_eq_bind, Option.bind_some, if_pos hne]
  rfl

/-- INTERNAL: `FAT_lookup` in a directory that has not. -/
theorem fatLookup_missing {dir : FatHandle} (h : DirListing ctx junk dir.startCluster d l)
    (hends : DirEnds ctx junk dir.startCluster d l) (hfind : l.find? (isNamed name) = none) :
    fatLookup ctx junk dir name d = some none := by
  have htake : isNamed (name.take 11) = isNamed name := by
    funext entry
    rw [isNamed, isNamed, fatConvFname_take]
  have hentry : fatFileEntry ctx junk ⟨dir.startCluster, 0, 0, name.take 11⟩ d =
      some (List.replicate sizeofShortDirEntry 0) := by
    rw [fatFileEntry_eq]
    dsimp only
    rw [htake, scanAll_end h hends hfind]
    rfl
  rw [fatLookup, hentry]
  rfl

/-- INTERNAL: one piece after the other leads to the same cluster. -/
theorem clusterOfPieces_agrees (names : List CString) (dir : FatHandle)
    (h : StepsAgree ctx junk d dir.startCluster names) :
    ∃ found, fatResolve ctx junk d dir names = some found ∧
      clusterOfPieces ctx junk d dir.startCluster names =
        some (found.elim 0xFFFFFFFF FatHandle.startCluster) := by
  induction names generalizing dir with
  | nil => exact ⟨some dir, rfl, rfl⟩
  | cons name names ih =>
      obtain ⟨l, hlist, hcond, hstep⟩ := h
      have hagree := (searchesAgree_iff hlist name).mpr hcond
      rw [clusterOfPieces]
      cases hnamed : l.find? (isNamed name) with
      | some e =>
          obtain ⟨hne, hrest⟩ := hstep e hnamed
          obtain ⟨handle, hlookup, hcluster⟩ := fatLookup_found hlist hnamed hne
          have hlt := entryFirstClusterLow_lt e
          rw [← hcluster] at hrest
          obtain ⟨found, hresolve, hpieces⟩ := ih handle hrest
          refine ⟨found, ?_, ?_⟩
          · rw [fatResolve, hlookup]
            exact hresolve
          · rw [(hagree.1 e hnamed).2]
            simp only [Option.bind_eq_bind, Option.bind_some]
            rw [if_neg (by omega), ← hcluster]
            exact hpieces
      | none =>
          have hends : DirEnds ctx junk dir.startCluster d l := by
            rcases hcond with ⟨-, hends⟩ | ⟨-, e', -, hsome, -⟩
            · exact hends
            · rw [hnamed] at hsome
              cases hsome
          refine ⟨none, ?_, ?_⟩
          · rw [fatResolve, fatLookup_missing hlist hends hnamed]
            rfl
          · rw [hagree.2 hnamed]
            rfl

end

/-- **The searches agree** in a directory whose first entry that is the file or no label has the
cluster of the file; with such directories on the way, `FAT_file_cluster` and `FAT_lookup` for
one piece after the other lead to the same cluster.
SRCLINE: fat.c:501-556, fat.c:701-718, fat.c:812-835 -/
theorem fatFindFile_agrees (ctx : FatContext) (junk : Uninit) (d : Disk) :
    (∀ start l name, DirListing ctx junk start d l →
      (SearchesAgree ctx junk start d l name ↔ SearchCondition ctx junk start d l name)) ∧
    ∀ path : CString, path.length < 0xFFF →
      StepsAgree ctx junk d (fatRoot ctx).startCluster (components path) →
        ∃ found, fatResolve ctx junk d (fatRoot ctx) (components path) = some found ∧
          fatFileCluster ctx junk path d =
            some (found.elim 0xFFFFFFFF FatHandle.startCluster) := by
  refine ⟨fun start l name h => searchesAgree_iff h name, ?_⟩
  intro path hlen hsteps
  obtain ⟨found, hresolve, hpieces⟩ := clusterOfPieces_agrees (components path) (fatRoot ctx) hsteps
  refine ⟨found, hresolve, ?_⟩
  have hloop : fatFileClusterLoop ctx junk d (path.length + 1) (fatRoot ctx).startCluster
      (strtok (some path)) =
        clusterOfPieces ctx junk d (fatRoot ctx).startCluster (remaining (some path)) :=
    fatFileClusterLoop_eq (path.length + 1) (fatRoot ctx).startCluster (some path)
      (components_length_le path)
  rw [fatFileCluster, if_neg (by omega)]
  exact hloop.trans hpieces

/-- A floppy disk with two files in its root directory: `A` in cluster 5 and `B` in
cluster 7. -/
def twoFilesDisk : Disk :=
  Store.write floppyDisk 9728
    (0x41 :: List.replicate 10 blank ++ 0x20 :: List.replicate 14 0 ++ [5, 0, 0, 0, 0, 0] ++
      0x42 :: List.replicate 10 blank ++ 0x20 :: List.replicate 14 0 ++ [7, 0, 0, 0, 0, 0])

/-- INTERNAL: the entries of its root directory. -/
theorem twoFiles_slots : dirSlots floppy [] twoFilesDisk =
    dirSlot floppy [] twoFilesDisk 0 :: dirSlot floppy [] twoFilesDisk 1 ::
      (List.range 511).map fun k => dirSlot floppy [] twoFilesDisk (k + 1 + 1) := by
  rw [dirSlots, show slotCount floppy [] = 511 + 1 + 1 from rfl, List.range_succ_eq_map,
    List.map_cons, List.map_map, List.range_succ_eq_map, List.map_cons, List.map_map]
  rfl

/-- INTERNAL: they are listed. -/
theorem twoFiles_listing :
    DirListing floppy ⟨1, []⟩ 0 twoFilesDisk (dirSlots floppy [] twoFilesDisk) :=
  dirSlots_listing floppy_sectorLayout (.inl ⟨Nat.two_pos, rfl⟩) ⟨1, []⟩

/-- The first one is found by its path. -/
theorem fatFindFile_agrees_path :
    ∃ found, fatResolve floppy ⟨1, []⟩ twoFilesDisk (fatRoot floppy) (components [0x41]) =
        some found ∧
      fatFileCluster floppy ⟨1, []⟩ [0x41] twoFilesDisk =
        some (found.elim 0xFFFFFFFF FatHandle.startCluster) := by
  have hstops : (dirSlots floppy [] twoFilesDisk).find? (stopsAt [0x41]) =
      some (dirSlot floppy [] twoFilesDisk 0) := by
    have hstop : stopsAt [0x41] (dirSlot floppy [] twoFilesDisk 0) = true := by decide
    rw [twoFiles_slots, List.find?_cons, hstop]
  have hnamed : (dirSlots floppy [] twoFilesDisk).find? (isNamed [0x41]) =
      some (dirSlot floppy [] twoFilesDisk 0) := by
    have hname : isNamed [0x41] (dirSlot floppy [] twoFilesDisk 0) = true := by decide
    rw [twoFiles_slots, List.find?_cons, hname]
  have hcluster : entryFirstClusterLow (dirSlot floppy [] twoFilesDisk 0) = 5 := by decide
  refine (fatFindFile_agrees floppy ⟨1, []⟩ twoFilesDisk).2 [0x41] (by decide) ?_
  rw [show components [0x41] = [[0x41]] by decide]
  refine ⟨_, twoFiles_listing, .inr ⟨_, _, hstops, hnamed, rfl⟩, ?_⟩
  intro e hfind
  rw [hnamed] at hfind
  cases hfind
  rw [hcluster]
  exact ⟨by decide, trivial⟩

/-- `FAT_find_file` finds the first one under the name of the second. -/
theorem twoFiles_searches_differ :
    DirListing floppy ⟨1, []⟩ 0 twoFilesDisk (dirSlots floppy [] twoFilesDisk) ∧
      ValidName [0x42] ∧
      fatFindFile floppy ⟨1, []⟩ 0 [0x42] twoFilesDisk = some 5 ∧
      fatFileEntry floppy ⟨1, []⟩ ⟨0, 0, 0, [0x42]⟩ twoFilesDisk =
        some (dirSlot floppy [] twoFilesDisk 1) ∧
      entryFirstClusterLow (dirSlot floppy [] twoFilesDisk 1) = 7 ∧
      ¬ SearchesAgree floppy ⟨1, []⟩ 0 twoFilesDisk (dirSlots floppy [] twoFilesDisk) [0x42] := by
  have hlist := twoFiles_listing
  have hstops : (dirSlots floppy [] twoFilesDisk).find? (stopsAt [0x42]) =
      some (dirSlot floppy [] twoFilesDisk 0) := by
    have hstop : stopsAt [0x42] (dirSlot floppy [] twoFilesDisk 0) = true := by decide
    rw [twoFiles_slots, List.find?_cons, hstop]
  have hnamed : (dirSlots floppy [] twoFilesDisk).find? (isNamed [0x42]) =
      some (dirSlot floppy [] twoFilesDisk 1) := by
    have hother : isNamed [0x42] (dirSlot floppy [] twoFilesDisk 0) = false := by decide
    have hname : isNamed [0x42] (dirSlot floppy [] twoFilesDisk 1) = true := by decide
    rw [twoFiles_slots, List.find?_cons, hother, List.find?_cons, hname]
  have hfind : fatFindFile floppy ⟨1, []⟩ 0 [0x42] twoFilesDisk = some 5 :=
    fatFindFile_stops hlist hstops
  have hcluster : entryFirstClusterLow (dirSlot floppy [] twoFilesDisk 1) = 7 := by decide
  refine ⟨hlist, ⟨[0x42], [], by decide⟩, hfind, fatFileEntry_first hlist hnamed rfl rfl,
    hcluster, ?_⟩
  intro hagree
  have hfound := (hagree.1 _ hnamed).2
  rw [hfind, hcluster] at hfound
  cases hfound

end LakeOS.Analysis
