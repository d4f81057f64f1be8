import Mathlib.Logic.Function.Basic
import LakeOS.Analysis.DeviceDirs

/-!
# A directory as a map

A directory maps names to first clusters.  Names that are stored alike are one name to the
scans, a new entry may be written to another place than where it will be read or in front of
an older one of its name, a new directory may be scanned with the root, and removing a file
also clears the entry of an end mark.  A FAT entry that runs over the end of a sector is not
transferred as it is.  Along every run that keeps clear of these, `FAT_lookup` answers as the
map does.
-/

set_option autoImplicit false

namespace LakeOS.Analysis

open LakeOS.Library LakeOS.Model

/-! ## Directories and maps -/

/-- The first entries of the files of the directory are those of the map, and the chains of
all entries lie apart from each other and from the directory.  An entry need not have a
cluster; its file is not in the map. -/
structure Directory (ctx : FatContext) (d : Disk) (start : ℕ) (cs : List ℕ)
    (chainOf : ℕ → List ℕ) (m : CString → Option ℕ) : Prop where
  clusters : DirClusters ctx d start cs
  stored : ∀ {name c}, m name = some c →
    c ≠ 0 ∧ ∃ k < slotCount ctx cs, FirstFileAt ctx cs d k name c
  named : ∀ {k name c}, k < slotCount ctx cs → FirstFileAt ctx cs d k name c → c ≠ 0 →
    ∃ name' c', fatConvFname name' = fatConvFname name ∧ m name' = some c'
  distinct : ∀ {name name' c c'}, m name = some c → m name' = some c' →
    fatConvFname name = fatConvFname name' → name = name'
  chain : ∀ {k name c}, k < slotCount ctx cs → FileAt ctx cs d k name c → c ≠ 0 →
    FatChain ctx d (chainOf k) ∧ (chainOf k).head? = some c ∧ (chainOf k).Disjoint cs
  apart : ∀ {j k name name' c c'}, j < slotCount ctx cs → k < slotCount ctx cs → j ≠ k →
    FileAt ctx cs d j name c → c ≠ 0 → FileAt ctx cs d k name' c' → c' ≠ 0 →
    (chainOf j).Disjoint (chainOf k)

/-- No other name of the map is stored like this one. -/
def Alone (m : CString → Option ℕ) (name : CString) : Prop :=
  ∀ name', name' ≠ name → fatConvFname name' = fatConvFname name → m name' = none

/-- An entry and a cluster are available, `num_sectors` counts the sectors for the search that
finds the cluster, no other name is stored like this one,
`FAT_write_entry` writes to the entry it found, which lies behind one of the name exactly
if the name is there, and the root is not scanned into the cluster of a new directory. -/
structure CreateFits (ctx : FatContext) (cs : List ℕ) (start : ℕ) (d : Disk)
    (m : CString → Option ℕ) (name : CString) (attribs : ℕ) : Prop where
  valid : ValidName name
  fields : FieldsFit ctx
  cluster : (freeClusters ctx d).Nonempty
  alone : Alone m name
  entry : ∃ k < slotCount ctx cs, entryIsFree (dirSlot ctx cs d k) ∧
    (∀ j < k, ¬ entryIsFree (dirSlot ctx cs d j)) ∧
    add32 (fatClusToOff ctx start) (mul32 k sizeofShortDirEntry) = slotStart ctx cs k ∧
    ((∃ j < k, IsNamed ctx cs d name j) ↔ m name ≠ none)
  scan : hasFlag attribs fileAttribDirectory → cs = [] → ∀ j < slotCount ctx [],
    slotStart ctx [] j + 32 ≤ clusterStart ctx (findFreeCluster ctx d)

/-- The handle is one of the directory, no other name, no volume label and no file without
clusters is stored like it, and no entry of the directory is hit with that of an end mark. -/
structure RemoveFits (ctx : FatContext) (cs : List ℕ) (start : ℕ) (d : Disk)
    (m : CString → Option ℕ) (handle : FatHandle) : Prop where
  dir : handle.dirCluster = start
  valid : ValidName handle.name
  alone : Alone m handle.name
  noLabel : ∀ k < slotCount ctx cs, slotName ctx cs d k = fatConvFname handle.name →
    isLabel ctx cs d k = false
  clusters : ∀ k < slotCount ctx cs, slotName ctx cs d k = fatConvFname handle.name →
    entryFirstClusterLow (dirSlot ctx cs d k) ≠ 0
  spares : ∀ k < slotCount ctx cs, slotName ctx cs d k = fatConvFname handle.name →
    ∀ fs, FatChain ctx d fs →
      fs.head? = some (entryFirstClusterLow (dirSlot ctx cs d k)) → ∀ hne,
      MarkSpares ctx cs (fatGetEntry ctx 0 (fs.getLast hne) d)

variable {ctx : FatContext} {d d' : Disk} {start k : ℕ} {cs : List ℕ} {junk : Uninit}
  {chainOf : ℕ → List ℕ} {m : CString → Option ℕ} {name : CString}

/-! ## The new entry -/

/-- INTERNAL: a name of eleven bytes leaves the fields as they are. -/
theorem makeEntry_eq {stored : List Byte} (hlength : stored.length = 11)
    (attributes time date cluster : ℕ) :
    makeEntry stored attributes time date cluster = stored ++ leBytes 1 attributes ++
      leBytes 2 0 ++ leBytes 2 time ++ leBytes 2 date ++ leBytes 8 0 ++ leBytes 2 cluster ++
      leBytes 4 0 := by
  simp [makeEntry, hlength]

/-- INTERNAL: the fields of an entry that is made. -/
theorem makeEntry_fields {stored : List Byte} (hlength : stored.length = 11)
    (attributes time date cluster : ℕ) :
    (makeEntry stored attributes time date cluster).take 11 = stored ∧
      entryAttributes (makeEntry stored attributes time date cluster) = attributes % 2 ^ 8 ∧
      entryFirstClusterLow (makeEntry stored attributes time date cluster) =
        cluster % 2 ^ 16 := by
  have hfront : makeEntry stored attributes time date cluster = stored ++
      (leBytes 1 attributes ++ (leBytes 2 0 ++ leBytes 2 time ++ leBytes 2 date ++ leBytes 8 0 ++
        leBytes 2 cluster ++ leBytes 4 0)) := by
    rw [makeEntry_eq hlength]
    simp only [List.append_assoc]
  have hback : makeEntry stored attributes time date cluster =
      (stored ++ leBytes 1 attributes ++ leBytes 2 0 ++ leBytes 2 time ++ leBytes 2 date ++
        leBytes 8 0) ++ (leBytes 2 cluster ++ leBytes 4 0) := by
    rw [makeEntry_eq hlength]
    simp only [List.append_assoc]
  refine ⟨?_, ?_, ?_⟩
  · rw [hfront, List.take_left' hlength]
  · rw [entryAttributes, entryField, hfront, List.drop_left' hlength,
      List.take_left' (length_leBytes 1 attributes), leValue_leBytes]
    rfl
  · rw [entryFirstClusterLow, entryField, hback, List.drop_left' (by simp [hlength]),
      List.take_left' (length_leBytes 2 cluster), leValue_leBytes]
    rfl

/-- INTERNAL: `FAT_create` makes no volume labels. -/
theorem fatConvAttrib_noLabel (attribs : ℕ) :
    hasFlag (fatConvAttrib attribs % 2 ^ 8) entryAttrVolumeId = false := by
  unfold fatConvAttrib
  dsimp only
  split <;> split <;> split <;> split <;> rfl

/-- The files of the entry that `FAT_create` stores. -/
theorem fileAt_makeEntry (hvalid : ValidName name) {attribs time date cluster : ℕ}
    (hcluster : cluster < 2 ^ 16)
    (hslot : dirSlot ctx cs d k =
      makeEntry (fatConvFname name) (fatConvAttrib attribs) time date cluster)
    {name' : CString} {c : ℕ} :
    FileAt ctx cs d k name' c ↔
      ValidName name' ∧ fatConvFname name' = fatConvFname name ∧ c = cluster := by
  obtain ⟨hname, hattributes, hlow⟩ :=
    makeEntry_fields hvalid.conv.1 (fatConvAttrib attribs) time date cluster
  rw [Nat.mod_eq_of_lt hcluster] at hlow
  constructor
  · rintro ⟨hvalid', ⟨hsame, -⟩, hfirst⟩
    rw [slotName, hslot, hname] at hsame
    rw [hslot, hlow] at hfirst
    exact ⟨hvalid', hsame.symm, hfirst.symm⟩
  · rintro ⟨hvalid', hsame, rfl⟩
    refine ⟨hvalid', ⟨?_, ?_⟩, by rw [hslot, hlow]⟩
    · rw [slotName, hslot, hname, hsame]
    · rw [isLabel, hslot, hattributes]
      exact fatConvAttrib_noLabel attribs

/-- The first entry of a file is one. -/
theorem FirstFileAt.cluster_eq {j : ℕ} {c c' : ℕ} (hfile : FirstFileAt ctx cs d j name c)
    (hfile' : FirstFileAt ctx cs d k name c') : c = c' := by
  obtain hlt | rfl | hlt := Nat.lt_trichotomy j k
  · exact absurd hfile.toFileAt (hfile'.first j hlt c)
  · exact hfile.cluster.symm.trans hfile'.cluster
  · exact absurd hfile'.toFileAt (hfile.first k hlt c')

namespace Directory

variable (hd : Directory ctx d start cs chainOf m)
include hd

/-! ## Lookups -/

omit hd in
/-- **A lookup** of a name that no other is stored like. -/
theorem lookup (h : SectorLayout ctx) {dir : FatHandle}
    (hd : Directory ctx d dir.startCluster cs chainOf m)
    (hjunk : dir.startCluster < 2 → junk.lastFreeCluster ≠ 0) (hvalid : ValidName name)
    (halone : Alone m name) :
    ∃ found, fatLookup ctx junk dir name d = some found ∧
      found.map (·.startCluster) = m name := by
  obtain ⟨found, hfound, hcases⟩ := h.fatLookup_spec hd.clusters hjunk hvalid
  refine ⟨found, hfound, ?_⟩
  obtain ⟨j, hj, c, hfile, hstart⟩ | ⟨rfl, hnone⟩ := hcases
  · rw [hstart]
    cases hname : m name with
    | none =>
        refine if_neg fun hc => ?_
        obtain ⟨name', c', hconv, hname'⟩ := hd.named hj hfile hc
        by_cases heq : name' = name
        · rw [heq, hname] at hname'
          cases hname'
        · rw [halone name' heq hconv] at hname'
          cases hname'
    | some c' =>
        obtain ⟨hc, k, hk, hfirst⟩ := hd.stored hname
        rw [hfile.cluster_eq hfirst, if_pos hc]
  · cases hname : m name with
    | none => rfl
    | some c =>
        obtain ⟨-, k, hk, hfile⟩ := hd.stored hname
        exact absurd hfile.toFileAt (hnone k hk c)

/-! ## The map after a change -/

section Insert

variable {entry : List Byte} {cluster : ℕ} (hadd : EntryAdded ctx cs k entry cluster d d')
  (halone : Alone m name)
  (hself : ∀ name' c, FileAt ctx cs d' k name' c ↔
    ValidName name' ∧ fatConvFname name' = fatConvFname name ∧ c = cluster)
include hadd

omit hd hadd in
/-- INTERNAL: the other names keep their clusters. -/
theorem of_update_of_ne {v : Option ℕ} {name' : CString} {c : ℕ}
    (hname : Function.update m name v name' = some c) (hne : name' ≠ name) :
    m name' = some c := by
  rwa [Function.update_of_ne hne] at hname

include halone hself in
/-- INTERNAL: the file of another name is where it was. -/
theorem stored_insert_other {name' : CString} {c : ℕ} (hname' : m name' = some c)
    (hne : name' ≠ name) : c ≠ 0 ∧ ∃ j < slotCount ctx cs, FirstFileAt ctx cs d' j name' c := by
  obtain ⟨hc, j, hj, hfile⟩ := hd.stored hname'
  have hjk : j ≠ k := fun hjk => hadd.not_fileAt (hjk ▸ hfile.toFileAt)
  refine ⟨hc, j, hj, (hadd.fileAt_iff hj hjk).mpr hfile.toFileAt, fun i hi c' hfile' => ?_⟩
  by_cases hik : i = k
  · obtain ⟨-, hconv, -⟩ := (hself name' c').mp (hik ▸ hfile')
    have hgone := halone name' hne hconv
    rw [hname'] at hgone
    cases hgone
  · exact hfile.first i hi c' ((hadd.fileAt_iff (hi.trans hj) hik).mp hfile')

include hself in
/-- INTERNAL: the name itself has its new entry, or the first of the old ones. -/
theorem stored_insert_self (hvalid : ValidName name)
    (hbehind : (∃ j < k, IsNamed ctx cs d name j) ↔ m name ≠ none) :
    (m name).getD cluster ≠ 0 ∧ ∃ j < slotCount ctx cs,
      FirstFileAt ctx cs d' j name ((m name).getD cluster) := by
  have hk := hadd.inside
  cases hname : m name with
  | none =>
      -- the new entry is the only one
      have hdata := (mem_freeClusters.mp hadd.cluster_free).1
      refine ⟨?_, k, hk, (hself name cluster).mpr ⟨hvalid, rfl, rfl⟩, fun j hj c hfile => ?_⟩
      · have hlow : 2 ≤ cluster := hdata.1
        rw [Option.getD_none]
        omega
      · have hnamed := ((hadd.fileAt_iff (hj.trans hk) hj.ne).mp hfile).isNamed
        exact hbehind.mp ⟨j, hj, hnamed⟩ hname
  | some c =>
      -- it lies behind the first one
      obtain ⟨hc, i, hi, hfile⟩ := hd.stored hname
      obtain ⟨j, hj, hnamed⟩ := hbehind.mpr (by rw [hname]; exact Option.some_ne_none c)
      have hle : i ≤ j := Nat.le_of_not_lt fun hlt =>
        hfile.first j hlt _ ⟨hvalid, hnamed, rfl⟩
      refine ⟨hc, i, hi, (hadd.fileAt_iff hi (by omega)).mpr hfile.toFileAt,
        fun i' hi' c' hfile' => ?_⟩
      exact hfile.first i' hi' c' ((hadd.fileAt_iff (by omega) (by omega)).mp hfile')

include hself in
/-- INTERNAL: the first file of every slot has a name of the map. -/
theorem named_insert (v : ℕ) {j c : ℕ} {name' : CString} (hj : j < slotCount ctx cs)
    (hfile : FirstFileAt ctx cs d' j name' c) (hc : c ≠ 0) :
    ∃ name'' c', fatConvFname name'' = fatConvFname name' ∧
      Function.update m name (some v) name'' = some c' := by
  by_cases heq : j = k
  · obtain ⟨-, hconv, -⟩ := (hself name' c).mp (heq ▸ hfile.toFileAt)
    exact ⟨name, _, hconv.symm, Function.update_self _ _ _⟩
  · have hfirst : FirstFileAt ctx cs d j name' c := by
      refine ⟨(hadd.fileAt_iff hj heq).mp hfile.toFileAt, fun i hi c' hfile' => ?_⟩
      have hik : i ≠ k := fun hik => hadd.not_fileAt (hik ▸ hfile')
      exact hfile.first i hi c' ((hadd.fileAt_iff (hi.trans hj) hik).mpr hfile')
    obtain ⟨name'', c', hconv, hname''⟩ := hd.named hj hfirst hc
    by_cases hne : name'' = name
    · exact ⟨name, _, hne ▸ hconv, Function.update_self _ _ _⟩
    · exact ⟨name'', c', hconv, by rwa [Function.update_of_ne hne]⟩

omit hadd in
include halone in
/-- INTERNAL: the names stay apart. -/
theorem distinct_insert (v : ℕ) {name₁ name₂ : CString} {c c' : ℕ}
    (hname₁ : Function.update m name (some v) name₁ = some c)
    (hname₂ : Function.update m name (some v) name₂ = some c')
    (hconv : fatConvFname name₁ = fatConvFname name₂) : name₁ = name₂ := by
  by_cases heq₁ : name₁ = name
  · by_cases heq₂ : name₂ = name
    · exact heq₁.trans heq₂.symm
    · have hgone := halone name₂ heq₂ (hconv.symm.trans (by rw [heq₁]))
      rw [of_update_of_ne hname₂ heq₂] at hgone
      cases hgone
  · by_cases heq₂ : name₂ = name
    · have hgone := halone name₁ heq₁ (hconv.trans (by rw [heq₂]))
      rw [of_update_of_ne hname₁ heq₁] at hgone
      cases hgone
    · exact hd.distinct (of_update_of_ne hname₁ heq₁) (of_update_of_ne hname₂ heq₂) hconv

/-- INTERNAL: the chain of the new file is apart from the other chains. -/
theorem apart_insert (h : SectorLayout ctx) {i j : ℕ} {name₁ name₂ : CString} {c c' : ℕ}
    (hi : i < slotCount ctx cs) (hj : j < slotCount ctx cs) (hne : i ≠ j)
    (hfile : FileAt ctx cs d' i name₁ c) (hc : c ≠ 0)
    (hfile' : FileAt ctx cs d' j name₂ c') (hc' : c' ≠ 0) :
    (Function.update chainOf k [cluster] i).Disjoint (Function.update chainOf k [cluster] j) := by
  by_cases hik : i = k
  · have hjk : j ≠ k := fun heq => hne (hik.trans heq.symm)
    rw [hik, Function.update_self, Function.update_of_ne hjk]
    obtain ⟨hchain, -, -⟩ := hd.chain hj ((hadd.fileAt_iff hj hjk).mp hfile') hc'
    exact List.singleton_disjoint.mpr (hadd.chain h.toFatLayout hchain).1
  · rw [Function.update_of_ne hik]
    by_cases hjk : j = k
    · rw [hjk, Function.update_self]
      obtain ⟨hchain, -, -⟩ := hd.chain hi ((hadd.fileAt_iff hi hik).mp hfile) hc
      exact List.disjoint_singleton.mpr (hadd.chain h.toFatLayout hchain).1
    · rw [Function.update_of_ne hjk]
      exact hd.apart hi hj hne ((hadd.fileAt_iff hi hik).mp hfile) hc
        ((hadd.fileAt_iff hj hjk).mp hfile') hc'

include halone hself in
/-- **A name is added,** behind the first entry that it has. -/
theorem insert (h : SectorLayout ctx) (hvalid : ValidName name)
    (hbehind : (∃ j < k, IsNamed ctx cs d name j) ↔ m name ≠ none) :
    Directory ctx d' start cs (Function.update chainOf k [cluster])
      (Function.update m name (some ((m name).getD cluster))) := by
  obtain ⟨hnot, hclusters⟩ : cluster ∉ cs ∧ DirClusters ctx d' start cs := by
    obtain ⟨hroot, rfl⟩ | ⟨hstart, hchain⟩ := hd.clusters
    · exact ⟨List.not_mem_nil, .inl ⟨hroot, rfl⟩⟩
    · obtain ⟨hnot, hchain'⟩ := hadd.chain h.toFatLayout hchain
      exact ⟨hnot, .inr ⟨hstart, hchain'⟩⟩
  refine ⟨hclusters, fun {name' c} hname' => ?_, hd.named_insert hadd hself _,
    hd.distinct_insert halone _, fun {j name' c} hj hfile hne => ?_, hd.apart_insert hadd h⟩
  · by_cases heq : name' = name
    · rw [heq, Function.update_self] at hname'
      rw [heq, ← Option.some.inj hname']
      exact hd.stored_insert_self hadd hself hvalid hbehind
    · exact hd.stored_insert_other hadd halone hself (of_update_of_ne hname' heq) heq
  · by_cases heq : j = k
    · obtain ⟨-, -, rfl⟩ := (hself name' c).mp (heq ▸ hfile)
      rw [heq, Function.update_self]
      exact ⟨hadd.chain_new h.toFatLayout, rfl, List.singleton_disjoint.mpr hnot⟩
    · obtain ⟨hchain, hhead, hdisjoint⟩ := hd.chain hj ((hadd.fileAt_iff hj heq).mp hfile) hne
      rw [Function.update_of_ne heq]
      exact ⟨(hadd.chain h.toFatLayout hchain).2, hhead, hdisjoint⟩

end Insert

/-- **A name is erased,** with all its entries. -/
theorem erase (halone : Alone m name) (hvalid : ValidName name)
    (hnoLabel : ∀ k < slotCount ctx cs, slotName ctx cs d k = fatConvFname name →
      isLabel ctx cs d k = false)
    (hhas : ∀ k < slotCount ctx cs, slotName ctx cs d k = fatConvFname name →
      entryFirstClusterLow (dirSlot ctx cs d k) ≠ 0)
    (hclusters : DirClusters ctx d' start cs)
    (hremoved : Removed ctx cs (fatConvFname name) chainOf 0 d d') :
    Directory ctx d' start cs chainOf (Function.update m name none) := by
  have hothers : ∀ k < slotCount ctx cs, slotName ctx cs d k ≠ fatConvFname name →
      ∀ o, UsedByte o → d' (slotStart ctx cs k + o) = d (slotStart ctx cs k + o) :=
    fun k hk hother => hremoved.others k hk fun hand => hother hand.2
  -- the files are the old ones without those of the name
  have hfiles : ∀ {j name' c'}, j < slotCount ctx cs → FileAt ctx cs d' j name' c' →
      slotName ctx cs d j ≠ fatConvFname name ∧ FileAt ctx cs d j name' c' := by
    intro j name' c' hj hfile
    have hne : slotName ctx cs d j ≠ fatConvFname name := by
      intro hname
      have hfree := hremoved.freed j (Nat.zero_le j) hj hname
      rw [hfile.not_free] at hfree
      cases hfree
    exact ⟨hne, (FileAt.congr (hothers j hj hne)).mp hfile⟩
  have hold : ∀ {name' c'}, Function.update m name none name' = some c' →
      name' ≠ name ∧ m name' = some c' := by
    intro name' c' hname'
    by_cases heq : name' = name
    · rw [heq, Function.update_self] at hname'
      cases hname'
    · rw [Function.update_of_ne heq] at hname'
      exact ⟨heq, hname'⟩
  refine ⟨hclusters, ?_, ?_, ?_, ?_, ?_⟩
  · -- stored
    intro name' c' hname'
    obtain ⟨hne, hname'⟩ := hold hname'
    obtain ⟨hc, j, hj, hfile⟩ := hd.stored hname'
    have hother : slotName ctx cs d j ≠ fatConvFname name := by
      intro hname
      have hgone := halone name' hne (hfile.isNamed.1.symm.trans hname)
      rw [hname'] at hgone
      cases hgone
    exact ⟨hc, j, hj, (FileAt.congr (hothers j hj hother)).mpr hfile.toFileAt,
      fun i hi c'' hfile' => hfile.first i hi c'' (hfiles (hi.trans hj) hfile').2⟩
  · -- named
    intro j name' c' hj hfile hc
    obtain ⟨hother, hfileOld⟩ := hfiles hj hfile.toFileAt
    have hfirst : FirstFileAt ctx cs d j name' c' := by
      refine ⟨hfileOld, fun i hi c'' hfile' => ?_⟩
      have hotherOld : slotName ctx cs d i ≠ fatConvFname name := fun hname =>
        hother (hfileOld.isNamed.1.trans (hfile'.isNamed.1.symm.trans hname))
      exact hfile.first i hi c'' ((FileAt.congr (hothers i (hi.trans hj) hotherOld)).mpr hfile')
    obtain ⟨name'', c'', hconv, hname''⟩ := hd.named hj hfirst hc
    have hne : name'' ≠ name := by
      rintro rfl
      exact hother (hfileOld.isNamed.1.trans hconv.symm)
    exact ⟨name'', c'', hconv, by rwa [Function.update_of_ne hne]⟩
  · -- distinct
    intro name₁ name₂ c₁ c₂ hname₁ hname₂ hconv
    exact hd.distinct (hold hname₁).2 (hold hname₂).2 hconv
  · -- chain
    intro j name' c' hj hfile hc
    obtain ⟨hother, hfile⟩ := hfiles hj hfile
    obtain ⟨hchain, hhead, hdisjoint⟩ := hd.chain hj hfile hc
    refine ⟨hchain.congr fun e he => hremoved.entries e (hchain.2 e he)
      fun k _ hk hname hmem => ?_, hhead, hdisjoint⟩
    have hne : j ≠ k := by
      rintro rfl
      exact hother hname
    exact hd.apart hj hk hne hfile hc ⟨hvalid, ⟨hname, hnoLabel k hk hname⟩, rfl⟩
      (hhas k hk hname) he hmem
  · -- apart
    intro i j name₁ name₂ c₁ c₂ hi hj hne hfile₁ hc₁ hfile₂ hc₂
    exact hd.apart hi hj hne (hfiles hi hfile₁).2 hc₁ (hfiles hj hfile₂).2 hc₂

end Directory

/-! ## Calls -/

section

variable (h : SectorLayout ctx) {dir : FatHandle}
  (hd : Directory ctx d dir.startCluster cs chainOf m)
include h hd

/-- **`FAT_create`** adds the name. -/
theorem Directory.create (junk : Uninit) {attribs : ℕ} (time : RtcTime)
    (hfits : CreateFits ctx cs dir.startCluster d m name attribs) :
    ∃ d' chainOf', fatCreate ctx junk time dir name attribs d = some d' ∧
      Directory ctx d' dir.startCluster cs chainOf'
        (Function.update m name (some ((m name).getD (findFreeCluster ctx d)))) := by
  obtain ⟨k, hk, hfree, hfirst, hplace, hbehind⟩ := hfits.entry
  have hmem := findFreeCluster_mem h.toFatLayout hfits.fields hfits.cluster
  have hcount := h.dataClusters_lt
  have hlt : findFreeCluster ctx d < 2 ^ 16 := by
    have hdata := (mem_freeClusters.mp hmem).1.2
    omega
  obtain ⟨d', hcreate, hadd⟩ := h.fatCreate_spec junk hd.clusters hfits.fields hfits.cluster hk
    hfree hfirst hplace name time hfits.scan
  have hself : ∀ name' c, FileAt ctx cs d' k name' c ↔ ValidName name' ∧
      fatConvFname name' = fatConvFname name ∧ c = findFreeCluster ctx d :=
    fun _ _ => fileAt_makeEntry hfits.valid hlt hadd.stored
  exact ⟨d', _, hcreate, hd.insert hadd hfits.alone hself h hfits.valid hbehind⟩

omit h in
/-- INTERNAL: the files of a name can be removed. -/
theorem Directory.removable {handle : FatHandle}
    (hfits : RemoveFits ctx cs dir.startCluster d m handle) :
    Removable ctx cs (fatConvFname handle.name) chainOf 0 d := by
  have hfile : ∀ k < slotCount ctx cs, slotName ctx cs d k = fatConvFname handle.name →
      FileAt ctx cs d k handle.name (entryFirstClusterLow (dirSlot ctx cs d k)) :=
    fun k hk hname => ⟨hfits.valid, ⟨hname, hfits.noLabel k hk hname⟩, rfl⟩
  have hchain := fun k hk hname => hd.chain hk (hfile k hk hname) (hfits.clusters k hk hname)
  refine ⟨fun k _ hk hname => (hchain k hk hname).1, fun k _ hk hname => (hchain k hk hname).2.1,
    fun k _ hk hname => (hchain k hk hname).2.2, fun k _ hk hname => ?_,
    fun j k _ hjk hk hnamej hnamek => ?_⟩
  · exact hfits.spares k hk hname _ (hchain k hk hname).1 (hchain k hk hname).2.1
  · exact hd.apart (hjk.trans hk) hk hjk.ne (hfile j (hjk.trans hk) hnamej)
      (hfits.clusters j (hjk.trans hk) hnamej) (hfile k hk hnamek) (hfits.clusters k hk hnamek)

/-- **`FAT_remove`** erases the name. -/
theorem Directory.remove {handle : FatHandle}
    (hjunk : dir.startCluster < 2 → junk.lastFreeCluster ≠ 0)
    (hfits : RemoveFits ctx cs dir.startCluster d m handle) :
    ∃ d', fatRemove ctx junk handle d = some d' ∧
      Directory ctx d' dir.startCluster cs chainOf (Function.update m handle.name none) := by
  have hclusters := hd.clusters
  rw [← hfits.dir] at hclusters hjunk
  obtain ⟨d', hremove, hclusters', hremoved⟩ :=
    h.fatRemove_spec hclusters hjunk hfits.valid (hd.removable hfits)
  exact ⟨d', hremove, hd.erase hfits.alone hfits.valid hfits.noLabel hfits.clusters
    (hfits.dir ▸ hclusters') hremoved⟩

end

/-! ## Runs on a device -/

/-- A call of an operation on the directory. -/
inductive DirCall where
  | create (time : RtcTime) (name : CString) (attribs : ℕ)
  | lookup (name : CString)
  | remove (handle : FatHandle)

/-- The disk after a call on a device; `none` if the call does not return. -/
def dirCall (v : FatDevice) (junk : Uninit) (dir : FatHandle) (d : Disk) : DirCall → Option Disk
  | .create time name attribs => v.fatCreate junk time dir name attribs d
  | .lookup name => (v.fatLookup junk dir name d).map fun _ => d
  | .remove handle => v.fatRemove junk handle d

/-- The map after a call: a name gets the cluster that is found when it is first created. -/
def mapCall (v : FatDevice) (d : Disk) (m : CString → Option ℕ) : DirCall → CString → Option ℕ
  | .create _ name _ => Function.update m name (some ((m name).getD (v.findFreeCluster d)))
  | .lookup _ => m
  | .remove handle => Function.update m handle.name none

/-- The lookups of a run answer as the map does. -/
def ActsAsMap (v : FatDevice) (junk : Uninit) (dir : FatHandle) :
    Disk → (CString → Option ℕ) → List DirCall → Prop
  | _, _, [] => True
  | d, m, c :: calls =>
      (∀ name, c = .lookup name → ∃ found, v.fatLookup junk dir name d = some found ∧
        found.map (·.startCluster) = m name) ∧
      ∃ d', dirCall v junk dir d c = some d' ∧ ActsAsMap v junk dir d' (mapCall v d m c) calls

/-- A call that keeps clear of what `fat.c` gets wrong, and sets no FAT entry that runs over the
end of a sector. -/
def CallFits (v : FatDevice) (cs : List ℕ) (start : ℕ) (d : Disk) (m : CString → Option ℕ) :
    DirCall → Prop
  | .create _ name attribs =>
      CreateFits v.toFatContext cs start d m name attribs ∧ TakesInside v d [] 1
  | .lookup name => ValidName name ∧ Alone m name
  | .remove handle => RemoveFits v.toFatContext cs start d m handle ∧
      FreesInside v cs (fatConvFname handle.name) d

/-- So do all calls of a run, each where it is made, and the chain of the directory is read as it
is. -/
def AllFit (v : FatDevice) (junk : Uninit) (cs : List ℕ) (dir : FatHandle) :
    Disk → (CString → Option ℕ) → List DirCall → Prop
  | _, _, [] => True
  | d, m, c :: calls => ReadsEntries v d cs ∧ CallFits v cs dir.startCluster d m c ∧
      ∀ d', dirCall v junk dir d c = some d' → AllFit v junk cs dir d' (mapCall v d m c) calls

variable {v : FatDevice}

/-- INTERNAL: the device removes what exact transfers would.
SRCLINE: fat.c:855-874 -/
theorem Directory.remove_device (h : DirLayout v) {dir handle : FatHandle}
    (hd : Directory v.toFatContext d dir.startCluster cs chainOf m)
    (hjunk : dir.startCluster < 2 → junk.lastFreeCluster ≠ 0)
    (hfits : RemoveFits v.toFatContext cs dir.startCluster d m handle)
    (hreads : ReadsEntries v d cs) (hinside : FreesInside v cs (fatConvFname handle.name) d) :
    v.fatRemove junk handle d = fatRemove v.toFatContext junk handle d := by
  have hclusters := hd.clusters
  rw [← hfits.dir] at hclusters hjunk
  exact FatDevice.fatRemove_eq h hclusters hjunk hfits.valid hreads (hd.removable hfits) hinside

/-- **One call.**  It returns, and leaves the directory of the map. -/
theorem Directory.call (h : DirLayout v) {dir : FatHandle}
    (hd : Directory v.toFatContext d dir.startCluster cs chainOf m)
    (hjunk : dir.startCluster < 2 → junk.lastFreeCluster ≠ 0) {c : DirCall}
    (hreads : ReadsEntries v d cs) (hfits : CallFits v cs dir.startCluster d m c) :
    ∃ d' chainOf', dirCall v junk dir d c = some d' ∧
      Directory v.toFatContext d' dir.startCluster cs chainOf' (mapCall v d m c) := by
  cases c with
  | create time name attribs =>
      obtain ⟨hcreate, hinside⟩ := hfits
      obtain ⟨k, hk, hfree, hfirst, hplace, -⟩ := hcreate.entry
      rw [dirCall, mapCall, (hinside.findFreeCluster_eq h.toFatLayout).1,
        FatDevice.fatCreate_eq h hd.clusters hreads hinside hk hfree hfirst hplace]
      exact hd.create h.toSectorLayout junk time hcreate
  | lookup name =>
      obtain ⟨found, hfound, -⟩ :=
        Directory.lookup h.toSectorLayout hd hjunk hfits.1 hfits.2
      refine ⟨d, chainOf, ?_, hd⟩
      rw [dirCall, FatDevice.fatLookup_eq h hd.clusters hreads, hfound]
      rfl
  | remove handle =>
      obtain ⟨hremove, hinside⟩ := hfits
      obtain ⟨d', hrun, hd'⟩ := hd.remove h.toSectorLayout hjunk hremove
      refine ⟨d', chainOf, ?_, hd'⟩
      rw [dirCall, hd.remove_device h hjunk hremove hreads hinside, hrun]

def emptyDisk : Disk := fun _ => 0

theorem floppy_sectorLayout : SectorLayout floppy :=
  .of_fields floppy_layout floppy_fields (by decide)

theorem floppyDrive_dirLayout : DirLayout floppyDrive :=
  { floppy_sectorLayout, floppyDrive_layout with }

/-- All entries are free. -/
theorem emptyDisk_directory :
    Directory floppy emptyDisk fatGetRoot.startCluster [] (fun _ => []) fun _ => none := by
  have hnone : ∀ {k name c}, ¬ FileAt floppy [] emptyDisk k name c := by
    intro k name c hfile
    have hfree : entryIsFree (dirSlot floppy [] emptyDisk k) = true := rfl
    rw [hfile.not_free] at hfree
    cases hfree
  refine ⟨.inl ⟨by decide, rfl⟩, ?_, ?_, ?_, ?_, ?_⟩
  · intro name c hname
    cases hname
  · exact fun _ hfile => absurd hfile.toFileAt hnone
  · intro name name' c c' hname
    cases hname
  · exact fun _ hfile => absurd hfile hnone
  · exact fun _ _ _ hfile _ => absurd hfile hnone

/-- A file can be created there. -/
theorem emptyDisk_createFits (hvalid : ValidName name) :
    CreateFits floppy [] fatGetRoot.startCluster emptyDisk (fun _ => none) name 0 where
  valid := hvalid
  fields := floppy_fields
  cluster := ⟨2, mem_freeClusters.mpr
    ⟨floppy_dataCluster (Nat.le_refl 2) (by decide), by decide⟩⟩
  alone := fun _ _ _ => rfl
  entry := ⟨0, Nat.succ_pos _, rfl, fun j hj => absurd hj (Nat.not_lt_zero j), by decide,
    ⟨fun ⟨j, hj, _⟩ => absurd hj (Nat.not_lt_zero j), fun hname => absurd rfl hname⟩⟩
  scan := fun hflag => absurd hflag (by decide)

/-- The first of January 2024. -/
def firstOfJanuary : RtcTime := ⟨2024, 0, 0, 0, 1, 1⟩

/-- The cluster that it gets has its entry inside of a sector. -/
theorem emptyDisk_takesInside : TakesInside floppyDrive emptyDisk [] 1 := by
  have hfree : 2 ∈ {c ∈ freeClusters floppy emptyDisk | c < 3} :=
    Finset.mem_filter.mpr ⟨mem_freeClusters.mpr
      ⟨floppy_dataCluster (Nat.le_refl 2) (by decide), by decide⟩, by decide⟩
  refine ⟨fun c hc => absurd hc List.not_mem_nil, fun _ => floppy_fields,
    fun _ c hc => absurd hc (by simp), 3, by decide, Finset.card_pos.mpr ⟨2, hfree⟩,
    fun c hlow hlt hcut => absurd ?_ hcut⟩
  obtain rfl : c = 2 := by omega
  exact (show ∀ c < 5, EntryFits floppyDrive c by decide) 2 (by decide)

/-- `LONGNAME.TXT`. -/
def longTxt : CString := [0x4C, 0x4F, 0x4E, 0x47, 0x4E, 0x41, 0x4D, 0x45, dot, 0x54, 0x58, 0x54]

/-- `LONGNAME.TXA`. -/
def longTxa : CString := [0x4C, 0x4F, 0x4E, 0x47, 0x4E, 0x41, 0x4D, 0x45, dot, 0x54, 0x58, 0x41]

end LakeOS.Analysis
