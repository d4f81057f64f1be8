import LakeOS.Analysis.ChainGrowing
import LakeOS.Analysis.EndMarker
import LakeOS.Library.ChainStore
import LakeOS.Library.Runs

/-!
# Clusters have one owner

The calls that change the tables of a volume: `FAT_create` takes a free cluster for a new file,
`FAT_allocate_cluster` appends one to a chain and `FAT_free_cluster_chain` gives a chain back.  In
any order of them, and of stores outside the tables, the chains share no cluster, and every cluster
in use is in one of them.
-/

set_option autoImplicit false

namespace LakeOS.Analysis

open LakeOS.Library LakeOS.Model

/-- The chains of a volume by their first clusters. -/
def ClustersOwned (ctx : FatContext) (d : Disk) (files : ℕ → Option (List ℕ)) : Prop :=
  ChainStore (fun c => fatGetEntry ctx 0 c d) (fun e => fatIsEoc ctx e) (DataCluster ctx) 0 files

/-- The calls that allocate and free clusters, and stores of bytes.
SRCLINE: fat.c:688-699, fat.c:724-736, fat.c:837-853 -/
inductive ClusterCall where
  | create (time : RtcTime) (dir : FatHandle) (name : CString) (attribs : ℕ)
  | grow (c : ℕ)
  | free (c : ℕ)
  | store (p : ℕ) (bytes : List Byte)

/-- The disk after a call. -/
def clusterCall (ctx : FatContext) (junk : Uninit) (call : ClusterCall) (d : Disk) : Option Disk :=
  match call with
  | .create time dir name attribs => fatCreate ctx junk time dir name attribs d
  | .grow c => fatAllocateCluster ctx c d
  | .free c => fatFreeClusterChain ctx fatFuel c d
  | .store p bytes => some (d.write p bytes)

/-- The chains after a call. -/
def chainsAfter (ctx : FatContext) (call : ClusterCall) (d : Disk)
    (files : ℕ → Option (List ℕ)) : ℕ → Option (List ℕ) :=
  let new := findFreeCluster ctx d
  match call with
  | .create .. => Function.update files new (some [new])
  | .grow c => Function.update files c ((files c).map (· ++ [new]))
  | .free c => Function.update files c none
  | .store .. => files

/-- One call.  Where it does not return, everything stays. -/
def clusterStep (ctx : FatContext) (junk : Uninit) (call : ClusterCall)
    (s : Disk × (ℕ → Option (List ℕ))) : Disk × (ℕ → Option (List ℕ)) :=
  match clusterCall ctx junk call s.1 with
  | none => s
  | some d => (d, chainsAfter ctx call s.1 s.2)

/-- There is a free cluster where one is taken, which the search finds, and a free entry for a new
file; only whole chains grow and are freed; and what is stored lies outside the tables. -/
def ClusterCall.Valid (ctx : FatContext) :
    ClusterCall → Disk × (ℕ → Option (List ℕ)) → Prop
  | .create _ dir name attribs, s => ∃ cs, DirClusters ctx s.1 dir.startCluster cs ∧
      CreateKeepsEnd ctx cs dir.startCluster s.1 name attribs
  | .grow c, s => (s.2 c).isSome ∧ FieldsFit ctx ∧ (freeClusters ctx s.1).Nonempty
  | .free c, s => (s.2 c).isSome
  | .store p bytes, _ => ∀ x, p ≤ x → x < p + bytes.length → ¬ InTables ctx x

variable {ctx : FatContext} {d d' : Disk} {files : ℕ → Option (List ℕ)} {c e : ℕ}

/-- INTERNAL: no data cluster has the number of a free entry. -/
theorem not_dataCluster_zero : ¬ DataCluster ctx 0 := fun hzero => absurd hzero.1 (by decide)

section

variable (h : FatLayout ctx)

include h

theorem not_stop_zero : ¬ (fatIsEoc ctx 0 : Prop) := by
  rw [h.not_eoc_zero]
  exact Bool.false_ne_true

/-- INTERNAL: bytes stored outside the tables leave every entry. -/
theorem fatGetEntry_write {p : ℕ} {bytes : List Byte}
    (houtside : ∀ x, p ≤ x → x < p + bytes.length → ¬ InTables ctx x) (hc : DataCluster ctx c) :
    fatGetEntry ctx 0 c (d.write p bytes) = fatGetEntry ctx 0 c d := by
  refine fatGetEntry_of_tables h (fun x hx => Store.write_of_notMem d bytes ?_) hc
  by_contra hin
  exact houtside x (by omega) (by omega) hx

omit h in
/-- INTERNAL: a chain is one of the volume. -/
theorem ClustersOwned.fatChain (howned : ClustersOwned ctx d files) {cs : List ℕ}
    (hcs : files c = some cs) : FatChain ctx d cs ∧ ∃ tail, cs = c :: tail := by
  refine ⟨⟨howned.chain hcs, howned.nodes hcs⟩, ?_⟩
  cases cs with
  | nil => exact absurd (howned.head hcs) (by simp)
  | cons a tail => exact ⟨tail, by rw [Option.some.inj (howned.head hcs)]⟩

/-- INTERNAL: `FAT_create` takes a free cluster.
SRCLINE: fat.c:837-853 -/
theorem ClustersOwned.create (howned : ClustersOwned ctx d files) {cs : List ℕ} {k : ℕ}
    {entry : List Byte} (hadd : EntryAdded ctx cs k entry e d d') :
    ClustersOwned ctx d' (Function.update files e (some [e])) := by
  obtain ⟨hdata, hzero⟩ := mem_freeClusters.mp hadd.cluster_free
  refine ChainStore.create ?_ not_dataCluster_zero howned hdata hzero ?_ fun c hc hne => ?_
  · exact not_stop_zero h
  · rw [hadd.entries e hdata, if_pos rfl]
    exact h.eoc_value
  · rw [hadd.entries c hc, if_neg hne]

/-- INTERNAL: `FAT_allocate_cluster` on a chain.
SRCLINE: fat.c:724-736 -/
theorem ClustersOwned.grow (howned : ClustersOwned ctx d files) {cs : List ℕ}
    (hcs : files c = some cs)
    (hnew : findFreeCluster ctx d ∈ freeClusters ctx d) :
    ∃ d', fatAllocateCluster ctx c d = some d' ∧
      ClustersOwned ctx d' (Function.update files c (some (cs ++ [findFreeCluster ctx d]))) := by
  obtain ⟨hchain, tail, rfl⟩ := howned.fatChain hcs
  have hvolume := h.toFatVolume
  obtain ⟨hdata, hzero⟩ := mem_freeClusters.mp hnew
  refine ⟨_, fatAllocateCluster_eq hvolume hchain, ?_⟩
  have hlast : DataCluster ctx (tail.getLastD c) := hchain.2 _ List.getLastD_mem_cons
  obtain ⟨lead, hlist⟩ := exists_lead c tail
  generalize tail.getLastD c = last at *
  rw [hlist] at hcs ⊢
  obtain ⟨hvalue, hlink⟩ := h.dataCluster_value hdata
  refine ChainStore.append ?_ not_dataCluster_zero howned hcs hdata hzero ?_ h.eoc_value
    fun e he => ?_
  · exact not_stop_zero h
  · rw [hlink]
    exact Bool.false_ne_true
  · rw [fatGetEntry_linked hvolume (h.inTable hlast) (h.inTable hdata) hvolume.numFat
      (h.inTable he), hvalue]

end

/-- INTERNAL: `FAT_free_cluster_chain` on a chain.
SRCLINE: fat.c:688-699 -/
theorem ClustersOwned.free (h : SectorLayout ctx) (howned : ClustersOwned ctx d files)
    {cs : List ℕ} (hcs : files c = some cs) :
    ∃ d', fatFreeClusterChain ctx fatFuel c d = some d' ∧
      ClustersOwned ctx d' (Function.update files c none) := by
  obtain ⟨hchain, tail, rfl⟩ := howned.fatChain hcs
  have hfuel := h.toFatLayout.toFatVolume.chain_lt_fuel hchain
  obtain ⟨d', hrun, hentries, -⟩ := fatFreeClusterChain_spec h hchain (Nat.lt_of_succ_lt hfuel)
  exact ⟨d', hrun, ChainStore.remove howned hcs hentries⟩

/-- INTERNAL: **one call** returns and keeps the owners. -/
theorem clustersOwned_call (h : SectorLayout ctx) (junk : Uninit) {call : ClusterCall}
    {s : Disk × (ℕ → Option (List ℕ))} (howned : ClustersOwned ctx s.1 s.2)
    (hvalid : call.Valid ctx s) :
    ∃ d', clusterCall ctx junk call s.1 = some d' ∧
      ClustersOwned ctx d' (chainsAfter ctx call s.1 s.2) := by
  cases call with
  | create time dir name attribs =>
    obtain ⟨cs, hdir, -, hfields, hcluster, ⟨k, hk, hslot, hfirst, hplace⟩, hscan⟩ := hvalid
    obtain ⟨d', hrun, hadd⟩ :=
      h.fatCreate_spec junk hdir hfields hcluster hk hslot hfirst hplace name time hscan
    exact ⟨d', hrun, howned.create h.toFatLayout hadd⟩
  | grow c =>
    obtain ⟨hsome, hfields, hfree⟩ := hvalid
    obtain ⟨cs, hcs⟩ := Option.isSome_iff_exists.mp hsome
    simp only [chainsAfter, hcs, Option.map_some]
    exact howned.grow h.toFatLayout hcs (findFreeCluster_mem h.toFatLayout hfields hfree)
  | free c =>
    obtain ⟨cs, hcs⟩ := Option.isSome_iff_exists.mp hvalid
    exact howned.free h hcs
  | store p bytes =>
    exact ⟨_, rfl, howned.congr fun c hc => fatGetEntry_write h.toFatLayout hvalid hc⟩

/-- INTERNAL: one step of a run. -/
theorem clustersOwned_step (h : SectorLayout ctx) (junk : Uninit) (call : ClusterCall)
    (s : Disk × (ℕ → Option (List ℕ))) (howned : ClustersOwned ctx s.1 s.2)
    (hvalid : call.Valid ctx s) :
    ClustersOwned ctx (clusterStep ctx junk call s).1 (clusterStep ctx junk call s).2 := by
  obtain ⟨d', hrun, howned'⟩ := clustersOwned_call h junk howned hvalid
  simp only [clusterStep, hrun]
  exact howned'

/-- INTERNAL: all of its entries are free. -/
theorem fatGetEntry_emptyDisk (c : ℕ) : fatGetEntry floppy 0 c emptyDisk = 0 := by
  have hnibble : ∀ m, emptyDisk.nibble m = 0 := by
    intro m
    have hbyte : (emptyDisk (m / 2)).toNat = 0 := rfl
    unfold Store.nibble hexDigit
    rw [hbyte]
    rcases Nat.mod_two_eq_zero_or_one m with hm | hm
    · simp [hm]
    · simp [hm]
  rw [fatGetEntry_eq_nibbles (.inl rfl), hnibble, hnibble, hnibble]
  rfl

/-- INTERNAL: no cluster of it is in use. -/
theorem emptyDisk_owned : ClustersOwned floppy emptyDisk fun _ => none where
  chain := fun hl => absurd hl (by simp)
  head := fun hl => absurd hl (by simp)
  nodes := fun hl => absurd hl (by simp)
  apart := fun hl => absurd hl (by simp)
  covers := fun _ hused => absurd (fatGetEntry_emptyDisk _) hused

end LakeOS.Analysis
