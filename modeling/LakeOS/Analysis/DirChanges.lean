import LakeOS.Analysis.DirNames

/-!
# What creating and removing a file change

`FAT_create` stores an entry and marks a cluster; `FAT_init_dir` stays in that cluster.
`FAT_remove` clears the entry and frees its chain.  The other entries of the directory keep
the bytes that lookups use, unless the entry of an end mark lies among them.
-/

set_option autoImplicit false

namespace LakeOS.Analysis

open LakeOS.Library LakeOS.Model

variable {ctx : FatContext} {d d' : Disk} {start k : ℕ} {cs : List ℕ} {junk : Uninit}

/-- Entries of clusters are read from the tables. -/
theorem fatGetEntry_of_tables (h : FatLayout ctx) (hsame : ∀ x, InTables ctx x → d' x = d x)
    {c : ℕ} (hc : DataCluster ctx c) : fatGetEntry ctx 0 c d' = fatGetEntry ctx 0 c d := by
  have htable := h.inTable hc
  have hfirst := FatLayout.table_le (show 0 < ctx.bootSector.numFat from h.numFat)
  unfold InTable at htable
  refine fatGetEntry_congr h (h.inTable hc) fun x hx hx' => hsame x ?_
  unfold InTables
  omega

theorem clusterStart_ge (ctx : FatContext) (c : ℕ) : ctx.dataRegionStart ≤ clusterStart ctx c :=
  Nat.le_add_right _ _

/-- No byte of a cluster lies in the tables. -/
theorem FatLayout.not_inTables (h : FatLayout ctx) {c x : ℕ} (hx : clusterStart ctx c ≤ x) :
    ¬ InTables ctx x := by
  intro hin
  have hend := hin.2
  have htables := h.tables
  have hstart := clusterStart_ge ctx c
  omega

theorem length_makeEntry {name : List Byte} (hlength : name.length ≤ 32)
    (attributes time date cluster : ℕ) :
    (makeEntry name attributes time date cluster).length = 32 := by
  simp [makeEntry]
  omega

/-! ## A new directory -/

/-- INTERNAL: the entries of a directory of one cluster. -/
theorem slotStart_singleton {c : ℕ} (hk : k * sizeofShortDirEntry < ctx.bytesPClus) :
    slotStart ctx [c] k = clusterStart ctx c + k * sizeofShortDirEntry := by
  rw [slotStart, if_neg (List.cons_ne_nil _ _), Nat.div_eq_of_lt hk, Nat.mod_eq_of_lt hk,
    List.getD_cons_zero]

/-- The disk on which the cluster of a new directory is cleared.
SRCLINE: fat.c:643-646 -/
def cleared (ctx : FatContext) (c : ℕ) (d : Disk) : Disk :=
  d.write (clusterStart ctx c) (List.replicate ctx.bytesPClus 0)

namespace SectorLayout

variable (h : SectorLayout ctx)
include h

theorem slotCount_singleton (c : ℕ) :
    slotCount ctx [c] * sizeofShortDirEntry = ctx.bytesPClus := by
  rw [h.slotCount_mul (List.cons_ne_nil c []), List.length_singleton, Nat.one_mul]

/-- INTERNAL: the entries of a directory of one cluster are stored where they are read. -/
theorem slot_place {c : ℕ} (hchain : FatChain ctx d [c]) (hk : k < slotCount ctx [c]) :
    add32 (fatClusToOff ctx c) (mul32 k sizeofShortDirEntry) = slotStart ctx [c] k := by
  have hc := hchain.2 c List.mem_cons_self
  have hmul := h.slotCount_singleton c
  have hlt : k * sizeofShortDirEntry < ctx.bytesPClus := by
    rw [← hmul]
    exact Nat.mul_lt_mul_of_pos_right hk (by decide)
  have hstart := h.clusterStart_lt hc
  rw [slotStart_singleton hlt, h.fatClusToOff_eq hc, mul32_eq (by omega), add32_eq (by omega)]

/-- INTERNAL: `FAT_write_entry` in a directory of one cluster with a free entry. -/
theorem fatWriteEntry_singleton (junk : Uninit) {c : ℕ} (hchain : FatChain ctx d [c])
    (hfree : ∃ k < slotCount ctx [c], entryIsFree (dirSlot ctx [c] d k)) (entry : List Byte) :
    ∃ k < slotCount ctx [c], fatWriteEntry ctx junk c entry d =
      some (d.write (slotStart ctx [c] k) entry) := by
  obtain ⟨k, hk, hfreek, hfirst⟩ := exists_first_free hfree
  exact ⟨k, hk, h.fatWriteEntry_spec (.inr ⟨rfl, hchain⟩) hk hfreek hfirst
    (h.slot_place hchain hk) entry⟩

/-- INTERNAL: a write to a cluster keeps the chains. -/
theorem chain_write {c a : ℕ} (hchain : FatChain ctx d cs) (ha : clusterStart ctx c ≤ a)
    (bs : List Byte) : FatChain ctx (d.write a bs) cs := by
  refine hchain.congr fun e he => fatGetEntry_of_tables h.toFatLayout (fun x hx => ?_)
    (hchain.2 e he)
  refine Store.write_of_lt _ _ (Nat.lt_of_not_le fun hle => ?_)
  exact h.not_inTables (ha.trans hle) hx

/-- INTERNAL: the entries of one cluster. -/
theorem slots_singleton (c : ℕ) {j : ℕ} (hj : j < slotCount ctx [c]) :
    slotStart ctx [c] j = clusterStart ctx c + j * sizeofShortDirEntry ∧
      j * sizeofShortDirEntry + 32 ≤ ctx.bytesPClus := by
  have hle := Nat.mul_le_mul_right sizeofShortDirEntry (Nat.succ_le_of_lt hj)
  rw [h.slotCount_singleton c, Nat.succ_mul] at hle
  unfold sizeofShortDirEntry at *
  exact ⟨slotStart_singleton (by unfold sizeofShortDirEntry; omega), hle⟩

/-- INTERNAL: **a cluster that is cleared** has two free entries at least. -/
theorem cleared_spec {c : ℕ} (hchain : FatChain ctx d [c]) :
    FatChain ctx (cleared ctx c d) [c] ∧
      (∀ j < 2, j < slotCount ctx [c] ∧ dirSlot ctx [c] (cleared ctx c d) j = zeroEntry) ∧
      ∀ x, x < clusterStart ctx c ∨ clusterStart ctx c + ctx.bytesPClus ≤ x →
        cleared ctx c d x = d x := by
  obtain ⟨q, hq, hbpc⟩ := h.entries_of_cluster
  have hmul := h.slotCount_singleton c
  refine ⟨h.chain_write hchain (le_refl (clusterStart ctx c)) (List.replicate ctx.bytesPClus 0),
    fun j hj => ?_, fun x hx => ?_⟩
  · have hlt : j < slotCount ctx [c] := by
      unfold sizeofShortDirEntry at *
      omega
    obtain ⟨hstart, hfit⟩ := h.slots_singleton c hlt
    have hself := Store.read_write_self d (clusterStart ctx c) (List.replicate ctx.bytesPClus 0)
    rw [List.length_replicate] at hself
    refine ⟨hlt, ?_⟩
    rw [dirSlot, hstart, cleared, ← drop_take_read _ hfit, hself, List.drop_replicate,
      List.take_replicate, zeroEntry, Nat.min_eq_left (by unfold sizeofShortDirEntry at *; omega)]
  · rw [cleared, Store.write_of_notMem]
    rw [List.length_replicate]
    omega

/-- INTERNAL: **the first entry of a new directory** leaves a free one.
SRCLINE: fat.c:638-663 -/
theorem fatInitDir_first (junk : Uninit) {c : ℕ} (hchain : FatChain ctx d [c])
    {first : List Byte} (hlength : first.length = 32) :
    ∃ d₂, fatWriteEntry ctx junk c first (cleared ctx c d) = some d₂ ∧ FatChain ctx d₂ [c] ∧
      (∃ k < slotCount ctx [c], entryIsFree (dirSlot ctx [c] d₂ k)) ∧
      ∀ x, x < clusterStart ctx c ∨ clusterStart ctx c + ctx.bytesPClus ≤ x → d₂ x = d x := by
  obtain ⟨hchain₁, hslots, hout₁⟩ := h.cleared_spec hchain
  obtain ⟨hlt, hzero⟩ := hslots 0 (by decide)
  obtain ⟨k₁, hk₁, hwrite₁⟩ := h.fatWriteEntry_singleton junk hchain₁
    ⟨0, hlt, by rw [hzero]; rfl⟩ first
  obtain ⟨hstart₁, hfit₁⟩ := h.slots_singleton c hk₁
  obtain ⟨j, hj, hne⟩ : ∃ j < 2, j ≠ k₁ := by
    by_cases hk : k₁ = 0
    · exact ⟨1, by decide, by omega⟩
    · exact ⟨0, by decide, by omega⟩
  obtain ⟨hltj, hzeroj⟩ := hslots j hj
  refine ⟨_, hwrite₁, h.chain_write hchain₁ (show clusterStart ctx c ≤ slotStart ctx [c] k₁ by
    omega) first, ⟨j, hltj, ?_⟩, fun x hx => ?_⟩
  · have hapart := h.slots_apart (.inr ⟨rfl, hchain₁⟩) hltj hk₁ hne
    rw [dirSlot, Store.read_write_disjoint _ _ (by unfold sizeofShortDirEntry; omega)]
    rw [dirSlot] at hzeroj
    rw [hzeroj]
    rfl
  · rw [Store.write_of_notMem _ _ (by omega), hout₁ x hx]

/-- **`FAT_init_dir`** writes to the cluster of the new directory only.
SRCLINE: fat.c:638-663 -/
theorem fatInitDir_spec (junk : Uninit) {c : ℕ} (hchain : FatChain ctx d [c]) (parent : ℕ) :
    ∃ d', fatInitDir ctx junk c parent d = some d' ∧
      ∀ x, x < clusterStart ctx c ∨ clusterStart ctx c + ctx.bytesPClus ≤ x → d' x = d x := by
  have hc := hchain.2 c List.mem_cons_self
  have hcount := h.dataClusters_lt
  have hwidth : c % 2 ^ 16 = c := Nat.mod_eq_of_lt (by have := hc.2; omega)
  rw [fatInitDir, hwidth, h.fatClusToOff_eq hc]
  generalize hfirst : makeEntry (dot :: List.replicate 10 blank) _ 0 0 c = first
  generalize hsecond : makeEntry (dot :: dot :: List.replicate 9 blank) _ 0 0 parent = second
  have hlength₁ : first.length = 32 := by rw [← hfirst, length_makeEntry (by simp)]
  have hlength₂ : second.length = 32 := by rw [← hsecond, length_makeEntry (by simp)]
  -- one of them is written, and the other one after it
  obtain ⟨d₂, hwrite₁, hchain₂, hfree₂, hout₂⟩ := h.fatInitDir_first junk hchain hlength₁
  obtain ⟨k₂, hk₂, hwrite₂⟩ := h.fatWriteEntry_singleton junk hchain₂ hfree₂ second
  obtain ⟨hstart₂, hfit₂⟩ := h.slots_singleton c hk₂
  unfold cleared at hwrite₁
  refine ⟨_, by rw [hwrite₁, Option.bind_eq_bind, Option.bind_some, hwrite₂], fun x hx => ?_⟩
  rw [Store.write_of_notMem _ _ (by omega), hout₂ x hx]

end SectorLayout

/-! ## `FAT_create` -/

/-- An entry has been stored at a free place, with a free cluster that is now the only one of
its chain. -/
structure EntryAdded (ctx : FatContext) (cs : List ℕ) (k : ℕ) (entry : List Byte)
    (cluster : ℕ) (d d' : Disk) : Prop where
  inside : k < slotCount ctx cs
  free : entryIsFree (dirSlot ctx cs d k)
  cluster_free : cluster ∈ freeClusters ctx d
  entries : ∀ e, DataCluster ctx e → fatGetEntry ctx 0 e d' =
    if e = cluster then 0xFFFFFFFF % entryModulus ctx else fatGetEntry ctx 0 e d
  stored : dirSlot ctx cs d' k = entry
  others : ∀ j < slotCount ctx cs, j ≠ k → dirSlot ctx cs d' j = dirSlot ctx cs d j

namespace EntryAdded

variable {entry : List Byte} {cluster : ℕ} (hadd : EntryAdded ctx cs k entry cluster d d')
include hadd

/-- The other files stay. -/
theorem fileAt_iff {j : ℕ} {name : CString} {c : ℕ} (hj : j < slotCount ctx cs) (hne : j ≠ k) :
    FileAt ctx cs d' j name c ↔ FileAt ctx cs d j name c := by
  have hslot := hadd.others j hj hne
  constructor
  · rintro ⟨h₁, ⟨h₂, h₃⟩, h₄⟩
    exact ⟨h₁, ⟨by rwa [slotName, ← hslot], by rwa [isLabel, ← hslot]⟩, by rwa [← hslot]⟩
  · rintro ⟨h₁, ⟨h₂, h₃⟩, h₄⟩
    exact ⟨h₁, ⟨by rwa [slotName, hslot], by rwa [isLabel, hslot]⟩, by rwa [hslot]⟩

/-- There was no file before. -/
theorem not_fileAt {name : CString} {c : ℕ} : ¬ FileAt ctx cs d k name c := by
  intro hfile
  have hfree := hadd.free
  rw [hfile.not_free] at hfree
  cases hfree

/-- The other chains stay, and do not have the new cluster. -/
theorem chain (h : FatLayout ctx) {fs : List ℕ} (hchain : FatChain ctx d fs) :
    cluster ∉ fs ∧ FatChain ctx d' fs := by
  have hzero := (mem_freeClusters.mp hadd.cluster_free).2
  have hnot : cluster ∉ fs := fun hmem => hchain.ne_zero h cluster hmem hzero
  refine ⟨hnot, hchain.congr fun e he => ?_⟩
  rw [hadd.entries e (hchain.2 e he), if_neg (fun heq : e = cluster => hnot (heq ▸ he))]

/-- The new chain. -/
theorem chain_new (h : FatLayout ctx) : FatChain ctx d' [cluster] := by
  have hdata := (mem_freeClusters.mp hadd.cluster_free).1
  refine ⟨?_, fun e he => List.mem_singleton.mp he ▸ hdata⟩
  show fatIsEoc ctx (fatGetEntry ctx 0 cluster d') = true
  rw [hadd.entries cluster hdata, if_pos rfl]
  exact h.eoc_value

end EntryAdded

namespace SectorLayout

variable (h : SectorLayout ctx)
include h

/-- No entry of a chain lies in another cluster. -/
theorem slot_apart_cluster (hchain : FatChain ctx d cs) (hk : k < slotCount ctx cs) {c : ℕ}
    (hc : DataCluster ctx c) (hnot : c ∉ cs) :
    slotStart ctx cs k + 32 ≤ clusterStart ctx c ∨
      clusterStart ctx c + ctx.bytesPClus ≤ slotStart ctx cs k := by
  obtain ⟨hi, hstart, hfit⟩ := h.slot_in_cluster hchain.1.ne_nil hk
  have hmem := List.getElem_mem hi
  have hne : cs[k * sizeofShortDirEntry / ctx.bytesPClus] ≠ c := fun heq => hnot (heq ▸ hmem)
  have hapart := clusterStart_apart ctx (hchain.2 _ hmem).1 hc.1 hne
  rw [hstart]
  unfold sizeofShortDirEntry at *
  omega

/-- INTERNAL: an entry is written, and its cluster marked. -/
theorem entryAdded_marked (hdir : DirClusters ctx d start cs) (hk : k < slotCount ctx cs)
    (hslot : entryIsFree (dirSlot ctx cs d k)) {entry : List Byte} (hlength : entry.length = 32)
    {new : ℕ} (hmem : new ∈ freeClusters ctx d) :
    EntryAdded ctx cs k entry new d
      (fatSetEntries ctx new 0xFFFFFFFF (d.write (slotStart ctx cs k) entry)) := by
  have hnew := (mem_freeClusters.mp hmem).1
  have hwritten : ∀ e, DataCluster ctx e →
      fatGetEntry ctx 0 e (d.write (slotStart ctx cs k) entry) = fatGetEntry ctx 0 e d := by
    refine fun e he => fatGetEntry_of_tables h.toFatLayout (fun x hx => ?_) he
    exact Store.write_of_lt _ _ (Nat.lt_of_not_le fun hle => h.slot_not_inTables hle hx)
  obtain ⟨hset, hout⟩ := fatSetEntries_spec h.toFatLayout (h.inTable hnew) 0xFFFFFFFF
    (d.write (slotStart ctx cs k) entry)
  have hslots : ∀ j, dirSlot ctx cs
      (fatSetEntries ctx new 0xFFFFFFFF (d.write (slotStart ctx cs k) entry)) j =
        dirSlot ctx cs (d.write (slotStart ctx cs k) entry) j :=
    fun j => Store.read_congr fun x hx _ => hout x (h.slot_not_inTables hx)
  refine ⟨hk, hslot, hmem, fun e he => ?_, ?_, fun j hj hne => ?_⟩
  · rw [hset e (h.inTable he), hwritten e he]
  · have hread := Store.read_write_self d (slotStart ctx cs k) entry
    rw [hlength] at hread
    rw [hslots]
    exact hread
  · have hapart := h.slots_apart hdir hj hk hne
    rw [hslots]
    exact Store.read_write_disjoint _ _ (by unfold sizeofShortDirEntry; omega)

/-- INTERNAL: what is written to the new cluster afterwards changes no entry. -/
theorem entryAdded_keep {entry : List Byte} {new : ℕ} {d₂ d₃ : Disk}
    (hadd : EntryAdded ctx cs k entry new d d₂) (hdir : DirClusters ctx d start cs)
    (hscan : cs = [] → ∀ j < slotCount ctx [], slotStart ctx [] j + 32 ≤ clusterStart ctx new)
    (hout : ∀ x, x < clusterStart ctx new ∨ clusterStart ctx new + ctx.bytesPClus ≤ x →
      d₃ x = d₂ x) : EntryAdded ctx cs k entry new d d₃ := by
  obtain ⟨hnew, hzero⟩ := mem_freeClusters.mp hadd.cluster_free
  have hkeep : ∀ j < slotCount ctx cs, dirSlot ctx cs d₃ j = dirSlot ctx cs d₂ j := by
    intro j hj
    have hapart : slotStart ctx cs j + 32 ≤ clusterStart ctx new ∨
        clusterStart ctx new + ctx.bytesPClus ≤ slotStart ctx cs j := by
      obtain ⟨-, rfl⟩ | ⟨-, hdirChain⟩ := hdir
      · exact .inl (hscan rfl j hj)
      · exact h.slot_apart_cluster hdirChain hj hnew fun hmem =>
          hdirChain.ne_zero h.toFatLayout new hmem hzero
    refine Store.read_congr fun x hx hx' => hout x ?_
    unfold sizeofShortDirEntry at hx'
    omega
  refine ⟨hadd.inside, hadd.free, hadd.cluster_free, fun e he => ?_, ?_,
    fun j hj hne => ?_⟩
  · rw [← hadd.entries e he]
    refine fatGetEntry_of_tables h.toFatLayout (fun x hx => hout x (.inl ?_)) he
    exact Nat.lt_of_not_le fun hle => h.not_inTables hle hx
  · rw [hkeep k hadd.inside, hadd.stored]
  · rw [hkeep j hj, hadd.others j hj hne]

/-- **`FAT_create`.**  Its entry is stored, the cluster is marked, and the other entries of the
directory keep their bytes, if the cluster of a new directory is not scanned with the root.
SRCLINE: fat.c:837-853 -/
theorem fatCreate_spec (junk : Uninit) {dir : FatHandle}
    (hdir : DirClusters ctx d dir.startCluster cs) (hfields : FieldsFit ctx)
    (hfree : (freeClusters ctx d).Nonempty) (hk : k < slotCount ctx cs)
    (hslot : entryIsFree (dirSlot ctx cs d k))
    (hfirst : ∀ j < k, ¬ entryIsFree (dirSlot ctx cs d j))
    (hplace : add32 (fatClusToOff ctx dir.startCluster) (mul32 k sizeofShortDirEntry) =
      slotStart ctx cs k) (name : CString) (time : RtcTime)
    {attribs : ℕ} (hscan : hasFlag attribs fileAttribDirectory → cs = [] →
      ∀ j < slotCount ctx [], slotStart ctx [] j + 32 ≤ clusterStart ctx (findFreeCluster ctx d)) :
    ∃ d', fatCreate ctx junk time dir name attribs d = some d' ∧
      EntryAdded ctx cs k (makeEntry (fatConvFname name) (fatConvAttrib attribs)
        (fatGetTime time) (fatGetDate time) (findFreeCluster ctx d)) (findFreeCluster ctx d)
        d d' := by
  have hmem := findFreeCluster_mem h.toFatLayout hfields hfree
  have hnew := (mem_freeClusters.mp hmem).1
  have hcount := h.dataClusters_lt
  have hwidth : findFreeCluster ctx d % 2 ^ 16 = findFreeCluster ctx d :=
    Nat.mod_eq_of_lt (by have := hnew.2; omega)
  rw [fatCreate, hwidth, h.fatWriteEntry_spec hdir hk hslot hfirst hplace, Option.bind_eq_bind,
    Option.bind_some]
  dsimp only
  generalize findFreeCluster ctx d = new at *
  generalize hentry : makeEntry (fatConvFname name) (fatConvAttrib attribs) (fatGetTime time)
    (fatGetDate time) new = entry
  have hlength : entry.length = 32 := by
    rw [← hentry, length_makeEntry]
    rw [length_fatConvFname]
    omega
  have hadd := h.entryAdded_marked hdir hk hslot hlength hmem
  generalize fatSetEntries ctx new 0xFFFFFFFF (d.write (slotStart ctx cs k) entry) = d₂ at *
  split
  next hflag =>
    have hchain : FatChain ctx d₂ [new] := by
      refine ⟨?_, fun e he => List.mem_singleton.mp he ▸ hnew⟩
      show fatIsEoc ctx (fatGetEntry ctx 0 new d₂) = true
      rw [hadd.entries new hnew, if_pos rfl]
      exact h.eoc_value
    obtain ⟨d₃, hinit, hout₃⟩ := h.fatInitDir_spec junk hchain dir.startCluster
    exact ⟨d₃, hinit, h.entryAdded_keep hadd hdir (hscan hflag) hout₃⟩
  next => exact ⟨d₂, rfl, hadd⟩

end SectorLayout

/-! ## `FAT_remove` -/

/-- Setting the entry of an end mark changes no byte of the directory that lookups use. -/
def MarkSpares (ctx : FatContext) (cs : List ℕ) (mark : ℕ) : Prop :=
  ∀ j < slotCount ctx cs, ∀ o, UsedByte o → ¬ EntryByte ctx mark (slotStart ctx cs j + o)

/-- INTERNAL: the rest of `FAT_remove` from an entry on. -/
def removeFrom (ctx : FatContext) (junk : Uninit) (file : FatHandle) (fuel i : ℕ)
    (entry : List Byte) (d : Disk) : Option Disk := do
  let next ← fatDirEntry ctx junk file.dirCluster i d
  fatRemoveLoop ctx junk file (fatConvFname file.name) fuel i next.1 (next.2.getD entry) d

/-- The entries of a name from the `i`-th on can be removed: each begins a chain, apart from
the other ones and the directory, and its end mark spares the directory. -/
structure Removable (ctx : FatContext) (cs : List ℕ) (conv : List Byte) (chainOf : ℕ → List ℕ)
    (i : ℕ) (d : Disk) : Prop where
  chain : ∀ k, i ≤ k → k < slotCount ctx cs → slotName ctx cs d k = conv →
    FatChain ctx d (chainOf k)
  head : ∀ k, i ≤ k → k < slotCount ctx cs → slotName ctx cs d k = conv →
    (chainOf k).head? = some (entryFirstClusterLow (dirSlot ctx cs d k))
  outside : ∀ k, i ≤ k → k < slotCount ctx cs → slotName ctx cs d k = conv →
    (chainOf k).Disjoint cs
  spares : ∀ k, i ≤ k → k < slotCount ctx cs → slotName ctx cs d k = conv →
    ∀ hne, MarkSpares ctx cs (fatGetEntry ctx 0 ((chainOf k).getLast hne) d)
  apart : ∀ j k, i ≤ j → j < k → k < slotCount ctx cs → slotName ctx cs d j = conv →
    slotName ctx cs d k = conv → (chainOf j).Disjoint (chainOf k)

/-- They have been removed: they are free, the other entries keep the bytes that lookups use,
and the clusters of other chains their links. -/
structure Removed (ctx : FatContext) (cs : List ℕ) (conv : List Byte) (chainOf : ℕ → List ℕ)
    (i : ℕ) (d d' : Disk) : Prop where
  entries : ∀ e, DataCluster ctx e →
    (∀ k, i ≤ k → k < slotCount ctx cs → slotName ctx cs d k = conv → e ∉ chainOf k) →
    fatGetEntry ctx 0 e d' = fatGetEntry ctx 0 e d
  freed : ∀ k, i ≤ k → k < slotCount ctx cs → slotName ctx cs d k = conv →
    entryIsFree (dirSlot ctx cs d' k)
  others : ∀ k < slotCount ctx cs, ¬ (i ≤ k ∧ slotName ctx cs d k = conv) →
    ∀ o, UsedByte o → d' (slotStart ctx cs k + o) = d (slotStart ctx cs k + o)

/-- The `i`-th entry has been removed. -/
structure RemovedOne (ctx : FatContext) (cs : List ℕ) (chain : List ℕ) (i : ℕ)
    (d d' : Disk) : Prop where
  entries : ∀ e, DataCluster ctx e →
    fatGetEntry ctx 0 e d' = if e ∈ chain then 0 else fatGetEntry ctx 0 e d
  cleared : dirSlot ctx cs d' i = zeroEntry
  others : ∀ k < slotCount ctx cs, k ≠ i → ∀ o, UsedByte o →
    d' (slotStart ctx cs k + o) = d (slotStart ctx cs k + o)

namespace RemovedOne

variable {i : ℕ} {conv : List Byte} {chainOf : ℕ → List ℕ} {d₁ : Disk}
  (hone : RemovedOne ctx cs (chainOf i) i d d₁)
include hone

theorem slotName_eq (hk : k < slotCount ctx cs) (hne : k ≠ i) :
    slotName ctx cs d₁ k = slotName ctx cs d k :=
  (slot_congr (hone.others k hk hne)).1

/-- The entries behind it can be removed as before. -/
theorem removable (hrem : Removable ctx cs conv chainOf i d)
    (hmatch : slotName ctx cs d i = conv) : Removable ctx cs conv chainOf (i + 1) d₁ := by
  have hold : ∀ k, i + 1 ≤ k → k < slotCount ctx cs → slotName ctx cs d₁ k = conv →
      slotName ctx cs d k = conv := fun k hk hkn hname => by
    rwa [hone.slotName_eq hkn (by omega)] at hname
  have hlinks : ∀ k, i + 1 ≤ k → k < slotCount ctx cs → slotName ctx cs d k = conv →
      ∀ e ∈ chainOf k, fatGetEntry ctx 0 e d₁ = fatGetEntry ctx 0 e d := by
    intro k hk hkn hname e he
    rw [hone.entries e ((hrem.chain k (by omega) hkn hname).2 e he), if_neg fun hmem =>
      hrem.apart i k (Nat.le_refl i) hk hkn hmatch hname hmem he]
  refine ⟨fun k hk hkn hname => ?_, fun k hk hkn hname => ?_, fun k hk hkn hname => ?_,
    fun k hk hkn hname hne => ?_, fun j k hj hjk hkn hnamej hnamek => ?_⟩
  · have hname' := hold k hk hkn hname
    exact (hrem.chain k (by omega) hkn hname').congr (hlinks k hk hkn hname')
  · rw [(slot_congr (hone.others k hkn (by omega))).2.2]
    exact hrem.head k (by omega) hkn (hold k hk hkn hname)
  · exact hrem.outside k (by omega) hkn (hold k hk hkn hname)
  · have hname' := hold k hk hkn hname
    rw [hlinks k hk hkn hname' _ (List.getLast_mem hne)]
    exact hrem.spares k (by omega) hkn hname' hne
  · exact hrem.apart j k (by omega) hjk hkn (hold j hj (by omega) hnamej)
      (hold k (by omega) hkn hnamek)

/-- With the entries behind it, it has been removed. -/
theorem removed (hi : i < slotCount ctx cs) (hmatch : slotName ctx cs d i = conv)
    (hrest : Removed ctx cs conv chainOf (i + 1) d₁ d') :
    Removed ctx cs conv chainOf i d d' := by
  refine ⟨fun e he hnot => ?_, fun k hk hkn hname => ?_, fun k hkn hand o ho => ?_⟩
  · rw [hrest.entries e he fun k hk hkn hname => hnot k (by omega) hkn
      (hone.slotName_eq hkn (by omega) ▸ hname), hone.entries e he,
      if_neg (hnot i (Nat.le_refl i) hi hmatch)]
  · by_cases heq : k = i
    · -- it stays free
      obtain ⟨hname', -⟩ := slot_congr (hrest.others k hkn fun hand => by omega)
      rw [entryIsFree_slot, hname', ← entryIsFree_slot, heq, hone.cleared]
      rfl
    · exact hrest.freed k (by omega) hkn ((hone.slotName_eq hkn heq).trans hname)
  · have hne : k ≠ i := by
      rintro rfl
      exact hand ⟨Nat.le_refl k, hmatch⟩
    rw [hrest.others k hkn (fun hand' => hand ⟨by omega, hone.slotName_eq hkn hne ▸ hand'.2⟩) o ho,
      hone.others k hkn hne o ho]

end RemovedOne

/-- An entry of another name is passed. -/
theorem Removed.pass {i : ℕ} {conv : List Byte} {chainOf : ℕ → List ℕ}
    (hmatch : slotName ctx cs d i ≠ conv) (hrest : Removed ctx cs conv chainOf (i + 1) d d') :
    Removed ctx cs conv chainOf i d d' := by
  have hnext : ∀ k, i ≤ k → slotName ctx cs d k = conv → i + 1 ≤ k := by
    intro k hk hname
    obtain rfl | hgt := Nat.eq_or_lt_of_le hk
    · exact absurd hname hmatch
    · exact hgt
  refine ⟨fun e he hnot => hrest.entries e he fun k hk => hnot k (by omega),
    fun k hk hkn hname => hrest.freed k (hnext k hk hname) hkn hname, fun k hkn hand => ?_⟩
  exact hrest.others k hkn fun hand' => hand ⟨by omega, hand'.2⟩

theorem Removable.pass {i : ℕ} {conv : List Byte} {chainOf : ℕ → List ℕ}
    (hrem : Removable ctx cs conv chainOf i d) : Removable ctx cs conv chainOf (i + 1) d where
  chain k hk := hrem.chain k (by omega)
  head k hk := hrem.head k (by omega)
  outside k hk := hrem.outside k (by omega)
  spares k hk := hrem.spares k (by omega)
  apart j k hj := hrem.apart j k (by omega)

namespace SectorLayout

variable (h : SectorLayout ctx) {file : FatHandle} {fuel i : ℕ} {entry : List Byte}
include h

/-- INTERNAL: one entry of the scan. -/
theorem removeFrom_succ (hdir : DirClusters ctx d file.dirCluster cs)
    (hvalid : ValidName file.name) (hi : i < slotCount ctx cs) :
    removeFrom ctx junk file (fuel + 1) i entry d =
      if slotName ctx cs d i = fatConvFname file.name then
        (fatRemoveEntry ctx file i (dirSlot ctx cs d i) d).bind
          (removeFrom ctx junk file fuel (i + 1) zeroEntry)
      else removeFrom ctx junk file fuel (i + 1) (dirSlot ctx cs d i) d := by
  have hcount := h.slotCount_lt hdir
  rw [removeFrom, h.fatDirEntry_slot hdir hi, Option.bind_eq_bind, Option.bind_some,
    fatRemoveLoop, if_neg (not_not.mpr rfl), Option.getD_some]
  simp only [memcmp_slot hvalid, add32_eq (show i + 1 < 2 ^ 32 by omega)]
  rfl

/-- **One entry is removed.**  Its chain is freed and its bytes become `0`; the other entries
keep the bytes that lookups use.
SRCLINE: fat.c:863-869 -/
theorem fatRemoveEntry_spec (hdir : DirClusters ctx d file.dirCluster cs)
    (hk : k < slotCount ctx cs) {fs : List ℕ} (hchain : FatChain ctx d fs)
    (hhead : fs.head? = some (entryFirstClusterLow (dirSlot ctx cs d k))) (hapart : fs.Disjoint cs)
    (hmark : ∀ hne, MarkSpares ctx cs (fatGetEntry ctx 0 (fs.getLast hne) d)) :
    ∃ d', fatRemoveEntry ctx file k (dirSlot ctx cs d k) d = some d' ∧
      DirClusters ctx d' file.dirCluster cs ∧ RemovedOne ctx cs fs k d d' := by
  obtain ⟨c, fs, rfl⟩ := List.exists_cons_of_ne_nil hchain.1.ne_nil
  obtain rfl := Option.some.inj hhead
  have hlength := hchain.length_le
  have hcount := h.dataClusters_lt
  obtain ⟨d₁, hfreed, hentries, hout⟩ := fatFreeClusterChain_spec h hchain
    (show _ < fatFuel by unfold fatFuel; omega)
  have hdir₁ : DirClusters ctx d₁ file.dirCluster cs := by
    obtain hroot | ⟨hstart, hdirChain⟩ := hdir
    · exact .inl hroot
    · refine .inr ⟨hstart, hdirChain.congr fun e he => ?_⟩
      rw [hentries e (hdirChain.2 e he), if_neg fun hmem => hapart hmem he]
  obtain ⟨-, x, hoff⟩ := h.slot_offset hdir₁ hk
  have htables : ∀ y, InTables ctx y → d₁.write (slotStart ctx cs k) zeroEntry y = d₁ y :=
    fun y hy => Store.write_of_lt _ _ (Nat.lt_of_not_le fun hle => h.slot_not_inTables hle hy)
  have hzero : zeroEntry.length = 32 := rfl
  refine ⟨d₁.write (slotStart ctx cs k) zeroEntry, ?_, ?_, fun e he => ?_, ?_,
    fun j hj hne o ho => ?_⟩
  · rw [fatRemoveEntry, hfreed, Option.bind_eq_bind, Option.bind_some, hoff]
    rfl
  · obtain hroot | ⟨hstart, hdirChain⟩ := hdir₁
    · exact .inl hroot
    · exact .inr ⟨hstart, hdirChain.congr fun e he =>
        fatGetEntry_of_tables h.toFatLayout htables (hdirChain.2 e he)⟩
  · rw [fatGetEntry_of_tables h.toFatLayout htables he, hentries e he]
  · exact Store.read_write_self d₁ (slotStart ctx cs k) zeroEntry
  · have hslots := h.slots_apart hdir hj hk hne
    have hoffset : o < 32 := by
      unfold UsedByte at ho
      omega
    rw [Store.write_of_notMem _ _ (by omega)]
    exact hout _ (h.slot_not_inTables (Nat.le_add_right _ _)) (hmark _ j hj o ho)

/-- INTERNAL: the scan of `FAT_remove`, by induction on the entries that are left. -/
theorem removeFrom_spec {chainOf : ℕ → List ℕ} (hdir : DirClusters ctx d file.dirCluster cs)
    (hjunk : file.dirCluster < 2 → junk.lastFreeCluster ≠ 0) (hvalid : ValidName file.name)
    (hi : i ≤ slotCount ctx cs) (hfuel : slotCount ctx cs - i < fuel)
    (hrem : Removable ctx cs (fatConvFname file.name) chainOf i d) :
    ∃ d', removeFrom ctx junk file fuel i entry d = some d' ∧
      DirClusters ctx d' file.dirCluster cs ∧
      Removed ctx cs (fatConvFname file.name) chainOf i d d' := by
  induction fuel generalizing i entry d with
  | zero => exact absurd hfuel (Nat.not_lt_zero _)
  | succ fuel ih =>
      obtain rfl | hlt := Nat.eq_or_lt_of_le hi
      · -- behind the last entry
        obtain ⟨fail, hfail, hpast⟩ := h.fatDirEntry_end hdir hjunk
        refine ⟨d, ?_, hdir, fun _ _ _ => rfl, fun k hk hkn => ?_, fun _ _ _ _ _ => rfl⟩
        · rw [removeFrom, hpast, Option.bind_eq_bind, Option.bind_some, fatRemoveLoop,
            if_pos hfail]
        · exact absurd hk (by omega)
      rw [h.removeFrom_succ hdir hvalid hlt]
      by_cases hmatch : slotName ctx cs d i = fatConvFname file.name
      · obtain ⟨d₁, hentry, hdir₁, hone⟩ := h.fatRemoveEntry_spec hdir hlt
          (hrem.chain i (Nat.le_refl i) hlt hmatch) (hrem.head i (Nat.le_refl i) hlt hmatch)
          (hrem.outside i (Nat.le_refl i) hlt hmatch) (hrem.spares i (Nat.le_refl i) hlt hmatch)
        obtain ⟨d', hrest, hdir', hremoved⟩ :=
          ih hdir₁ hlt (by omega) (hone.removable hrem hmatch)
        refine ⟨d', ?_, hdir', hone.removed hlt hmatch hremoved⟩
        rw [if_pos hmatch, hentry, Option.bind_some]
        exact hrest
      · obtain ⟨d', hrest, hdir', hremoved⟩ := ih hdir hlt (by omega) hrem.pass
        refine ⟨d', ?_, hdir', hremoved.pass hmatch⟩
        rw [if_neg hmatch]
        exact hrest

/-- **`FAT_remove`.**  Every entry of the name becomes free and its chain is freed; the other
entries keep the bytes that lookups use, and the other chains their links.
SRCLINE: fat.c:855-874 -/
theorem fatRemove_spec {chainOf : ℕ → List ℕ} (hdir : DirClusters ctx d file.dirCluster cs)
    (hjunk : file.dirCluster < 2 → junk.lastFreeCluster ≠ 0) (hvalid : ValidName file.name)
    (hrem : Removable ctx cs (fatConvFname file.name) chainOf 0 d) :
    ∃ d', fatRemove ctx junk file d = some d' ∧ DirClusters ctx d' file.dirCluster cs ∧
      Removed ctx cs (fatConvFname file.name) chainOf 0 d d' := by
  have hcount := h.slotCount_lt hdir
  have hfuel : slotCount ctx cs - 0 < fatFuel := by
    unfold fatFuel
    omega
  exact h.removeFrom_spec hdir hjunk hvalid (Nat.zero_le _) hfuel hrem

end SectorLayout

end LakeOS.Analysis
