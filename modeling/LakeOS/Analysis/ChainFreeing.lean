import LakeOS.Analysis.EntryNibbles
import LakeOS.Analysis.FatCursor
import LakeOS.Model.FatEntries

/-!
# What is freed with a chain

`FAT_free_cluster_chain` sets the entries of the chain to `0`, and then the entry of the last
number that it has read, which is an end mark.  Such a number has an entry as well, behind the
entries of the clusters: in the next copy of the table, in the root directory, or in the data.
-/

set_option autoImplicit false

namespace LakeOS.Analysis

open LakeOS.Library LakeOS.Model

/-! ## Volumes with a number of clusters -/

/-- A FAT12 or FAT16 volume of `n` data clusters, whose tables have an entry for each of them.
How the sectors are counted does not matter. -/
structure FatVolume (ctx : FatContext) (n : ℕ) : Prop extends FatTables ctx where
  numFat : 1 ≤ ctx.bootSector.numFat
  count : ctx.type = .fat12 ∧ n < 4085 ∨ ctx.type = .fat16 ∧ n < 65525
  holds : ∀ c < n + 2, InTable ctx c

/-- A chain of clusters of the volume that ends in an end mark. -/
def VolumeChain (ctx : FatContext) (n : ℕ) (d : Disk) (cs : List ℕ) : Prop :=
  Chain (fun c => fatGetEntry ctx 0 c d) (fun e => fatIsEoc ctx e) cs ∧
    ∀ c ∈ cs, 2 ≤ c ∧ c < n + 2

/-- The volumes with 16 bits of sectors are among them. -/
theorem FatLayout.toFatVolume {ctx : FatContext} (h : FatLayout ctx) :
    FatVolume ctx (dataClusters ctx) where
  type := h.type.imp And.left And.left
  tables := h.tables_lt.le
  numFat := h.numFat
  count := h.type
  holds := h.holds

variable {ctx : FatContext} {n c : ℕ} {cs : List ℕ} {d d' : Disk}

namespace FatVolume

theorem not_eoc (h : FatVolume ctx n) (hc : c < n + 2) : fatIsEoc ctx c = false := by
  unfold fatIsEoc
  rcases h.count with ⟨htype, hlt⟩ | ⟨htype, hlt⟩
  · simp [htype]
    omega
  · simp [htype]
    omega

/-- The value that is set is the entry of a cluster of the volume. -/
theorem mod_eq (h : FatVolume ctx n) (hc : c < n + 2) : c % entryModulus ctx = c := by
  unfold entryModulus
  rcases h.count with ⟨htype, hlt⟩ | ⟨htype, hlt⟩
  · simp [htype]
    omega
  · simp [htype]
    omega

/-- A chain has no more clusters than there are numbers. -/
theorem chain_lt_fuel (h : FatVolume ctx n) (hchain : VolumeChain ctx n d cs) :
    cs.length + 1 < fatFuel := by
  have hsub : cs ⊆ List.range (n + 2) := fun c hc => List.mem_range.mpr (hchain.2 c hc).2
  have hle := (hchain.1.nodup.subperm hsub).length_le
  rw [List.length_range] at hle
  have hlt : n < 65525 := by
    rcases h.count with hcount | hcount
    · omega
    · omega
  unfold fatFuel
  omega

end FatVolume

/-! ## Freeing -/

/-- The number that ends a chain. -/
def chainMark (ctx : FatContext) (d : Disk) (cs : List ℕ) : ℕ :=
  fatGetEntry ctx 0 (cs.getLastD 0) d

/-- **What `FAT_free_cluster_chain` clears**: the entries of the chain and that of its mark.
SRCLINE: fat.c:688-699 -/
theorem fatFreeClusterChain_nibbles (h : FatVolume ctx n) {fuel : ℕ}
    (hchain : VolumeChain ctx n d (c :: cs)) (hfuel : (c :: cs).length < fuel) :
    ∃ d', fatFreeClusterChain ctx fuel c d = some d' ∧ ∀ m, d'.nibble m =
      if (∃ e ∈ c :: cs, EntryNibble ctx e m) ∨
        EntryNibble ctx (chainMark ctx d (c :: cs)) m then 0 else d.nibble m := by
  have hc : c < n + 2 := (hchain.2 c List.mem_cons_self).2
  have hnot := h.not_eoc hc
  induction cs generalizing c d fuel with
  | nil =>
    obtain ⟨fuel, rfl⟩ := Nat.exists_eq_add_of_le' (show 2 ≤ fuel from hfuel)
    have hmark : fatIsEoc ctx (fatGetEntry ctx 0 c d) := hchain.1
    refine ⟨fatSetEntries ctx (fatGetEntry ctx 0 c d) 0x0 (fatSetEntries ctx c 0x0 d), ?_, ?_⟩
    · rw [fatFreeClusterChain, if_neg (by simp [hnot])]
      exact if_pos hmark
    · intro m
      rw [nibble_setEntries_zero h.type, nibble_setEntries_zero h.type]
      simp only [chainMark, List.getLastD_cons, List.getLastD_nil, List.mem_singleton,
        exists_eq_left]
      by_cases hm : EntryNibble ctx (fatGetEntry ctx 0 c d) m
      · simp [hm]
      · simp [hm]
  | cons b cs ih =>
    obtain ⟨fuel, rfl⟩ := Nat.exists_eq_add_of_le' (show 1 ≤ fuel by omega)
    obtain ⟨hnext, -, hrest⟩ := hchain.1
    have hnotin : c ∉ b :: cs := (List.nodup_cons.mp hchain.1.nodup).1
    have hin : ∀ e ∈ b :: cs, 2 ≤ e ∧ e < n + 2 := fun e he =>
      hchain.2 e (List.mem_cons_of_mem c he)
    -- the links behind are not cleared with the entry
    have hsame : ∀ e ∈ b :: cs,
        fatGetEntry ctx 0 e (fatSetEntries ctx c 0x0 d) = fatGetEntry ctx 0 e d := by
      intro e he
      rw [h.fatGetEntry_setEntries h.numFat (h.holds c hc) (h.holds e (hin e he).2),
        if_neg (fun heq : e = c => hnotin (heq ▸ he))]
    have htail : VolumeChain ctx n (fatSetEntries ctx c 0x0 d) (b :: cs) :=
      ⟨hrest.congr hsame, hin⟩
    rw [List.length_cons] at hfuel
    have hb := (hin b List.mem_cons_self).2
    obtain ⟨d', hrun, hnibbles⟩ := ih htail (Nat.lt_of_succ_lt_succ hfuel) hb (h.not_eoc hb)
    have hmark : chainMark ctx (fatSetEntries ctx c 0x0 d) (b :: cs) =
        chainMark ctx d (c :: b :: cs) := by
      unfold chainMark
      rw [List.getLastD_cons, List.getLastD_cons, List.getLastD_cons]
      exact hsame _ (List.getLastD_mem_cons)
    refine ⟨d', ?_, ?_⟩
    · rw [fatFreeClusterChain, if_neg (by simp [hnot]), show fatGetEntry ctx 0 c d = b from hnext]
      exact hrun
    · intro m
      rw [hnibbles, hmark, nibble_setEntries_zero h.type]
      by_cases hm : EntryNibble ctx c m
      · simp [hm]
      · simp [hm]

/-- Exactly the entries of the chain are set to `0`, in every copy of the table, and nothing
else on the disk is changed. -/
def FreesOnly (ctx : FatContext) (c : ℕ) (cs : List ℕ) (d : Disk) : Prop :=
  ∃ d', fatFreeClusterChain ctx fatFuel c d = some d' ∧ ∀ m, d'.nibble m =
    if ∃ e ∈ c :: cs, EntryNibble ctx e m then 0 else d.nibble m

/-- The entry of the mark that ends the chain holds only zeros already, where it is not part
of an entry of the chain. -/
def MarkClear (ctx : FatContext) (d : Disk) (cs : List ℕ) : Prop :=
  ∀ m, EntryNibble ctx (chainMark ctx d cs) m → d.nibble m = 0 ∨ ∃ e ∈ cs, EntryNibble ctx e m

/-- INTERNAL: freeing clears the mark's entry as well. -/
theorem freesOnly_of_run (hrun : fatFreeClusterChain ctx fatFuel c d = some d')
    (hnibbles : ∀ m, d'.nibble m = if (∃ e ∈ c :: cs, EntryNibble ctx e m) ∨
      EntryNibble ctx (chainMark ctx d (c :: cs)) m then 0 else d.nibble m) :
    FreesOnly ctx c cs d ↔ MarkClear ctx d (c :: cs) := by
  constructor
  · rintro ⟨d'', hrun', honly⟩ m hm
    cases hrun.symm.trans hrun'
    have hboth := (hnibbles m).symm.trans (honly m)
    rw [if_pos (.inr hm)] at hboth
    by_cases hin : ∃ e ∈ c :: cs, EntryNibble ctx e m
    · exact .inr hin
    · rw [if_neg hin] at hboth
      exact .inl hboth.symm
  · intro hclear
    refine ⟨d', hrun, fun m => ?_⟩
    rw [hnibbles]
    by_cases hin : ∃ e ∈ c :: cs, EntryNibble ctx e m
    · rw [if_pos (.inl hin), if_pos hin]
    · rw [if_neg hin]
      by_cases hm : EntryNibble ctx (chainMark ctx d (c :: cs)) m
      · rw [if_pos (.inr hm), (hclear m hm).resolve_right hin]
      · rw [if_neg (fun hor => hor.elim hin hm)]

/-- **Freeing a chain touches only the chain** if and only if there is nothing to clear in the
entry of its end mark.
SRCLINE: fat.c:688-699 -/
theorem freesOnly_iff (h : FatVolume ctx n) (hchain : VolumeChain ctx n d (c :: cs)) :
    FreesOnly ctx c cs d ↔ MarkClear ctx d (c :: cs) := by
  have hfuel : (c :: cs).length < fatFuel := by
    have hlt := h.chain_lt_fuel hchain
    omega
  obtain ⟨d', hrun, hnibbles⟩ := fatFreeClusterChain_nibbles h hchain hfuel
  exact freesOnly_of_run hrun hnibbles

/-! A floppy disk with a chain of one cluster. -/

theorem oneCluster_volumeChain : VolumeChain floppy (dataClusters floppy) oneCluster [2] :=
  oneCluster_chain

theorem freesOnly_floppy :
    FreesOnly floppy 2 [] oneCluster ↔ MarkClear floppy oneCluster [2] :=
  freesOnly_iff floppy_layout.toFatVolume oneCluster_volumeChain

/-- The same disk with a byte in the size of the entry 47 of its root directory. -/
def rootByte : Disk := fun x => if x = 11263 then 0x41 else oneCluster x

/-- The byte is cleared: it is where the entry of the mark `0xFFF` would be in the second
table. -/
theorem rootByte_cleared :
    VolumeChain floppy (dataClusters floppy) rootByte [2] ∧ ¬ FreesOnly floppy 2 [] rootByte := by
  have hchain : VolumeChain floppy (dataClusters floppy) rootByte [2] := by
    refine ⟨?_, fun c hc => ?_⟩
    · show fatIsEoc floppy (fatGetEntry floppy 0 2 rootByte) = true
      decide
    · rw [List.mem_singleton.mp hc]
      decide
  refine ⟨hchain, ?_⟩
  have hfuel : [2].length < fatFuel := by decide
  obtain ⟨d', hrun, hnibbles⟩ :=
    fatFreeClusterChain_nibbles floppy_layout.toFatVolume hchain hfuel
  rw [freesOnly_of_run hrun hnibbles]
  intro hclear
  have hmark : EntryNibble floppy (chainMark floppy rootByte [2]) 22526 := by decide
  rcases hclear 22526 hmark with hzero | hentry
  · exact absurd hzero (by decide)
  · exact absurd hentry (by decide)

end LakeOS.Analysis
