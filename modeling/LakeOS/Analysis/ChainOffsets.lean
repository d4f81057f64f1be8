import LakeOS.Analysis.VolumeLayout
import LakeOS.Analysis.WalkEnds

/-!
# Offsets along a chain

`FAT_absolute_offset` follows the chain from its first cluster, one entry for each cluster of
the offset.  It does so on any volume of the two smaller types, however its sectors are counted,
and along any chain, also one with numbers of no cluster.
-/

set_option autoImplicit false

namespace LakeOS.Analysis

open LakeOS.Library LakeOS.Model

/-- Numbers of at least 2, each the entry of the one before; the last entry is an end mark. -/
def EocChain (ctx : FatContext) (d : Disk) (cs : List ℕ) : Prop :=
  Chain (fun c => fatGetEntry ctx 0 c d) (fun e => fatIsEoc ctx e) cs ∧ ∀ c ∈ cs, 2 ≤ c

section

variable {ctx : FatContext} {d d₀ : Disk} {allocated c : ℕ} {cs : List ℕ}

/-- INTERNAL: what is behind the first number was read from the table. -/
theorem chain_tail_lt (htype : ctx.type = .fat12 ∨ ctx.type = .fat16)
    (hchain : Chain (fun c => fatGetEntry ctx 0 c d) (fun e => fatIsEoc ctx e) (c :: cs)) :
    ∀ e ∈ cs, e < 2 ^ 16 := by
  induction cs generalizing c with
  | nil => simp
  | cons b cs ih =>
    obtain ⟨hnext, -, hrest⟩ := hchain
    intro e he
    rcases List.mem_cons.mp he with rfl | he
    · rw [← hnext]
      exact (fatGetEntry_bound ctx c d).2 htype
    · exact ih hrest e he

/-- INTERNAL: so a chain has fewer numbers than `fatFuel`. -/
theorem EocChain.length_le_fuel (htype : ctx.type = .fat12 ∨ ctx.type = .fat16)
    (hchain : EocChain ctx d (c :: cs)) : (c :: cs).length ≤ fatFuel := by
  have htail := chain_tail_lt htype hchain.1
  have hsub : cs ⊆ List.range (2 ^ 16) := fun e he => List.mem_range.mpr (htail e he)
  have hnodup : cs.Nodup := (List.nodup_cons.mp hchain.1.nodup).2
  have hle := (hnodup.subperm hsub).length_le
  rw [List.length_range] at hle
  rw [List.length_cons]
  unfold fatFuel
  omega

/-- INTERNAL: a mounted cluster has bytes. -/
theorem bytesPClus_pos (hmount : fatMount allocated d₀ = some ctx) (h : ValidVolume d₀ ctx) :
    0 < ctx.bytesPClus := by
  obtain ⟨hboot, -, -, hbytes⟩ := fatMount_fields hmount
  have hspc : ctx.bootSector.sectorsPerCluster < 256 ^ 1 := by
    rw [hboot]
    exact Store.load_lt d₀ 1 13
  have hbps : ctx.bootSector.bytesPerSector < 256 ^ 2 := by
    rw [hboot]
    exact Store.load_lt d₀ 2 11
  have hlt := Nat.mul_le_mul hspc.le hbps.le
  rw [hbytes, mul32_eq (by omega)]
  exact Nat.mul_pos h.sectorsPerCluster h.bytesPerSector

/-- INTERNAL: no address of a cluster of the volume wraps around. -/
theorem clusterByte_lt (hmount : fatMount allocated d₀ = some ctx) (h : ValidVolume d₀ ctx)
    (htype : typeOfClusters (clusterCount d₀ ctx) ≠ .fat32) (hc : 2 ≤ c)
    (hlt : c < clusterCount d₀ ctx + 2) {rest : ℕ} (hrest : rest < ctx.bytesPClus) :
    add32 (fatClusToOff ctx c) rest = fatClusToOff ctx c + rest ∧
      fatClusToOff ctx c + rest < volumeBytes d₀ ctx := by
  have hspf : ctx.bootSector.sectorsPerFat ≠ 0 := fun hzero => htype (h.fat32.mpr hzero)
  obtain ⟨hstart, hinside⟩ :=
    fatClusToOff_valid h hmount (dataRegionStart_eq h hmount hspf) hc hlt
  have hvolume := h.volume
  rw [hstart]
  exact ⟨add32_eq (by omega), by omega⟩

/-- INTERNAL: the address in a chain of any numbers, also inside its first cluster.
SRCLINE: fat.c:421-450 -/
theorem fatAbsoluteOffset_eq (htype : ctx.type = .fat12 ∨ ctx.type = .fat16)
    (hpos : 0 < ctx.bytesPClus) (hchain : EocChain ctx d (c :: cs)) (offset : ℕ) :
    fatAbsoluteOffset ctx c offset d =
      some (if offset / ctx.bytesPClus ≤ cs.length then
        (add32 (fatClusToOff ctx ((c :: cs).getD (offset / ctx.bytesPClus) 0))
          (offset % ctx.bytesPClus), none)
      else (0, some (cs.getLastD c))) := by
  have hcluster : 2 ≤ c := hchain.2 c List.mem_cons_self
  rw [fatAbsoluteOffset, if_neg (by omega)]
  split
  next hfirst =>
    rw [Nat.div_eq_of_lt hfirst, Nat.mod_eq_of_lt hfirst, if_pos (Nat.zero_le _)]
    rfl
  next =>
    exact fatAbsoluteOffsetLoop_chain hpos offset hchain.1 (hchain.length_le_fuel htype)

end

/-- **Offsets along a chain.**  The offset is found in the cluster that it falls into, at what is
left of it; this address lies in the volume if the cluster does.  Behind the chain `0` is returned,
and the last cluster.
SRCLINE: fat.c:421-450, fat.c:477-483, fat.c:129-164 -/
theorem fatAbsoluteOffset_chain {allocated c : ℕ} {d₀ d : Disk} {ctx : FatContext} {cs : List ℕ}
    (hmount : fatMount allocated d₀ = some ctx) (h : ValidVolume d₀ ctx)
    (htype : typeOfClusters (clusterCount d₀ ctx) ≠ .fat32) (hchain : EocChain ctx d (c :: cs))
    (offset : ℕ) :
    (∀ hq : offset / ctx.bytesPClus < (c :: cs).length,
      fatAbsoluteOffset ctx c offset d =
          some (add32 (fatClusToOff ctx (c :: cs)[offset / ctx.bytesPClus])
            (offset % ctx.bytesPClus), none) ∧
        ((c :: cs)[offset / ctx.bytesPClus] < clusterCount d₀ ctx + 2 →
          fatAbsoluteOffset ctx c offset d =
              some (fatClusToOff ctx (c :: cs)[offset / ctx.bytesPClus] +
                offset % ctx.bytesPClus, none) ∧
            fatClusToOff ctx (c :: cs)[offset / ctx.bytesPClus] + offset % ctx.bytesPClus <
              volumeBytes d₀ ctx)) ∧
    ((c :: cs).length ≤ offset / ctx.bytesPClus →
      fatAbsoluteOffset ctx c offset d =
        some (0, some ((c :: cs).getLast (List.cons_ne_nil c cs)))) := by
  have hspf : ctx.bootSector.sectorsPerFat ≠ 0 := fun hzero => htype (h.fat32.mpr hzero)
  have htype' : ctx.type = .fat12 ∨ ctx.type = .fat16 := by
    rw [type_eq hmount hspf]
    unfold typeOfClusters at htype ⊢
    split_ifs at htype ⊢
    · exact .inl rfl
    · exact .inr rfl
    · exact absurd rfl htype
  have hpos := bytesPClus_pos hmount h
  have heq := fatAbsoluteOffset_eq htype' hpos hchain offset
  have hlen : (c :: cs).length = cs.length + 1 := List.length_cons
  constructor
  · intro hq
    rw [if_pos (by omega), List.getD_eq_getElem _ _ hq] at heq
    refine ⟨heq, fun hlt => ?_⟩
    have hcluster := hchain.2 _ (List.getElem_mem hq)
    obtain ⟨hadd, hinside⟩ :=
      clusterByte_lt hmount h htype hcluster hlt (Nat.mod_lt offset hpos)
    rw [hadd] at heq
    exact ⟨heq, hinside⟩
  · intro hq
    rw [if_neg (by omega)] at heq
    rw [heq, List.getLast_eq_getLastD]

/-- A table with the chain of the clusters 2 and 3. -/
def twoClusters : Disk := Store.write (fun _ => 0) 515 [0x03, 0xF0, 0xFF]

theorem twoClusters_chain : EocChain floppy twoClusters [2, 3] :=
  ⟨⟨by decide, by decide, by show fatIsEoc _ _ = true; decide⟩, by decide⟩

theorem fatAbsoluteOffset_chain_floppy :
    fatAbsoluteOffset floppy 2 1000 twoClusters = some (fatClusToOff floppy 3 + 488, none) ∧
      fatAbsoluteOffset floppy 2 1024 twoClusters = some (0, some 3) := by
  have hsmall : typeOfClusters (clusterCount floppyDisk floppy) ≠ .fat32 := by decide
  have hspec := fatAbsoluteOffset_chain fatMount_floppyDisk floppy_valid hsmall twoClusters_chain
  exact ⟨(((hspec 1000).1 (by decide)).2 (by decide)).1, (hspec 1024).2 (by decide)⟩

end LakeOS.Analysis
