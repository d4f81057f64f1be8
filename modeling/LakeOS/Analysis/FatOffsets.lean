import LakeOS.Analysis.FatTable

/-!
# Addresses of the bytes of a file

`FAT_absolute_offset` follows a chain of clusters.  Inside the chain it gives the address
of the byte, behind its end `0` and the number of the last cluster.
-/

set_option autoImplicit false

namespace LakeOS.Analysis

open LakeOS.Library LakeOS.Model

variable {ctx : FatContext} {d : Disk} {c : ℕ} {cs : List ℕ}

/-- Where a cluster begins. -/
def clusterStart (ctx : FatContext) (c : ℕ) : ℕ := ctx.dataRegionStart + (c - 2) * ctx.bytesPClus

/-- Clusters lie apart. -/
theorem clusterStart_apart (ctx : FatContext) {a b : ℕ} (ha : 2 ≤ a) (hb : 2 ≤ b)
    (hne : a ≠ b) : clusterStart ctx a + ctx.bytesPClus ≤ clusterStart ctx b ∨
      clusterStart ctx b + ctx.bytesPClus ≤ clusterStart ctx a := by
  unfold clusterStart
  obtain hlt | hlt := Nat.lt_or_gt_of_ne hne
  · have hle := Nat.mul_le_mul_right ctx.bytesPClus (show a - 2 + 1 ≤ b - 2 by omega)
    rw [Nat.succ_mul] at hle
    omega
  · have hle := Nat.mul_le_mul_right ctx.bytesPClus (show b - 2 + 1 ≤ a - 2 by omega)
    rw [Nat.succ_mul] at hle
    omega

namespace FatLayout

/-- A data cluster ends inside the volume. -/
theorem clusterStart_le (h : FatLayout ctx) (hc : DataCluster ctx c) :
    clusterStart ctx c + ctx.bytesPClus ≤ volumeSize ctx := by
  have hdiv := Nat.div_mul_le_self (volumeSize ctx - ctx.dataRegionStart) ctx.bytesPClus
  have hle : (c - 2 + 1) * ctx.bytesPClus ≤ dataClusters ctx * ctx.bytesPClus :=
    Nat.mul_le_mul_right _ (by have := hc.1; have := hc.2; omega)
  have hdata := h.data
  rw [Nat.succ_mul] at hle
  unfold dataClusters at hle
  unfold clusterStart
  omega

theorem clusterStart_lt (h : FatLayout ctx) (hc : DataCluster ctx c) :
    clusterStart ctx c + ctx.bytesPClus < 2 ^ 32 :=
  Nat.lt_of_le_of_lt (h.clusterStart_le hc) h.volume

/-- The tables are not empty, so no data cluster begins at `0`. -/
theorem clusterStart_pos (h : FatLayout ctx) (c : ℕ) : 0 < clusterStart ctx c := by
  have hpos := Nat.mul_pos h.reserved h.bytesPerSector_pos
  have htables := h.tables
  unfold fatStart at htables
  unfold clusterStart
  omega

/-- INTERNAL: no address of a data cluster wraps around.
SRCLINE: fat.c:477-483 -/
theorem fatClusToOff_eq (h : FatLayout ctx) (hc : DataCluster ctx c) :
    fatClusToOff ctx c = clusterStart ctx c := by
  have hlt := h.clusterStart_lt hc
  have hcluster := hc.1
  have hcount := hc.2
  have htype := h.dataClusters_lt
  have hassoc : (c - 2) * ctx.bootSector.sectorsPerCluster * ctx.bootSector.bytesPerSector =
      (c - 2) * ctx.bytesPClus := by
    rw [h.bytesPClus, Nat.mul_assoc]
  have hfactor := Nat.le_mul_of_pos_right ((c - 2) * ctx.bootSector.sectorsPerCluster)
    h.bytesPerSector_pos
  unfold clusterStart at *
  have hsub : sub32 c 2 = c - 2 := sub32_eq hcluster (by omega)
  have hinner : mul32 (c - 2) ctx.bootSector.sectorsPerCluster =
      (c - 2) * ctx.bootSector.sectorsPerCluster := mul32_eq (by omega)
  rw [fatClusToOff, if_pos (by omega), hsub, hinner, mul32_eq (by omega), hassoc,
    add32_eq (by omega)]

end FatLayout

/-- INTERNAL: **the loop along a chain** of any numbers: it takes the size of a cluster from the
offset for each entry that it follows, and stops at the end mark.
SRCLINE: fat.c:436-449 -/
theorem fatAbsoluteOffsetLoop_chain (hpos : 0 < ctx.bytesPClus) {fuel : ℕ} (offset : ℕ)
    (hchain : Chain (fun c => fatGetEntry ctx 0 c d) (fun e => fatIsEoc ctx e) (c :: cs))
    (hfuel : (c :: cs).length ≤ fuel) :
    fatAbsoluteOffsetLoop ctx d fuel c offset =
      some (if offset / ctx.bytesPClus ≤ cs.length then
        (add32 (fatClusToOff ctx ((c :: cs).getD (offset / ctx.bytesPClus) 0))
          (offset % ctx.bytesPClus), none)
      else (0, some (cs.getLastD c))) := by
  induction cs generalizing c offset fuel with
  | nil =>
      obtain ⟨fuel, rfl⟩ := Nat.exists_eq_add_of_le' (show 1 ≤ fuel from hfuel)
      have heoc : fatIsEoc ctx (fatGetEntry ctx 0 c d) := hchain
      rw [fatAbsoluteOffsetLoop]
      by_cases hle : ctx.bytesPClus ≤ offset
      · have hbehind : ¬ offset / ctx.bytesPClus ≤ [].length (α := ℕ) := by
          have hone := Nat.div_pos hle hpos
          rw [List.length_nil]
          omega
        rw [if_pos hle, if_neg hbehind]
        exact if_pos heoc
      · rw [not_le] at hle
        rw [if_neg (by omega), Nat.div_eq_of_lt hle, Nat.mod_eq_of_lt hle, if_pos (Nat.zero_le _)]
        rfl
  | cons b cs ih =>
      obtain ⟨fuel, rfl⟩ := Nat.exists_eq_add_of_le' (show 1 ≤ fuel from
        Nat.le_trans (Nat.succ_le_succ (Nat.zero_le _)) hfuel)
      obtain ⟨hnext, hstop, hrest⟩ := hchain
      have hrec := ih (offset - ctx.bytesPClus) hrest (Nat.le_of_succ_le_succ hfuel)
      rw [fatAbsoluteOffsetLoop]
      by_cases hle : ctx.bytesPClus ≤ offset
      · simp only [if_pos hle, hnext, if_neg hstop]
        rw [hrec, Nat.div_eq_sub_div hpos hle, Nat.mod_eq_sub_mod hle, List.getD_cons_succ,
          List.length_cons, List.getLastD_cons]
        simp only [Nat.add_le_add_iff_right]
      · rw [not_le] at hle
        rw [if_neg (by omega), Nat.div_eq_of_lt hle, Nat.mod_eq_of_lt hle, if_pos (Nat.zero_le _)]
        rfl

/-- INTERNAL: the loop inside a chain and behind its end.
SRCLINE: fat.c:436-449 -/
theorem fatAbsoluteOffsetLoop_spec (h : FatLayout ctx) {fuel : ℕ} (offset : ℕ)
    (hchain : FatChain ctx d (c :: cs)) (hfuel : (c :: cs).length ≤ fuel) :
    (offset < (c :: cs).length * ctx.bytesPClus →
      fatAbsoluteOffsetLoop ctx d fuel c offset =
        some (clusterStart ctx ((c :: cs).getD (offset / ctx.bytesPClus) 0) +
          offset % ctx.bytesPClus, none)) ∧
    ((c :: cs).length * ctx.bytesPClus ≤ offset →
      ∃ last, 2 ≤ last ∧ fatAbsoluteOffsetLoop ctx d fuel c offset = some (0, some last)) := by
  rw [fatAbsoluteOffsetLoop_chain h.bytesPClus_pos offset hchain.1 hfuel, List.length_cons]
  constructor
  · intro hlt
    have hq : offset / ctx.bytesPClus < (c :: cs).length := Nat.div_lt_of_lt_mul (by
      rw [Nat.mul_comm]
      exact hlt)
    have hmem : (c :: cs).getD (offset / ctx.bytesPClus) 0 ∈ c :: cs := by
      rw [List.getD_eq_getElem _ _ hq]
      exact List.getElem_mem hq
    have hcluster := hchain.2 _ hmem
    have hfits := h.clusterStart_lt hcluster
    have hmod := Nat.mod_lt offset h.bytesPClus_pos
    rw [if_pos (Nat.lt_succ_iff.mp hq), h.fatClusToOff_eq hcluster, add32_eq (by omega)]
  · intro hle
    have hq : cs.length + 1 ≤ offset / ctx.bytesPClus :=
      (Nat.le_div_iff_mul_le h.bytesPClus_pos).mpr hle
    refine ⟨cs.getLastD c, ?_, ?_⟩
    · cases cs with
      | nil => exact (hchain.2 c List.mem_cons_self).1
      | cons b cs =>
          rw [List.getLastD_cons]
          exact (hchain.2 _ (List.mem_cons_of_mem c List.getLastD_mem_cons)).1
    · rw [if_neg (by omega)]

/-- A chain has fewer clusters than `fatFuel`. -/
theorem FatChain.length_le_fuel (h : FatLayout ctx) (hchain : FatChain ctx d cs) :
    cs.length ≤ fatFuel := by
  have hle := hchain.length_le
  have hcount := h.dataClusters_lt
  unfold fatFuel
  omega

/-- **The address of a byte of a chain.** -/
theorem fatAbsoluteOffset_inside (h : FatLayout ctx) (hchain : FatChain ctx d (c :: cs))
    {offset : ℕ} (hlt : offset < (c :: cs).length * ctx.bytesPClus) :
    fatAbsoluteOffset ctx c offset d =
      some (clusterStart ctx ((c :: cs).getD (offset / ctx.bytesPClus) 0) +
        offset % ctx.bytesPClus, none) := by
  have hc : DataCluster ctx c := hchain.2 c List.mem_cons_self
  have hcluster := hc.1
  rw [fatAbsoluteOffset, if_neg (by omega)]
  split
  next hfirst =>
    have hfits := h.clusterStart_lt hc
    rw [h.fatClusToOff_eq hc, add32_eq (by omega), Nat.div_eq_of_lt hfirst,
      Nat.mod_eq_of_lt hfirst]
    rfl
  next =>
    exact (fatAbsoluteOffsetLoop_spec h offset hchain (hchain.length_le_fuel h)).1 hlt

/-- Behind the end of a chain. -/
theorem fatAbsoluteOffset_past (h : FatLayout ctx) (hchain : FatChain ctx d (c :: cs))
    {offset : ℕ} (hle : (c :: cs).length * ctx.bytesPClus ≤ offset) :
    ∃ last, 2 ≤ last ∧ fatAbsoluteOffset ctx c offset d = some (0, some last) := by
  have hcluster := (hchain.2 c List.mem_cons_self).1
  have hfirst : ctx.bytesPClus ≤ (cs.length + 1) * ctx.bytesPClus :=
    Nat.le_mul_of_pos_left _ (Nat.succ_pos cs.length)
  rw [List.length_cons] at hle
  rw [fatAbsoluteOffset, if_neg (by omega), if_neg (by omega)]
  exact (fatAbsoluteOffsetLoop_spec h offset hchain (hchain.length_le_fuel h)).2 hle

/-- INTERNAL: the root directory begins behind the tables.
SRCLINE: fat.c:315-324 -/
theorem FatLayout.rootDir_eq (h : FatLayout ctx) :
    mul32 (rootDirSector ctx) ctx.bootSector.bytesPerSector =
      fatStart ctx + ctx.bootSector.numFat * fatBytes ctx := by
  have hlt := h.tables_lt
  have hsum : (ctx.bootSector.reservedSectors +
      ctx.bootSector.numFat * ctx.bootSector.sectorsPerFat) * ctx.bootSector.bytesPerSector =
      fatStart ctx + ctx.bootSector.numFat * fatBytes ctx := by
    unfold fatStart fatBytes
    ring
  have hfactor := Nat.le_mul_of_pos_right (ctx.bootSector.reservedSectors +
    ctx.bootSector.numFat * ctx.bootSector.sectorsPerFat) h.bytesPerSector_pos
  have hsector : rootDirSector ctx = ctx.bootSector.reservedSectors +
      ctx.bootSector.numFat * ctx.bootSector.sectorsPerFat := by
    have hmul : mul32 ctx.bootSector.numFat ctx.bootSector.sectorsPerFat =
        ctx.bootSector.numFat * ctx.bootSector.sectorsPerFat := mul32_eq (by omega)
    have hadd := add32_eq (a := ctx.bootSector.reservedSectors)
      (b := ctx.bootSector.numFat * ctx.bootSector.sectorsPerFat) (by omega)
    obtain ⟨htype, -⟩ | ⟨htype, -⟩ := h.type
    · rw [rootDirSector, htype, hmul, hadd]
    · rw [rootDirSector, htype, hmul, hadd]
  rw [hsector, mul32_eq (by omega), hsum]

/-- INTERNAL: it begins inside the volume, and not at `0`. -/
theorem FatLayout.rootDir_pos (h : FatLayout ctx) :
    0 < mul32 (rootDirSector ctx) ctx.bootSector.bytesPerSector ∧
      mul32 (rootDirSector ctx) ctx.bootSector.bytesPerSector +
        (ctx.dataRegionStart - (fatStart ctx + ctx.bootSector.numFat * fatBytes ctx)) < 2 ^ 32 := by
  have hlt := Nat.lt_of_le_of_lt h.data h.volume
  have htables := h.tables
  have hpos := Nat.mul_pos h.reserved h.bytesPerSector_pos
  rw [h.rootDir_eq]
  unfold fatStart at *
  omega

/-- A floppy disk. -/
def floppy : FatContext where
  bootSector := ⟨512, 1, 1, 2, 2880, 9, 0⟩
  sectorsPerFat32 := 0
  rootClusterNum := 0
  type := .fat12
  dataRegionStart := 16896
  bytesPClus := 512

theorem floppy_layout : FatLayout floppy where
  type := .inl ⟨rfl, by decide⟩
  volume := by decide
  bytesPClus := rfl
  bytesPClus_pos := by decide
  reserved := by decide
  numFat := by decide
  sectorsPerFat := by decide
  tables := by decide
  data := by decide
  holds := by
    intro c hc
    have hlt : c < 2849 := hc
    show c + c / 2 + 2 ≤ 9 * 512
    omega

end LakeOS.Analysis
