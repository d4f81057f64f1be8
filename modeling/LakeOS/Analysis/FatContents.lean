import LakeOS.Analysis.FatOffsets

/-!
# The bytes of a chain

The contents of the clusters of a chain, one behind the other.  A run of bytes that stays
in one cluster is read at the address that `FAT_absolute_offset` gives; whole runs are put
together from these by `FAT_read`.
-/

set_option autoImplicit false

namespace LakeOS.Analysis

open LakeOS.Library LakeOS.Model

/-- The contents of clusters, one behind the other. -/
def chainBytes (ctx : FatContext) (d : Disk) (cs : List ℕ) : List Byte :=
  cs.flatMap fun c => d.read (clusterStart ctx c) ctx.bytesPClus

variable {ctx : FatContext} {d : Disk} {c : ℕ} {cs : List ℕ} {pos n : ℕ}

theorem length_chainBytes (ctx : FatContext) (d : Disk) (cs : List ℕ) :
    (chainBytes ctx d cs).length = cs.length * ctx.bytesPClus := by
  induction cs with
  | nil => simp [chainBytes]
  | cons c cs ih =>
      rw [chainBytes, List.flatMap_cons, List.length_append, ← chainBytes, ih,
        Store.length_read, List.length_cons, Nat.succ_mul, Nat.add_comm]

theorem chainBytes_append (cs cs' : List ℕ) :
    chainBytes ctx d (cs ++ cs') = chainBytes ctx d cs ++ chainBytes ctx d cs' :=
  List.flatMap_append

/-- Part of one run of cells. -/
theorem drop_take_read (m : Store Byte) {a len off k : ℕ} (h : off + k ≤ len) :
    ((m.read a len).drop off).take k = m.read (a + off) k := by
  apply List.ext_getElem
  · simp only [List.length_take, List.length_drop, Store.length_read]
    omega
  · intro i h₁ h₂
    rw [List.getElem_take, List.getElem_drop, Store.getElem_read, Store.getElem_read,
      Nat.add_assoc]

/-- **Bytes of one cluster.** -/
theorem chainBytes_piece (hin : pos / ctx.bytesPClus < cs.length)
    (hfit : pos % ctx.bytesPClus + n ≤ ctx.bytesPClus) :
    ((chainBytes ctx d cs).drop pos).take n =
      d.read (clusterStart ctx (cs.getD (pos / ctx.bytesPClus) 0) + pos % ctx.bytesPClus) n := by
  induction cs generalizing pos with
  | nil => exact absurd hin (Nat.not_lt_zero _)
  | cons c cs ih =>
      rw [chainBytes, List.flatMap_cons, ← chainBytes]
      by_cases hle : ctx.bytesPClus ≤ pos
      · by_cases hpos : ctx.bytesPClus = 0
        · obtain rfl : n = 0 := by
            rw [hpos, Nat.mod_zero] at hfit
            omega
          simp
        · have hbpc := Nat.pos_of_ne_zero hpos
          have hdiv := Nat.div_eq_sub_div hbpc hle
          rw [hdiv, List.length_cons] at hin
          have hmod := Nat.mod_eq_sub_mod hle
          rw [hmod] at hfit
          rw [hdiv, hmod, List.getD_cons_succ, List.drop_append,
            List.drop_of_length_le (by rw [Store.length_read]; exact hle), List.nil_append,
            Store.length_read]
          exact ih (by omega) hfit
      · rw [not_le] at hle
        rw [Nat.mod_eq_of_lt hle] at hfit ⊢
        rw [Nat.div_eq_of_lt hle, List.getD_cons_zero, ← drop_take_read d hfit,
          List.drop_append_of_le_length (by rw [Store.length_read]; exact hle.le),
          List.take_append_of_le_length (by
            rw [List.length_drop, Store.length_read]
            omega)]

/-- Only the bytes of the clusters matter. -/
theorem chainBytes_congr {d' : Disk} (h : ∀ c ∈ cs, ∀ x, clusterStart ctx c ≤ x →
    x < clusterStart ctx c + ctx.bytesPClus → d' x = d x) :
    chainBytes ctx d' cs = chainBytes ctx d cs := by
  induction cs with
  | nil => rfl
  | cons c cs ih =>
      rw [chainBytes, List.flatMap_cons, ← chainBytes,
        ih fun e he => h e (List.mem_cons_of_mem c he),
        Store.read_congr (h c List.mem_cons_self)]
      rfl

/-! ## A new cluster -/

/-- `num_sectors` counts the sectors of the volume, as `FindFreeCluster` takes it, and has the
width of its field.
SRCLINE: fat.h:41, fat.h:81 -/
def FieldsFit (ctx : FatContext) : Prop :=
  ctx.bootSector.numSectors ≠ 0 ∧ ctx.bootSector.numSectors < 2 ^ 16 ∧
    ctx.bootSector.sectorsPerCluster < 2 ^ 8

/-- INTERNAL: then it is not `long_sectors` that counts them. -/
theorem FieldsFit.volumeSize_eq (hfields : FieldsFit ctx) :
    volumeSize ctx = ctx.bootSector.numSectors * ctx.bootSector.bytesPerSector := by
  rw [volumeSize, totalSectors, if_pos hfields.1]

/-- `FindFreeCluster` scans all data clusters. -/
theorem dataClusters_lt_scan (h : FatLayout ctx) (hfields : FieldsFit ctx) :
    dataClusters ctx + 2 ≤
      mul32 ctx.bootSector.numSectors ctx.bootSector.sectorsPerCluster := by
  have hbps := h.bytesPerSector_pos
  have hbpc := h.bytesPClus_pos
  have hspc : 1 ≤ ctx.bootSector.sectorsPerCluster := by
    rw [h.bytesPClus] at hbpc
    exact Nat.pos_of_mul_pos_right hbpc
  have htwo : 2 * ctx.bootSector.bytesPerSector ≤ ctx.dataRegionStart := by
    have hreserved := Nat.mul_le_mul_right ctx.bootSector.bytesPerSector h.reserved
    have hfat := Nat.mul_le_mul h.numFat
      (Nat.mul_le_mul_right ctx.bootSector.bytesPerSector h.sectorsPerFat)
    have htables := h.tables
    unfold fatStart fatBytes at htables
    omega
  have hclusters : dataClusters ctx + 2 ≤ ctx.bootSector.numSectors := by
    have hdiv := Nat.div_mul_le_self (volumeSize ctx - ctx.dataRegionStart) ctx.bytesPClus
    have hper : ctx.bootSector.bytesPerSector ≤ ctx.bytesPClus := by
      rw [h.bytesPClus]
      exact Nat.le_mul_of_pos_left _ hspc
    have hmul := Nat.mul_le_mul_left (dataClusters ctx) hper
    have hdata := h.data
    have hsum : (dataClusters ctx + 2) * ctx.bootSector.bytesPerSector ≤
        ctx.bootSector.numSectors * ctx.bootSector.bytesPerSector := by
      rw [Nat.add_mul, ← hfields.volumeSize_eq]
      unfold dataClusters at hmul ⊢
      omega
    exact Nat.le_of_mul_le_mul_right hsum hbps
  have hprod := Nat.le_mul_of_pos_right ctx.bootSector.numSectors hspc
  have hlt := Nat.mul_le_mul hfields.2.1.le hfields.2.2.le
  rw [mul32_eq (by omega)]
  omega

/-- The numbers that `FindFreeCluster` scans lie below this one. -/
def scanLimit (ctx : FatContext) : ℕ :=
  mul32 ctx.bootSector.numSectors ctx.bootSector.sectorsPerCluster

/-- INTERNAL: the first number from 2 on with the value `0`. -/
theorem firstZero_cases (get : ℕ → ℕ) (limit : ℕ) :
    let first := ((List.range' 2 (limit - 2)).find? fun i => get i = 0).getD 0
    first = 0 ∧ (∀ i, 2 ≤ i → i < limit → get i ≠ 0) ∨
      2 ≤ first ∧ first < limit ∧ get first = 0 ∧ ∀ j, 2 ≤ j → j < first → get j ≠ 0 := by
  dsimp only
  cases hfind : (List.range' 2 (limit - 2)).find? fun i => get i = 0 with
  | none =>
    refine .inl ⟨rfl, fun i hi hlt => ?_⟩
    have hnone := List.find?_range'_eq_none.mp hfind i hi (by omega)
    simpa using hnone
  | some i =>
    obtain ⟨hi, hrange, hbefore⟩ := List.find?_range'_eq_some.mp hfind
    rw [List.mem_range'_1] at hrange
    refine .inr ⟨hrange.1, by simp only [Option.getD_some]; omega, by simpa using hi, ?_⟩
    intro j hj hlt
    simpa using hbefore j hj hlt

/-- `FindFreeCluster` gives the first number whose entry is `0`, or `0`.
SRCLINE: fat.c:334-342 -/
theorem findFreeCluster_cases (ctx : FatContext) (d : Disk) :
    findFreeCluster ctx d = 0 ∧ (∀ i, 2 ≤ i → i < scanLimit ctx → fatGetEntry ctx 0 i d ≠ 0) ∨
      2 ≤ findFreeCluster ctx d ∧ findFreeCluster ctx d < scanLimit ctx ∧
        fatGetEntry ctx 0 (findFreeCluster ctx d) d = 0 ∧
        ∀ j, 2 ≤ j → j < findFreeCluster ctx d → fatGetEntry ctx 0 j d ≠ 0 :=
  firstZero_cases (fun i => fatGetEntry ctx 0 i d) (scanLimit ctx)

/-- INTERNAL: a free entry within the scan is found, or one before it. -/
theorem findFreeCluster_le (hlow : 2 ≤ c) (hlt : c < scanLimit ctx)
    (hzero : fatGetEntry ctx 0 c d = 0) : 2 ≤ findFreeCluster ctx d ∧
      findFreeCluster ctx d ≤ c ∧ fatGetEntry ctx 0 (findFreeCluster ctx d) d = 0 := by
  rcases findFreeCluster_cases ctx d with ⟨-, hnone⟩ | ⟨hfirst, -, hentry, hbefore⟩
  · exact absurd hzero (hnone c hlow hlt)
  · refine ⟨hfirst, ?_, hentry⟩
    by_contra hge
    exact hbefore c hlow (by omega) hzero

/-- **`FindFreeCluster` finds a free data cluster if there is one.**
SRCLINE: fat.c:334-342 -/
theorem findFreeCluster_mem (h : FatLayout ctx) (hfields : FieldsFit ctx)
    (hfree : (freeClusters ctx d).Nonempty) : findFreeCluster ctx d ∈ freeClusters ctx d := by
  obtain ⟨c, hc⟩ := hfree
  obtain ⟨hdata, hentry⟩ := mem_freeClusters.mp hc
  have hscan := dataClusters_lt_scan h hfields
  obtain ⟨hlow, hle, hzero⟩ := findFreeCluster_le hdata.1 (hdata.2.trans_le hscan) hentry
  exact mem_freeClusters.mpr ⟨⟨hlow, hle.trans_lt hdata.2⟩, hzero⟩

/-- The disk after `FAT_allocate_cluster` has found the last cluster and a new one. -/
def linked (ctx : FatContext) (last new : ℕ) (d : Disk) : Disk :=
  fatSetEntries ctx new 0xFFFFFFFF (fatSetEntries ctx last new d)

/-- INTERNAL: a chain as its last cluster and what is before it. -/
theorem exists_lead (c : ℕ) (cs : List ℕ) : ∃ lead, c :: cs = lead ++ [cs.getLastD c] := by
  have hsplit := List.dropLast_append_getLast (List.cons_ne_nil c cs)
  rw [List.getLast_eq_getLastD] at hsplit
  exact ⟨_, hsplit.symm⟩

/-- INTERNAL: the loop ends at the last cluster of a chain.
SRCLINE: fat.c:725-730 -/
theorem fatChainEnd_eq {fuel : ℕ} {last : ℕ}
    (hchain : Chain (fun c => fatGetEntry ctx 0 c d) (fun e => fatIsEoc ctx e) (cs ++ [last]))
    (hhead : (cs ++ [last]).head? = some c) (hfuel : (cs ++ [last]).length ≤ fuel) :
    fatChainEnd ctx d fuel c (fatGetEntry ctx 0 c d) = some last := by
  induction cs generalizing c fuel with
  | nil =>
      obtain rfl := Option.some.inj hhead
      obtain ⟨fuel, rfl⟩ := Nat.exists_eq_add_of_le' (show 1 ≤ fuel from hfuel)
      exact if_pos hchain
  | cons b cs ih =>
      obtain rfl := Option.some.inj hhead
      rw [List.cons_append, List.length_cons] at hfuel
      obtain ⟨fuel, rfl⟩ := Nat.exists_eq_add_of_le' (show 1 ≤ fuel by omega)
      obtain ⟨next, rest, hrest⟩ := List.exists_cons_of_ne_nil
        (show cs ++ [last] ≠ [] by simp)
      rw [List.cons_append, hrest] at hchain
      obtain ⟨hnext, hstop, htail⟩ := hchain
      have hnext' : fatGetEntry ctx 0 b d = next := hnext
      rw [fatChainEnd, hnext', if_neg hstop]
      refine ih ?_ ?_ (by omega)
      · rw [hrest]
        exact htail
      · rw [hrest]
        rfl

/-- INTERNAL: the two entries that `FAT_allocate_cluster` sets.
SRCLINE: fat.c:724-736 -/
theorem fatAllocateCluster_linked
    (hchain : Chain (fun c => fatGetEntry ctx 0 c d) (fun e => fatIsEoc ctx e) (c :: cs))
    (hfuel : (c :: cs).length ≤ fatFuel) : fatAllocateCluster ctx c d =
      some (linked ctx (cs.getLastD c) (findFreeCluster ctx d) d) := by
  obtain ⟨lead, hlist⟩ := exists_lead c cs
  generalize cs.getLastD c = last at *
  have hhead : (lead ++ [last]).head? = some c := by
    rw [← hlist]
    rfl
  rw [hlist] at hchain hfuel
  rw [fatAllocateCluster, fatChainEnd_eq hchain hhead hfuel]
  rfl

/-- INTERNAL: **the chain with a free cluster behind it**, and the entries. -/
theorem FatChain.linked (h : FatLayout ctx) (hchain : FatChain ctx d (c :: cs)) {new : ℕ}
    (hfree : new ∈ freeClusters ctx d) :
    FatChain ctx (linked ctx (cs.getLastD c) new d) (c :: cs ++ [new]) ∧
      (∀ e, DataCluster ctx e → fatGetEntry ctx 0 e (linked ctx (cs.getLastD c) new d) =
        if e = new then 0xFFFFFFFF % entryModulus ctx
        else if e = cs.getLastD c then new else fatGetEntry ctx 0 e d) ∧
      ∀ x, ¬ InTables ctx x → linked ctx (cs.getLastD c) new d x = d x := by
  obtain ⟨hnew, hzero⟩ := mem_freeClusters.mp hfree
  have hmem : cs.getLastD c ∈ c :: cs := List.getLastD_mem_cons
  have hlast := hchain.2 _ hmem
  obtain ⟨lead, hlist⟩ := exists_lead c cs
  generalize cs.getLastD c = last at *
  -- the two entries that are set
  obtain ⟨hentry₁, hout₁⟩ := fatSetEntries_spec h (h.inTable hlast) new d
  obtain ⟨hentry₂, hout₂⟩ := fatSetEntries_spec h (h.inTable hnew) 0xFFFFFFFF
    (fatSetEntries ctx last new d)
  have hentry : ∀ e, DataCluster ctx e →
      fatGetEntry ctx 0 e (Analysis.linked ctx last new d) =
        if e = new then 0xFFFFFFFF % entryModulus ctx
        else if e = last then new else fatGetEntry ctx 0 e d := by
    intro e he
    rw [Analysis.linked, hentry₂ e (h.inTable he), hentry₁ e (h.inTable he),
      (h.dataCluster_value hnew).1]
  have hin : ∀ e ∈ c :: cs ++ [new], DataCluster ctx e := by
    intro e he
    obtain he | he := List.mem_append.mp he
    · exact hchain.2 e he
    · exact List.mem_singleton.mp he ▸ hnew
  refine ⟨⟨?_, hin⟩, hentry, fun x hx => (hout₂ x hx).trans (hout₁ x hx)⟩
  have hnot : new ∉ c :: cs := fun hmem => hchain.ne_zero h new hmem hzero
  have hlinks := hchain.1
  rw [hlist] at hlinks hnot hin ⊢
  refine hlinks.link ?_ hnot h.eoc_value fun e he => hentry e (hin e he)
  rw [(h.dataCluster_value hnew).2]
  exact Bool.false_ne_true

/-- **`FAT_allocate_cluster`** hangs a free cluster behind the chain.  No byte outside the
tables changes, and at most one cluster is no longer free.
SRCLINE: fat.c:724-736 -/
theorem fatAllocateCluster_spec (h : FatLayout ctx) (hfields : FieldsFit ctx)
    (hchain : FatChain ctx d (c :: cs)) (hfree : (freeClusters ctx d).Nonempty) :
    ∃ d' new, fatAllocateCluster ctx c d = some d' ∧ FatChain ctx d' (c :: cs ++ [new]) ∧
      (∀ x, ¬ InTables ctx x → d' x = d x) ∧
      (freeClusters ctx d).card ≤ (freeClusters ctx d').card + 1 := by
  have hmem := findFreeCluster_mem h hfields hfree
  have hrun := fatAllocateCluster_linked hchain.1 (hchain.length_le_fuel h)
  obtain ⟨hlinked, hentry, hout⟩ := hchain.linked h hmem
  refine ⟨_, _, hrun, hlinked, hout, ?_⟩
  refine (Finset.card_le_card fun e he => ?_).trans
    (Finset.card_insert_le (findFreeCluster ctx d) _)
  obtain ⟨hdata, hfreeEntry⟩ := mem_freeClusters.mp he
  by_cases hne : e = findFreeCluster ctx d
  · rw [hne]
    exact Finset.mem_insert_self _ _
  · refine Finset.mem_insert_of_mem (mem_freeClusters.mpr ⟨hdata, ?_⟩)
    have hnotLast : e ≠ cs.getLastD c := fun heq =>
      hchain.ne_zero h _ List.getLastD_mem_cons (heq ▸ hfreeEntry)
    rw [hentry e hdata, if_neg hne, if_neg hnotLast, hfreeEntry]

end LakeOS.Analysis
