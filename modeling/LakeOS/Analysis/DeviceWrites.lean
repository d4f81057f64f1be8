import LakeOS.Analysis.DeviceReads
import LakeOS.Analysis.FatAppend

/-!
# Writing a file to a device

`FAT_write` goes along the chain of the file and takes free clusters.  Where the entries of these
clusters do not run over the end of a sector, and no entry that does so looks free, it sets the
entries that it means to set.  Its first piece may be cut, and then bytes of the file stay as they
were; all other pieces begin at a sector.
-/

set_option autoImplicit false

namespace LakeOS.Analysis

open LakeOS.Library LakeOS.Model

variable {v : FatDevice} {d d' d₀ : Disk} {c n : ℕ} {cs : List ℕ} {file : FatFile}
  {old data : List Byte}

/-! ## Entries that are taken -/

/-- The chain is read as it is, and can be lengthened by the first `n` free clusters: `num_sectors`
counts the sectors, no entry that is set runs over the end of a sector, and none below them that
does so looks free. -/
structure TakesInside (v : FatDevice) (d : Disk) (cs : List ℕ) (n : ℕ) : Prop where
  reads : ReadsEntries v d cs
  fields : n ≠ 0 → FieldsFit v.toFatContext
  last : n ≠ 0 → ∀ c ∈ cs.getLast?, EntryFits v c
  free : ∃ m ≤ dataClusters v.toFatContext + 2,
    n ≤ {c ∈ freeClusters v.toFatContext d | c < m}.card ∧
      ∀ c, 2 ≤ c → c < m → ¬ EntryFits v c → v.fatGetEntry 0 c d ≠ 0

/-- INTERNAL: what is read of an entry depends on the entry.
SRCLINE: fat.c:128-163 -/
theorem FatDevice.fatGetEntry_congr (htype : v.type = .fat12 ∨ v.type = .fat16)
    (hsame : fatGetEntry v.toFatContext 0 c d' = fatGetEntry v.toFatContext 0 c d) :
    v.fatGetEntry 0 c d' = v.fatGetEntry 0 c d := by
  rw [FatDevice.fatGetEntry_eq, FatDevice.fatGetEntry_eq]
  refine fatGetEntry_congr_nibbles htype fun n hn => ?_
  rw [nibble_cutDisk, nibble_cutDisk]
  split
  next => rfl
  next => exact nibble_of_get_eq htype hsame hn

namespace TakesInside

theorem card_le (ht : TakesInside v d cs n) : n ≤ (freeClusters v.toFatContext d).card := by
  obtain ⟨m, -, hcard, -⟩ := ht.free
  exact hcard.trans (Finset.card_filter_le _ _)

/-- INTERNAL: only the entries of data clusters count. -/
theorem congr (h : FatLayout v.toFatContext) (ht : TakesInside v d cs n)
    (hdata : ∀ c ∈ cs, DataCluster v.toFatContext c)
    (hentry : ∀ c, DataCluster v.toFatContext c →
      fatGetEntry v.toFatContext 0 c d' = fatGetEntry v.toFatContext 0 c d) :
    TakesInside v d' cs n := by
  have htype := h.type.imp And.left And.left
  obtain ⟨m, hm, hcard, hinside⟩ := ht.free
  refine ⟨fun c hc => ?_, ht.fields, ht.last, m, hm, ?_, fun c hlow hlt hcut => ?_⟩
  · rw [FatDevice.fatGetEntry_congr htype (hentry c (hdata c hc)), hentry c (hdata c hc)]
    exact ht.reads c hc
  · have hsame : freeClusters v.toFatContext d' = freeClusters v.toFatContext d := by
      ext e
      rw [mem_freeClusters, mem_freeClusters]
      exact and_congr_right fun he => by rw [hentry e he]
    rwa [hsame]
  · rw [FatDevice.fatGetEntry_congr htype (hentry c ⟨hlow, by omega⟩)]
    exact hinside c hlow hlt hcut

theorem mono {n' : ℕ} (ht : TakesInside v d cs n) (hle : n' ≤ n) : TakesInside v d cs n' where
  reads := ht.reads
  fields hn := ht.fields (by omega)
  last hn := ht.last (by omega)
  free := by
    obtain ⟨m, hm, hcard, hinside⟩ := ht.free
    exact ⟨m, hm, hle.trans hcard, hinside⟩

/-- INTERNAL: **the search finds the lowest free cluster**, whose entry lies in one sector.
SRCLINE: fat.c:334-342 -/
theorem findFreeCluster_eq (h : FatLayout v.toFatContext)
    (ht : TakesInside v d cs (n + 1)) :
    v.findFreeCluster d = findFreeCluster v.toFatContext d ∧
      EntryFits v (findFreeCluster v.toFatContext d) := by
  obtain ⟨m, hm, hcard, hinside⟩ := ht.free
  obtain ⟨c, hc⟩ := Finset.card_pos.mp (Nat.lt_of_lt_of_le (Nat.succ_pos n) hcard)
  obtain ⟨hfree, hlt⟩ := Finset.mem_filter.mp hc
  obtain ⟨hdata, hzero⟩ := mem_freeClusters.mp hfree
  have hscan := dataClusters_lt_scan h (ht.fields (Nat.succ_ne_zero n))
  obtain ⟨hlow, hle, hfound⟩ :=
    findFreeCluster_le hdata.1 (hdata.2.trans_le hscan) hzero
  have hnew := FatDevice.fatGetEntry_zero (v := v) hfound
  have hfits : ∀ e, 2 ≤ e → e < m → v.fatGetEntry 0 e d = 0 → EntryFits v e := by
    intro e hlow hlt hread
    by_contra hcut
    exact hinside e hlow hlt hcut hread
  refine ⟨?_, hfits _ hlow (by omega) hnew⟩
  rcases FatDevice.findFreeCluster_cases v d with ⟨-, hnone⟩ | ⟨hlow', -, hentry, hbefore⟩
  · exact absurd hnew (hnone _ hlow ((hle.trans_lt hdata.2).trans_le hscan))
  · have hle' : v.findFreeCluster d ≤ findFreeCluster v.toFatContext d := by
      by_contra hgt
      exact hbefore _ hlow (by omega) hnew
    have hexact : fatGetEntry v.toFatContext 0 (v.findFreeCluster d) d = 0 := by
      rw [← FatDevice.fatGetEntry_of_fits (hfits _ hlow' (by omega) hentry 0 h.numFat), hentry]
    obtain ⟨-, hle'', -⟩ := findFreeCluster_le hlow' (by
      exact (hle'.trans_lt (hle.trans_lt hdata.2)).trans_le hscan) hexact
    exact Nat.le_antisymm hle' hle''

end TakesInside

/-- INTERNAL: the loop ends at the last cluster of a chain that is read as it is.
SRCLINE: fat.c:725-730 -/
theorem FatDevice.fatChainEnd_eq {fuel : ℕ}
    (hchain : Chain (fun c => fatGetEntry v.toFatContext 0 c d)
      (fun e => fatIsEoc v.toFatContext e) (c :: cs))
    (hreads : ReadsEntries v d (c :: cs)) :
    v.fatChainEnd d fuel c (v.fatGetEntry 0 c d) =
      fatChainEnd v.toFatContext d fuel c (fatGetEntry v.toFatContext 0 c d) := by
  induction fuel generalizing c cs with
  | zero => rfl
  | succ fuel ih =>
      rw [hreads c List.mem_cons_self, FatDevice.fatChainEnd, Model.fatChainEnd]
      cases cs with
      | nil =>
          have heoc : fatIsEoc v.toFatContext (fatGetEntry v.toFatContext 0 c d) := hchain
          rw [if_pos heoc, if_pos heoc]
      | cons b cs =>
          obtain ⟨hnext, -, hrest⟩ := hchain
          have hstep := ih hrest fun x hx => hreads x (List.mem_cons_of_mem c hx)
          dsimp only at hnext
          rw [hnext, hstep]

/-- **`FAT_allocate_cluster`** sets the entries that it should.
SRCLINE: fat.c:724-736 -/
theorem TakesInside.allocate (h : FatLayout v.toFatContext)
    (hchain : FatChain v.toFatContext d (c :: cs)) (ht : TakesInside v d (c :: cs) (n + 1)) :
    v.fatAllocateCluster c d = fatAllocateCluster v.toFatContext c d ∧
      ∀ d' cs', fatAllocateCluster v.toFatContext c d = some d' →
        FatChain v.toFatContext d' (c :: cs') → TakesInside v d' (c :: cs') n := by
  have htype := h.type.imp And.left And.left
  obtain ⟨hfind, hnewFits⟩ := ht.findFreeCluster_eq h
  have hlastFits : EntryFits v (cs.getLastD c) :=
    ht.last (Nat.succ_ne_zero n) _ (by simp [List.getLast?_cons])
  have hfields := ht.fields (Nat.succ_ne_zero n)
  have hfree : (freeClusters v.toFatContext d).Nonempty :=
    Finset.card_pos.mp (Nat.lt_of_lt_of_le (Nat.succ_pos n) ht.card_le)
  have hrun := fatAllocateCluster_linked hchain.1 (hchain.length_le_fuel h)
  obtain ⟨hlinked, hentry, -⟩ := hchain.linked h (findFreeCluster_mem h hfields hfree)
  constructor
  · obtain ⟨lead, hlist⟩ := exists_lead c cs
    have hchain' := hchain.1
    have hfuel := hchain.length_le_fuel h
    rw [hlist] at hchain' hfuel
    have hhead : (lead ++ [cs.getLastD c]).head? = some c := by
      rw [← hlist]
      rfl
    rw [hrun, FatDevice.fatAllocateCluster, FatDevice.fatChainEnd_eq hchain.1 ht.reads,
      fatChainEnd_eq hchain' hhead hfuel, hfind]
    simp only [Option.bind_eq_bind, Option.bind_some]
    rw [FatDevice.fatSetEntries_of_fits hlastFits, FatDevice.fatSetEntries_of_fits hnewFits]
    rfl
  · intro d' cs' hrun' hchain'
    obtain rfl := Option.some.inj (hrun.symm.trans hrun')
    rw [← hlinked.1.unique hchain'.1]
    obtain ⟨m, hm, hcard, hinside⟩ := ht.free
    generalize findFreeCluster v.toFatContext d = new at *
    have hlast := hchain.ne_zero h (cs.getLastD c) List.getLastD_mem_cons
    generalize cs.getLastD c = last at *
    -- the entries of other clusters are as before
    have hother : ∀ e, DataCluster v.toFatContext e → e ≠ new → e ≠ last →
        fatGetEntry v.toFatContext 0 e (linked v.toFatContext last new d) =
          fatGetEntry v.toFatContext 0 e d := by
      intro e he hnew hlast
      rw [hentry e he, if_neg hnew, if_neg hlast]
    refine ⟨fun e (he : e ∈ c :: cs ++ [new]) => ?_, fun _ => hfields,
      fun _ e (he : e ∈ (c :: cs ++ [new]).getLast?) => ?_, m, hm, ?_,
      fun e hlow hlt hcut => ?_⟩
    · by_cases hfits : EntryFits v e
      · exact FatDevice.fatGetEntry_of_fits (hfits 0 h.numFat) _
      · have hnew : e ≠ new := fun heq => hfits (heq ▸ hnewFits)
        have hold : e ∈ c :: cs := by
          rcases List.mem_append.mp he with he | he
          · exact he
          · exact absurd (List.mem_singleton.mp he) hnew
        have hsame := hother e (hchain.2 e hold) hnew fun heq => hfits (heq ▸ hlastFits)
        rw [FatDevice.fatGetEntry_congr htype hsame, hsame]
        exact ht.reads e hold
    · rw [List.getLast?_concat] at he
      obtain rfl := Option.some.inj he
      exact hnewFits
    · have hsub : ({e ∈ freeClusters v.toFatContext d | e < m}).erase new ⊆
          {e ∈ freeClusters v.toFatContext (linked v.toFatContext last new d) | e < m} := by
        intro e he
        obtain ⟨hnew, he⟩ := Finset.mem_erase.mp he
        obtain ⟨hfreeE, hlt⟩ := Finset.mem_filter.mp he
        obtain ⟨hdata, hzero⟩ := mem_freeClusters.mp hfreeE
        refine Finset.mem_filter.mpr ⟨mem_freeClusters.mpr ⟨hdata, ?_⟩, hlt⟩
        rw [hother e hdata hnew (fun heq => hlast (heq ▸ hzero)), hzero]
      have hle := (Finset.pred_card_le_card_erase (a := new)).trans (Finset.card_le_card hsub)
      omega
    · have hnew : e ≠ new := fun heq => hcut (heq ▸ hnewFits)
      have hlast : e ≠ last := fun heq => hcut (heq ▸ hlastFits)
      rw [FatDevice.fatGetEntry_congr htype (hother e ⟨hlow, by omega⟩ hnew hlast)]
      exact hinside e hlow hlt hcut

/-- INTERNAL: a store in a cluster of the chain takes none.
SRCLINE: fat.c:421-450 -/
theorem TakesInside.store (h : FatLayout v.toFatContext)
    (hchain : FatChain v.toFatContext d (c :: cs)) (ht : TakesInside v d (c :: cs) n) {pos : ℕ}
    (hroom : pos < (c :: cs).length * v.bytesPClus) {off : ℕ × Option ℕ}
    (hoff : fatAbsoluteOffset v.toFatContext c pos d = some off) (bs : List Byte) :
    FatChain v.toFatContext (d.write off.1 bs) (c :: cs) ∧
      TakesInside v (d.write off.1 bs) (c :: cs) n := by
  rw [fatAbsoluteOffset_inside h hchain hroom] at hoff
  obtain rfl := Option.some.inj hoff
  dsimp only
  generalize (c :: cs).getD (pos / v.bytesPClus) 0 = b
  have hentry : ∀ e, DataCluster v.toFatContext e → fatGetEntry v.toFatContext 0 e
      (d.write (clusterStart v.toFatContext b + pos % v.bytesPClus) bs) =
        fatGetEntry v.toFatContext 0 e d := by
    refine fun e he => fatGetEntry_of_tables h (fun x hx => ?_) he
    refine Store.write_of_notMem d bs (.inl ?_)
    by_contra hge
    exact h.not_inTables (show clusterStart v.toFatContext b ≤ x by omega) hx
  exact ⟨hchain.congr fun e he => hentry e (hchain.2 e he), ht.congr h hchain.2 hentry⟩

/-! ## The phases of `FAT_write` -/

/-- INTERNAL: a store at the start of a sector. -/
theorem FatDevice.put_eq {w : FatWriting} {off : ℕ} (hoff : off % v.sectorSize = 0) (len : ℕ) :
    v.put w off len = w.put off len := by
  rw [FatDevice.put, FatWriting.put, FatDevice.write,
    sectorWrite_of_fits v.sectorSize_pos (.inl hoff)]

/-- INTERNAL: **the head stores bytes of its length**, though perhaps not those given.
SRCLINE: fat.c:915-922 -/
theorem FatDevice.fatWriteHead_eq (v : FatDevice) (file : FatFile) (data : List Byte) (d : Disk)
    (off : ℕ) : ∃ data', data'.length = data.length ∧
      v.fatWriteHead off ⟨file, data, d⟩ = fatWriteHead v.toFatContext off ⟨file, data', d⟩ := by
  unfold FatDevice.fatWriteHead Model.fatWriteHead
  by_cases hpart : file.size % v.bytesPClus ≠ 0
  · generalize hlen : (if data.length ≤ v.bytesPClus - file.size % v.bytesPClus then data.length
      else v.bytesPClus - file.size % v.bytesPClus) = len
    have hle : len ≤ data.length := by
      rw [← hlen]
      split <;> omega
    have htake : (data.take len).length = len := by
      rw [List.length_take]
      exact Nat.min_eq_left hle
    have hstored : ((v.write d off (data.take len)).read off len).length = len :=
      Store.length_read _ _ _
    have hlength : ((v.write d off (data.take len)).read off len ++ data.drop len).length =
        data.length := by
      rw [List.length_append, hstored, List.length_drop]
      omega
    refine ⟨_, hlength, ?_⟩
    dsimp only
    rw [if_pos hpart, if_pos hpart, hlength, hlen, FatDevice.put, FatWriting.put]
    dsimp only
    rw [List.take_left' hstored, List.drop_left' hstored]
    congr 1
    -- what is read back is what was written
    funext x
    by_cases hin : off ≤ x ∧ x < off + len
    · rw [Store.write_of_mem _ _ hin.1 (by rw [hstored]; omega), Store.getElem_read]
      congr 1
      omega
    · rw [Store.write_of_notMem _ _ (by rw [hstored]; omega), FatDevice.write,
        sectorWrite_eq v.sectorSize_pos]
      dsimp only
      rw [Store.write_of_notMem _ _ (by rw [htake]; omega), ite_self]
  · refine ⟨data, rfl, ?_⟩
    dsimp only
    rw [if_neg hpart, if_neg hpart]

section

variable (h : DeviceLayout v)
include h

/-- INTERNAL: **the whole clusters.**
SRCLINE: fat.c:924-930 -/
theorem FatDevice.fatWriteClusters_eq (fuel : ℕ) {w : FatWriting}
    (ha : Appended v.toFatContext d₀ w.file w.disk cs old)
    (halign : w.file.size % v.bytesPClus = 0 ∨ w.data.length < v.bytesPClus)
    (ht : TakesInside v w.disk (w.file.startingClus :: cs)
      (w.data.length / v.bytesPClus + n)) :
    v.fatWriteClusters fuel w = fatWriteClusters v.toFatContext fuel w ∧
      ∀ w' cs', fatWriteClusters v.toFatContext fuel w = some w' →
        FatChain v.toFatContext w'.disk (w.file.startingClus :: cs') →
          TakesInside v w'.disk (w.file.startingClus :: cs') n := by
  have hbpc := h.bytesPClus_pos
  induction fuel generalizing w cs old with
  | zero => exact ⟨rfl, fun w' cs' hrun => absurd hrun (by simp [Model.fatWriteClusters])⟩
  | succ fuel ih =>
      rw [FatDevice.fatWriteClusters, Model.fatWriteClusters]
      by_cases hmore : v.bytesPClus ≤ w.data.length
      · rw [if_pos hmore, if_pos hmore]
        have hdiv := Nat.div_eq_sub_div hbpc hmore
        rw [hdiv, Nat.add_right_comm] at ht
        obtain ⟨hsame, hnext⟩ := ht.allocate h.toFatLayout ha.chain
        obtain ⟨d', new, hallocate, ha', -⟩ := ha.allocate h.toFatLayout
          (ht.fields (Nat.succ_ne_zero _)) (Nat.le_trans (Nat.le_add_left 1 _) ht.card_le)
        have ht' := hnext d' _ hallocate ha'.chain
        have haligned : w.file.size % v.bytesPClus = 0 := halign.resolve_right (by omega)
        have hfirst : (w.data.take v.bytesPClus).length = v.bytesPClus := by
          rw [List.length_take]
          exact Nat.min_eq_left hmore
        obtain ⟨off, hoff, hadd, hstore, -⟩ := ha'.store h.toFatLayout (w.data.take v.bytesPClus)
          (ha.room h.toFatLayout new) (by rw [hfirst, haligned]; omega)
        obtain ⟨-, htaken⟩ := ht'.store h.toFatLayout ha'.chain (ha.room h.toFatLayout new) hoff
          (w.data.take v.bytesPClus)
        have hsector := h.aligned ha'.chain haligned hoff
        rw [hsame, hallocate]
        simp only [Option.bind_eq_bind, Option.bind_some]
        rw [FatDevice.fatAbsoluteOffset_eq ha'.chain ht'.reads, hoff, Option.bind_some,
          Option.bind_some, FatDevice.put_eq hsector]
        rw [hfirst] at hadd hstore
        rw [fatWriting_put (w := { w with disk := d' }) hadd]
        have hlength : (w.data.drop v.bytesPClus).length = w.data.length - v.bytesPClus :=
          List.length_drop
        refine ih (w := ⟨{ w.file with size := w.file.size + v.bytesPClus },
          w.data.drop v.bytesPClus, d'.write off.1 (w.data.take v.bytesPClus)⟩) hstore
          (.inl ?_) ?_
        · dsimp only
          rw [Nat.add_mod_right]
          exact haligned
        · dsimp only
          rw [hlength]
          exact htaken
      · rw [if_neg hmore, if_neg hmore]
        refine ⟨rfl, fun w' cs' hrun hchain' => ?_⟩
        obtain rfl := Option.some.inj hrun
        rw [← ha.chain.1.unique hchain'.1]
        exact ht.mono (Nat.le_add_left _ _)

/-- INTERNAL: a cluster that is taken under a condition. -/
theorem TakesInside.allocate_if {p : Prop} [Decidable p]
    (ha : Appended v.toFatContext d₀ file d cs old)
    (ht : TakesInside v d (file.startingClus :: cs) ((if p then 1 else 0) + n)) :
    ∃ d' cs', (if p then v.fatAllocateCluster file.startingClus d else some d) = some d' ∧
      (if p then fatAllocateCluster v.toFatContext file.startingClus d else some d) = some d' ∧
      Appended v.toFatContext d₀ file d' cs' old ∧ (¬ p → d' = d) ∧
      (p → file.size < (file.startingClus :: cs').length * v.bytesPClus) ∧
      TakesInside v d' (file.startingClus :: cs') n := by
  by_cases hp : p
  · rw [if_pos hp, Nat.add_comm] at ht
    obtain ⟨hsame, hnext⟩ := ht.allocate h.toFatLayout ha.chain
    obtain ⟨d', new, hallocate, ha', -⟩ := ha.allocate h.toFatLayout
      (ht.fields (Nat.succ_ne_zero n)) (Nat.le_trans (Nat.le_add_left 1 _) ht.card_le)
    exact ⟨d', _, by rw [if_pos hp, hsame, hallocate], by rw [if_pos hp, hallocate], ha',
      fun hnot => absurd hp hnot, fun _ => ha.room h.toFatLayout new,
      hnext d' _ hallocate ha'.chain⟩
  · rw [if_neg hp, Nat.zero_add] at ht
    exact ⟨d, cs, if_neg hp, if_neg hp, ha, fun _ => rfl, fun hyes => absurd hyes hp, ht⟩

/-- INTERNAL: **the rest.**
SRCLINE: fat.c:932-940 -/
theorem FatDevice.fatWriteTail_eq {w : FatWriting}
    (ha : Appended v.toFatContext d₀ w.file w.disk cs old)
    (halign : w.file.size % v.bytesPClus = 0 ∨ w.data = [])
    (ht : TakesInside v w.disk (w.file.startingClus :: cs)
      ((if w.data.length ≠ 0 ∧ w.file.size ≠ 0 then 1 else 0) + n)) :
    v.fatWriteTail w = fatWriteTail v.toFatContext w ∧
      ∀ w' cs', fatWriteTail v.toFatContext w = some w' →
        FatChain v.toFatContext w'.disk (w.file.startingClus :: cs') →
          TakesInside v w'.disk (w.file.startingClus :: cs') n := by
  have hbpc := h.bytesPClus_pos
  by_cases hmore : w.data.length ≠ 0
  · have haligned : w.file.size % v.bytesPClus = 0 :=
      halign.resolve_right fun hnil => hmore (by rw [hnil]; rfl)
    simp only [hmore, true_and, not_false_eq_true, ne_eq] at ht
    -- a cluster for the rest
    obtain ⟨d', cs', hdevice, hdisk, ha', -, hnew, ht'⟩ := ht.allocate_if h ha
    have hroom : w.file.size < (w.file.startingClus :: cs').length * v.bytesPClus := by
      by_cases hsize : w.file.size = 0
      · rw [hsize, List.length_cons]
        exact Nat.mul_pos (Nat.succ_pos _) hbpc
      · exact hnew hsize
    obtain ⟨off, hoff⟩ := fatAbsoluteOffset_isSome h.toFatLayout ha'.chain w.file.size
    have hexact := @LakeOS.Analysis.fatWriteTail_eq v.toFatContext w hmore
    rw [hdisk, Option.bind_some, hoff, Option.bind_some] at hexact
    have hrun : v.fatWriteTail w =
        some (v.put { w with disk := d' } off.1 w.data.length) := by
      unfold FatDevice.fatWriteTail
      rw [if_pos hmore]
      by_cases hsize : w.file.size ≠ 0
      · rw [if_pos hsize] at hdevice ⊢
        rw [hdevice, Option.bind_eq_bind, Option.bind_some]
        dsimp only
        rw [FatDevice.fatAbsoluteOffset_eq ha'.chain ht'.reads, hoff]
        rfl
      · rw [if_neg hsize] at hdevice ⊢
        obtain rfl := Option.some.inj hdevice
        rw [Option.bind_eq_bind, Option.bind_some]
        dsimp only
        rw [FatDevice.fatAbsoluteOffset_eq ha'.chain ht'.reads, hoff]
        rfl
    rw [hrun, hexact, FatDevice.put_eq (h.aligned ha'.chain haligned hoff)]
    refine ⟨rfl, fun w' cs'' hw hchain' => ?_⟩
    obtain rfl := Option.some.inj hw
    obtain ⟨hkept, htaken⟩ :=
      ht'.store h.toFatLayout ha'.chain hroom hoff (w.data.take w.data.length)
    rw [← hkept.1.unique hchain'.1]
    exact htaken
  · have hrun : v.fatWriteTail w = some w := if_neg hmore
    have hexact : fatWriteTail v.toFatContext w = some w := if_neg hmore
    refine ⟨hrun.trans hexact.symm, fun w' cs' hw hchain' => ?_⟩
    obtain rfl := Option.some.inj (hexact.symm.trans hw)
    rw [← ha.chain.1.unique hchain'.1]
    exact ht.mono (Nat.le_add_left _ _)

/-- INTERNAL: the head takes no cluster. -/
theorem TakesInside.head (ha : Appended v.toFatContext d₀ file d cs old)
    (ht : TakesInside v d (file.startingClus :: cs) n) {off : ℕ × Option ℕ}
    (hoff : file.size % v.bytesPClus ≠ 0 →
      fatAbsoluteOffset v.toFatContext file.startingClus file.size d = some off)
    (data : List Byte) :
    TakesInside v (fatWriteHead v.toFatContext off.1 ⟨file, data, d⟩).disk
      (file.startingClus :: cs) n := by
  unfold Model.fatWriteHead
  by_cases hpart : file.size % v.bytesPClus ≠ 0
  · have hroom : file.size < (file.startingClus :: cs).length * v.bytesPClus := by
      refine Nat.lt_of_le_of_ne ha.fits fun heq => hpart ?_
      rw [heq, Nat.mul_mod_left]
    dsimp only
    rw [if_pos hpart]
    exact (ht.store h.toFatLayout ha.chain hroom (hoff hpart) _).2
  · dsimp only
    rw [if_neg hpart]
    exact ht

/-! ## One call -/

/-- **`FAT_write` to a device** is the exact one of as many bytes.
SRCLINE: fat.c:905-943 -/
theorem FatDevice.fatWrite_eq (hwrites : hasFlag file.flags fatFileWrite)
    (ha : Appended v.toFatContext d₀ file d cs old) (data : List Byte)
    (ht : TakesInside v d (file.startingClus :: cs)
      (clustersTaken v.toFatContext file.size data.length + n)) :
    ∃ data', data'.length = data.length ∧
      v.fatWrite file data d = fatWrite v.toFatContext file data' d ∧
      ∀ res cs', fatWrite v.toFatContext file data' d = some res →
        FatChain v.toFatContext res.2.2 (file.startingClus :: cs') →
          TakesInside v res.2.2 (file.startingClus :: cs') n := by
  have hbpc := h.bytesPClus_pos
  obtain ⟨off, hoff⟩ := fatAbsoluteOffset_isSome h.toFatLayout ha.chain file.size
  unfold clustersTaken at ht
  dsimp only at ht
  rw [Nat.add_assoc, Nat.add_assoc] at ht
  have hle := fatHeadLength_le v.toFatContext file.size data.length
  generalize hpiece : fatHeadLength v.toFatContext file.size data.length = head at ht hle
  obtain ⟨rest, hrest⟩ : ∃ rest, (data.length - head) / v.bytesPClus +
      ((if data.length - head - (data.length - head) / v.bytesPClus * v.bytesPClus ≠ 0 ∧
        file.size + head + (data.length - head) / v.bytesPClus * v.bytesPClus ≠ 0 then 1 else 0) +
          n) = rest := ⟨_, rfl⟩
  rw [hrest] at ht
  -- a cluster in front of the head
  obtain ⟨d₁, cs₁, hdevice₁, hexact₁, ha₁, hsame₁, -, ht₁⟩ := ht.allocate_if h ha
  have hoff₁ : file.size % v.bytesPClus ≠ 0 →
      fatAbsoluteOffset v.toFatContext file.startingClus file.size d₁ = some off := by
    intro hpart
    rw [hsame₁ fun hfirst => hpart hfirst.2]
    exact hoff
  -- the head
  obtain ⟨data', hlength, hhead⟩ := FatDevice.fatWriteHead_eq v file data d₁ off.1
  obtain ⟨hfile₂, hdata₂, ha₂, -, halign₂⟩ :=
    fatWriteHead_append h.toFatLayout ha₁ data' off hoff₁
  have ht₂ := ht₁.head h ha₁ hoff₁ data'
  rw [← hrest] at ht₂
  rw [hlength, hpiece] at hfile₂ hdata₂
  generalize hw : fatWriteHead v.toFatContext off.1 ⟨file, data', d₁⟩ = w at *
  have hlength₂ : w.data.length = data.length - head := by
    rw [hdata₂, List.length_drop, hlength]
  have hstart₂ : w.file.startingClus = file.startingClus := by rw [hfile₂]
  rw [← hlength₂, ← hstart₂] at ht₂
  -- the whole clusters
  have halign := halign₂.imp_right fun hnil : w.data = [] =>
    show w.data.length < v.bytesPClus by rw [hnil]; exact hbpc
  have hcard := ht₂.card_le
  have hlt := freeClusters_card_lt h.toFatLayout w.disk
  obtain ⟨hsame₃, hnext₃⟩ := FatDevice.fatWriteClusters_eq h fatFuel ha₂ halign ht₂
  obtain ⟨w₃, cs₃, hrun₃, hfile₃, hdata₃, ha₃, -, -⟩ :=
    fatWriteClusters_append h.toFatLayout fatFuel ha₂ halign
      (fun hne => ht₂.fields fun hzero => hne (Nat.add_eq_zero_iff.mp hzero).1)
      (by omega) (by omega)
  have hstart₃ : w₃.file.startingClus = w.file.startingClus := by rw [hfile₃]
  have hchain₃ := ha₃.chain
  rw [hstart₃] at hchain₃
  have ht₃ := hnext₃ w₃ cs₃ hrun₃ hchain₃
  -- the rest
  have hlength₃ : w₃.data.length =
      w.data.length - w.data.length / v.bytesPClus * v.bytesPClus := by
    rw [hdata₃, List.length_drop]
  have hsize₃ : w₃.file.size =
      file.size + head + w.data.length / v.bytesPClus * v.bytesPClus := by
    rw [hfile₃, hfile₂]
  have halign₃ : w₃.file.size % v.bytesPClus = 0 ∨ w₃.data = [] := by
    rw [hfile₃, hdata₃]
    refine halign₂.imp (fun haligned => ?_) fun hnil => ?_
    · exact (Nat.add_mul_mod_self_right _ _ _).trans haligned
    · rw [hnil, List.drop_nil]
  rw [← hlength₃, ← hsize₃, ← hstart₃] at ht₃
  obtain ⟨hsame₄, hnext₄⟩ := FatDevice.fatWriteTail_eq h ha₃ halign₃ ht₃
  have hexact : fatWrite v.toFatContext file data' d =
      (fatWriteTail v.toFatContext w₃).bind fun w =>
        some (data'.length - w.data.length, w.file, w.disk) := by
    rw [LakeOS.Analysis.fatWrite_eq hwrites hoff, hexact₁, Option.bind_some, hw, hrun₃,
      Option.bind_some]
  refine ⟨data', hlength, ?_, fun res cs' hres hchain' => ?_⟩
  · rw [hexact, FatDevice.fatWrite, if_neg (by rw [hwrites]; decide),
      FatDevice.fatAbsoluteOffset_eq ha.chain ht.reads, hoff, hlength]
    simp only [Option.bind_eq_bind, Option.bind_some]
    by_cases hfirst : file.size ≠ 0 ∧ file.size % v.bytesPClus = 0
    · rw [if_pos hfirst] at hdevice₁ ⊢
      rw [hdevice₁, Option.bind_some, hhead, hsame₃, hrun₃, Option.bind_some, hsame₄]
      rfl
    · rw [if_neg hfirst] at hdevice₁ ⊢
      obtain rfl := Option.some.inj hdevice₁
      rw [hhead, hsame₃, hrun₃, Option.bind_some, hsame₄]
      rfl
  · rw [hexact] at hres
    obtain ⟨w₄, hrun₄, hw₄⟩ := Option.bind_eq_some_iff.mp hres
    obtain rfl := Option.some.inj hw₄
    rw [hstart₃, hstart₂] at hnext₄
    exact hnext₄ w₄ cs' hrun₄ hchain'

end

/-! ## Files -/

/-- The entries of the file's chain and of the first `n` free clusters do not run over the end
of a sector. -/
def FileInside (v : FatDevice) (file : FatFile) (d : Disk) (n : ℕ) : Prop :=
  ∀ cs, FatChain v.toFatContext d (file.startingClus :: cs) →
    TakesInside v d (file.startingClus :: cs) n

/-- INTERNAL: the first clusters of the floppy disk. -/
theorem oneCluster_inside {file : FatFile} (hstart : file.startingClus = 2) {n : ℕ} (hn : n ≤ 2) :
    FileInside floppyDrive file oneCluster n := by
  intro cs hchain
  rw [hstart] at hchain ⊢
  obtain rfl : cs = [] := hchain.1.unique oneCluster_chain.1
  have hfits : ∀ c < 5, EntryFits floppyDrive c := by decide
  refine ⟨.of_fits (by decide) (by decide) oneCluster, fun _ => floppy_fields,
    fun _ c hc => ?_, 5, by decide, ?_,
    fun c _ hlt hcut => absurd (hfits c hlt) hcut⟩
  · obtain rfl : 2 = c := by simpa using hc
    exact hfits 2 (by decide)
  · have hsub : ({3, 4} : Finset ℕ) ⊆ {c ∈ freeClusters floppy oneCluster | c < 5} := by
      intro c hc
      refine Finset.mem_filter.mpr ⟨mem_freeClusters.mpr ?_, ?_⟩
      · obtain rfl | rfl : c = 3 ∨ c = 4 := by simpa using hc
        · exact ⟨floppy_dataCluster (by decide) (by decide), by decide⟩
        · exact ⟨floppy_dataCluster (by decide) (by decide), by decide⟩
      · obtain rfl | rfl : c = 3 ∨ c = 4 := by simpa using hc
        · decide
        · decide
    exact hn.trans (Finset.card_le_card hsub)

end LakeOS.Analysis
