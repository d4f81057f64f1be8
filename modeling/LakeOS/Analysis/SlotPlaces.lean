import LakeOS.Analysis.ChainGrowing
import LakeOS.Analysis.EndMarker
import LakeOS.Analysis.FatAppend

/-!
# Where an entry is stored

`FAT_write_entry` looks for a free entry through the clusters of the directory, and stores
behind the first cluster, as if the others followed it on the disk.  The address is that of an
entry of the directory, of another one than was found, or of none.
-/

set_option autoImplicit false

namespace LakeOS.Analysis

open LakeOS.Library LakeOS.Model

variable {ctx : FatContext} {d d' grown : Disk} {start k addr : ℕ} {cs cs' fresh : List ℕ}
  {junk : Uninit} {entry : List Byte} {T : ℕ → Prop}

/-- The address at which `FAT_write_entry` stores for an index.
SRCLINE: fat.c:568 -/
def storePlace (ctx : FatContext) (start k : ℕ) : ℕ :=
  add32 (fatClusToOff ctx start) (mul32 k sizeofShortDirEntry)

/-! ## The slots of a directory that grows -/

/-- INTERNAL: the entries of the clusters that were there. -/
theorem slotStart_append (hne : cs ≠ [])
    (hk : k * sizeofShortDirEntry / ctx.bytesPClus < cs.length) :
    slotStart ctx (cs ++ fresh) k = slotStart ctx cs k := by
  unfold slotStart
  rw [if_neg (by simp [hne]), if_neg hne, List.getD_append _ _ _ _ hk]

namespace SectorLayout

variable (h : SectorLayout ctx)
include h

theorem dirSlot_append (hne : cs ≠ []) (hk : k < slotCount ctx cs) (fresh : List ℕ) (d : Disk) :
    dirSlot ctx (cs ++ fresh) d k = dirSlot ctx cs d k := by
  obtain ⟨hi, -, -⟩ := h.slot_in_cluster hne hk
  rw [dirSlot, slotStart_append hne hi, dirSlot]

theorem slotCount_append_le (hne : cs ≠ []) (fresh : List ℕ) :
    slotCount ctx cs ≤ slotCount ctx (cs ++ fresh) := by
  have hmul := h.slotCount_mul hne
  have hmul' := h.slotCount_mul (show cs ++ fresh ≠ [] by simp [hne])
  have hle := Nat.mul_le_mul_right ctx.bytesPClus
    (show cs.length ≤ (cs ++ fresh).length by rw [List.length_append]; omega)
  unfold sizeofShortDirEntry at *
  omega

/-- The bytes of an entry are bytes of a cluster. -/
theorem slot_inClusters (hne : cs ≠ []) (hk : k < slotCount ctx cs) {x : ℕ}
    (hx : slotStart ctx cs k ≤ x) (hx' : x < slotStart ctx cs k + 32) : InClusters ctx cs x := by
  obtain ⟨hi, hstart, hfit⟩ := h.slot_in_cluster hne hk
  refine ⟨_, List.getElem_mem hi, ?_, ?_⟩
  · omega
  · unfold sizeofShortDirEntry at *
    omega

/-- INTERNAL: the entry of a data cluster lies in the tables. -/
theorem entryByte_inTables {c x : ℕ} (hc : DataCluster ctx c) (hx : EntryByte ctx c x) :
    InTables ctx x := by
  obtain ⟨i, hi, hlow, hhigh⟩ := hx
  have htable := h.inTable hc
  have hle := FatLayout.table_le hi
  rw [h.fatEntryOffset_eq hi htable] at hlow hhigh
  unfold InTable at htable
  unfold InTables
  omega

/-- INTERNAL: the entries do not change with the tables. -/
theorem dirSlot_of_tables (hsame : ∀ x, ¬ InTables ctx x → grown x = d x) (cs : List ℕ) (k : ℕ) :
    dirSlot ctx cs grown k = dirSlot ctx cs d k :=
  Store.read_congr fun x hx _ => hsame x (h.slot_not_inTables hx)

/-- INTERNAL: the address is that many entries behind the first cluster. -/
theorem storePlace_eq (hstart : DataCluster ctx start) (hk : k < 2 ^ 26) :
    storePlace ctx start k = clusterStart ctx start + k * sizeofShortDirEntry := by
  have hlt := (h.clusterStart_le hstart).trans_lt h.size
  have hsize : k * sizeofShortDirEntry < 2 ^ 31 := by
    unfold sizeofShortDirEntry
    omega
  rw [storePlace, h.fatClusToOff_eq hstart, mul32_eq (by omega), add32_eq (by omega)]

/-- **Entries are aligned.**  What is stored covers an entry of the directory, or no byte of it. -/
theorem place_cases (hne : cs ≠ [])
    (haddr : addr = clusterStart ctx start + k * sizeofShortDirEntry) :
    (∃ j < slotCount ctx cs, addr = slotStart ctx cs j) ∨
      ∀ x, addr ≤ x → x < addr + 32 → ¬ InClusters ctx cs x := by
  by_cases hin : ∀ x, addr ≤ x → x < addr + 32 → ¬ InClusters ctx cs x
  · exact .inr hin
  · simp only [not_forall, not_not] at hin
    obtain ⟨x, hx, hx', c, hc, hcx, hcx'⟩ := hin
    obtain ⟨t, ht, rfl⟩ := List.getElem_of_mem hc
    obtain ⟨q, hq, hbpc⟩ := h.entries_of_cluster
    have hmul := h.slotCount_mul hne
    unfold sizeofShortDirEntry at *
    -- both count whole entries from the data region
    obtain ⟨u, hu⟩ : ∃ u, addr = ctx.dataRegionStart + u * 32 :=
      ⟨(start - 2) * q + k, by
        rw [haddr, clusterStart, hbpc, ← Nat.mul_assoc, Nat.add_mul]
        omega⟩
    have hcluster : clusterStart ctx cs[t] = ctx.dataRegionStart + (cs[t] - 2) * q * 32 := by
      rw [clusterStart, hbpc, ← Nat.mul_assoc]
    rw [hcluster] at hcx hcx'
    rw [hbpc] at hcx'
    obtain ⟨r, hr⟩ := Nat.exists_eq_add_of_le (show (cs[t] - 2) * q ≤ u by omega)
    have hrq : r < q := by omega
    have hrow : t * q + r < cs.length * q := by
      have hle := Nat.mul_le_mul_right q (show t + 1 ≤ cs.length from ht)
      rw [Nat.succ_mul] at hle
      omega
    have hcount : slotCount ctx cs = cs.length * q := by
      rw [hbpc, ← Nat.mul_assoc] at hmul
      exact Nat.mul_right_cancel (by decide) hmul
    have hdiv : (t * q + r) / q = t := by
      rw [Nat.add_comm, Nat.add_mul_div_right _ _ (by omega), Nat.div_eq_of_lt hrq, Nat.zero_add]
    have hmod : (t * q + r) % q = r := by
      rw [Nat.mul_comm, Nat.mul_add_mod, Nat.mod_eq_of_lt hrq]
    refine .inl ⟨t * q + r, by omega, ?_⟩
    rw [slotStart, if_neg hne, hbpc, Nat.mul_div_mul_right _ _ (by decide), Nat.mul_mod_mul_right,
      hdiv, hmod, List.getD_eq_getElem _ _ ht, hcluster, hu, hr, Nat.add_mul, Nat.add_assoc]

end SectorLayout

/-! ## What the store leaves behind -/

/-- The entry is read at an index that was free or is new, the other entries are what they
were, and those that are new are free. -/
structure EntryWritten (ctx : FatContext) (junk : Uninit) (start : ℕ) (cs cs' : List ℕ)
    (entry : List Byte) (d d' : Disk) (i : ℕ) : Prop where
  inside : i < slotCount ctx cs'
  free : slotCount ctx cs ≤ i ∨ entryIsFree (dirSlot ctx cs d i)
  stored : fatDirEntry ctx junk start i d' = some (0, some entry)
  kept : ∀ j < slotCount ctx cs, j ≠ i →
    fatDirEntry ctx junk start j d' = fatDirEntry ctx junk start j d
  blank : ∀ j, slotCount ctx cs ≤ j → j < slotCount ctx cs' → j ≠ i →
    ∃ e, fatDirEntry ctx junk start j d' = some (0, some e) ∧ entryIsFree e

/-- What is stored at an address is read at an index, or was there before, and the other
entries of new clusters are free. -/
def PlacedWell (ctx : FatContext) (cs cs' : List ℕ) (entry : List Byte) (d : Disk)
    (addr : ℕ) : Prop :=
  ∃ i < slotCount ctx cs', (slotCount ctx cs ≤ i ∨ entryIsFree (dirSlot ctx cs d i)) ∧
    (addr = slotStart ctx cs' i ∨ dirSlot ctx cs' d i = entry ∧ d.read addr 32 = entry) ∧
    ∀ j, slotCount ctx cs ≤ j → j < slotCount ctx cs' → j ≠ i →
      entryIsFree (dirSlot ctx cs' d j)

namespace SectorLayout

variable (h : SectorLayout ctx)
include h

/-- INTERNAL: a store at an entry is seen at that entry only. -/
theorem dirSlot_store (hdir : DirClusters ctx d start cs) (hlen : entry.length = 32) {i j : ℕ}
    (hi : i < slotCount ctx cs) (hj : j < slotCount ctx cs) :
    dirSlot ctx cs (d'.write (slotStart ctx cs i) entry) j =
      if j = i then entry else dirSlot ctx cs d' j := by
  by_cases heq : j = i
  · have hself := Store.read_write_self d' (slotStart ctx cs i) entry
    rw [hlen] at hself
    rw [if_pos heq, heq]
    exact hself
  · have hapart := h.slots_apart hdir hi hj (Ne.symm heq)
    rw [if_neg heq, dirSlot, Store.read_write_disjoint _ _ (by unfold sizeofShortDirEntry; omega),
      dirSlot]

/-- INTERNAL: a store outside the directory is seen at no entry. -/
theorem dirSlot_store_outside (hne : cs ≠ []) (hlen : entry.length = 32)
    (hout : ∀ x, addr ≤ x → x < addr + 32 → ¬ InClusters ctx cs x) {j : ℕ}
    (hj : j < slotCount ctx cs) :
    dirSlot ctx cs (d'.write addr entry) j = dirSlot ctx cs d' j := by
  refine Store.read_congr fun x hx hx' => Store.write_of_notMem _ _ ?_
  have hin := h.slot_inClusters hne hj hx hx'
  by_contra hcover
  exact hout x (by omega) (by omega) hin

end SectorLayout

/-- INTERNAL: what is left of a run of `FAT_write_entry`: the disk on which the last store is
made, with the clusters that the directory then has. -/
structure LastStore (ctx : FatContext) (start : ℕ) (cs cs' : List ℕ) (d grown : Disk)
    (T : ℕ → Prop) (addr : ℕ) : Prop where
  chain : FatChain ctx d (start :: cs)
  grows : ∃ fresh, cs' = start :: cs ++ fresh
  grownChain : FatChain ctx grown cs'
  inTables : ∀ x, T x → InTables ctx x
  same : ∀ x, ¬ T x → grown x = d x
  aligned : ∃ k, addr = clusterStart ctx start + k * sizeofShortDirEntry

namespace LastStore

variable (hs : LastStore ctx start cs cs' d grown T addr)
include hs

theorem ne_nil : cs' ≠ [] := by
  obtain ⟨fresh, rfl⟩ := hs.grows
  simp

theorem head : cs'.head? = some start := by
  obtain ⟨fresh, rfl⟩ := hs.grows
  rfl

variable (h : SectorLayout ctx)
include h

theorem slotCount_le : slotCount ctx (start :: cs) ≤ slotCount ctx cs' := by
  obtain ⟨fresh, rfl⟩ := hs.grows
  exact h.slotCount_append_le (List.cons_ne_nil start cs) fresh

theorem dirSlot_old (hk : k < slotCount ctx (start :: cs)) :
    dirSlot ctx cs' d k = dirSlot ctx (start :: cs) d k := by
  obtain ⟨fresh, rfl⟩ := hs.grows
  exact h.dirSlot_append (List.cons_ne_nil start cs) hk fresh d

/-- INTERNAL: the tables are all that has changed. -/
theorem dirSlot_grown (k : ℕ) : dirSlot ctx cs' grown k = dirSlot ctx cs' d k :=
  h.dirSlot_of_tables (fun x hx => hs.same x fun hT => hx (hs.inTables x hT)) cs' k

theorem read_addr : grown.read addr 32 = d.read addr 32 := by
  obtain ⟨k, haddr⟩ := hs.aligned
  refine Store.read_congr fun x hx _ => hs.same x fun hT => ?_
  exact h.not_inTables (show clusterStart ctx start ≤ x by omega) (hs.inTables x hT)

theorem chain_store : FatChain ctx (grown.write addr entry) cs' := by
  obtain ⟨k, haddr⟩ := hs.aligned
  exact h.chain_write hs.grownChain (show clusterStart ctx start ≤ addr by omega) entry

/-- INTERNAL: the tables tell which clusters the directory has. -/
theorem chain_unique {found : List ℕ} (hfound : FatChain ctx (grown.write addr entry) found)
    (hhead : found.head? = some start) : found = cs' := by
  have hstored : FatChain ctx (grown.write addr entry) cs' := hs.chain_store h
  obtain ⟨fresh, rfl⟩ := hs.grows
  obtain ⟨c, rest, rfl⟩ := List.exists_cons_of_ne_nil hfound.1.ne_nil
  obtain rfl := Option.some.inj hhead
  rw [hfound.1.unique hstored.1]
  rfl

/-- INTERNAL: the old entries, in the directory that has grown. -/
theorem fatDirEntry_old (hk : k < slotCount ctx (start :: cs)) :
    fatDirEntry ctx junk start k d = some (0, some (dirSlot ctx cs' d k)) := by
  rw [hs.dirSlot_old h hk]
  exact h.fatDirEntry_slot (.inr ⟨rfl, hs.chain⟩) hk

theorem fatDirEntry_new (hk : k < slotCount ctx cs') :
    fatDirEntry ctx junk start k (grown.write addr entry) =
      some (0, some (dirSlot ctx cs' (grown.write addr entry) k)) :=
  h.fatDirEntry_slot (.inr ⟨hs.head, hs.chain_store h⟩) hk

/-- INTERNAL: the entries after a store that is well placed. -/
theorem dirSlot_stored (hlen : entry.length = 32) {i : ℕ} (hi : i < slotCount ctx cs')
    (hplace : addr = slotStart ctx cs' i ∨ dirSlot ctx cs' d i = entry ∧ d.read addr 32 = entry)
    {j : ℕ} (hj : j < slotCount ctx cs') :
    dirSlot ctx cs' (grown.write addr entry) j = if j = i then entry else dirSlot ctx cs' d j := by
  rcases hplace with rfl | ⟨hslot, hread⟩
  · rw [h.dirSlot_store (.inr ⟨hs.head, hs.grownChain⟩) hlen hi hj, hs.dirSlot_grown h]
  · rw [Store.write_of_read grown (by rw [hlen, hs.read_addr h, hread]), hs.dirSlot_grown h]
    by_cases heq : j = i
    · rw [if_pos heq, heq, hslot]
    · rw [if_neg heq]

/-- INTERNAL: well placed, the entry is written. -/
theorem written (hlen : entry.length = 32)
    (hwell : PlacedWell ctx (start :: cs) cs' entry d addr) :
    (∃ i, EntryWritten ctx junk start (start :: cs) cs' entry d (grown.write addr entry) i) ∧
      ∀ x, ¬ InClusters ctx cs' x → ¬ T x → grown.write addr entry x = d x := by
  obtain ⟨i, hi, hfree, hplace, hothers⟩ := hwell
  have hle := hs.slotCount_le h
  refine ⟨⟨i, hi, hfree, ?_, fun j hj hne => ?_, fun j _ hj' hne => ?_⟩, fun x hx hT => ?_⟩
  · rw [hs.fatDirEntry_new h hi, hs.dirSlot_stored h hlen hi hplace hi, if_pos rfl]
  · rw [hs.fatDirEntry_new h (hj.trans_le hle), hs.fatDirEntry_old h hj,
      hs.dirSlot_stored h hlen hi hplace (hj.trans_le hle), if_neg hne]
  · refine ⟨_, hs.fatDirEntry_new h hj', ?_⟩
    rw [hs.dirSlot_stored h hlen hi hplace hj', if_neg hne]
    exact hothers j ‹_› hj' hne
  · rcases hplace with rfl | ⟨-, hread⟩
    · rw [Store.write_of_notMem, hs.same x hT]
      by_contra hcover
      exact hx (h.slot_inClusters hs.ne_nil hi (by omega) (by omega))
    · rw [Store.write_of_read grown (by rw [hlen, hs.read_addr h, hread]), hs.same x hT]

/-- INTERNAL: written, the entry is well placed.  The store may have covered the entry that is
read, another one, or none. -/
theorem placedWell (hlen : entry.length = 32) {i : ℕ}
    (hwritten : EntryWritten ctx junk start (start :: cs) cs' entry d (grown.write addr entry) i)
    (hframe : ∀ x, ¬ InClusters ctx cs' x → ¬ T x → grown.write addr entry x = d x) :
    PlacedWell ctx (start :: cs) cs' entry d addr := by
  obtain ⟨hi, hfree, hstored, hkept, hblank⟩ := hwritten
  have hle := hs.slotCount_le h
  have hdir : DirClusters ctx grown start cs' := .inr ⟨hs.head, hs.grownChain⟩
  have hentry : dirSlot ctx cs' (grown.write addr entry) i = entry := by
    rw [hs.fatDirEntry_new h hi] at hstored
    simpa using hstored
  have hothers : ∀ j, slotCount ctx (start :: cs) ≤ j → j < slotCount ctx cs' → j ≠ i →
      entryIsFree (dirSlot ctx cs' (grown.write addr entry) j) := by
    intro j hj hj' hne
    obtain ⟨e, he, hefree⟩ := hblank j hj hj' hne
    rw [hs.fatDirEntry_new h hj'] at he
    simp only [Option.some.injEq, Prod.mk.injEq, true_and] at he
    rw [he]
    exact hefree
  obtain ⟨k, haddr⟩ := hs.aligned
  rcases h.place_cases hs.ne_nil haddr with ⟨c, hc, rfl⟩ | hout
  · -- an entry of the directory is covered
    have hslot : ∀ j < slotCount ctx cs',
        dirSlot ctx cs' (grown.write (slotStart ctx cs' c) entry) j =
          if j = c then entry else dirSlot ctx cs' d j := by
      intro j hj
      rw [h.dirSlot_store hdir hlen hc hj, hs.dirSlot_grown h]
    have hcovered := (hslot c hc).trans (if_pos rfl)
    by_cases hci : c = i
    · refine ⟨i, hi, hfree, .inl (congrArg _ hci), fun j hj hj' hne => ?_⟩
      have hfreeSlot := hothers j hj hj' hne
      rwa [hslot j hj', if_neg (hci ▸ hne)] at hfreeSlot
    · have hread : dirSlot ctx cs' d i = entry := by
        rw [hslot i hi, if_neg (Ne.symm hci)] at hentry
        exact hentry
      by_cases hold : c < slotCount ctx (start :: cs)
      · -- it is one that was there, and keeps its bytes
        have hsame := hkept c hold hci
        rw [hs.fatDirEntry_new h hc, hs.fatDirEntry_old h hold, hcovered] at hsame
        simp only [Option.some.injEq, Prod.mk.injEq, true_and] at hsame
        refine ⟨i, hi, hfree, .inr ⟨hread, hsame.symm⟩, fun j hj hj' hne => ?_⟩
        have hfreeSlot := hothers j hj hj' hne
        rwa [hslot j hj', if_neg (by omega)] at hfreeSlot
      · -- it is a new one, so the entry counts as free
        have hentryFree := hothers c (by omega) hc hci
        rw [hcovered] at hentryFree
        refine ⟨c, hc, .inl (by omega), .inl rfl, fun j hj hj' hne => ?_⟩
        by_cases hji : j = i
        · rw [hji, hread]
          exact hentryFree
        · have hfreeSlot := hothers j hj hj' hji
          rwa [hslot j hj', if_neg hne] at hfreeSlot
  · have hslot : ∀ j < slotCount ctx cs', dirSlot ctx cs' (grown.write addr entry) j =
        dirSlot ctx cs' d j := by
      intro j hj
      rw [h.dirSlot_store_outside hs.ne_nil hlen hout hj, hs.dirSlot_grown h]
    have hread : d.read addr 32 = entry := by
      have hself := Store.read_write_self grown addr entry
      rw [hlen] at hself
      rw [← hself]
      refine Store.read_congr fun x hx hx' => (hframe x (hout x hx hx') fun hT => ?_).symm
      exact h.not_inTables (show clusterStart ctx start ≤ x by omega) (hs.inTables x hT)
    refine ⟨i, hi, hfree, .inr ⟨(hslot i hi).symm.trans hentry, hread⟩, fun j hj hj' hne => ?_⟩
    rw [← hslot j hj']
    exact hothers j hj hj' hne

end LastStore

end LakeOS.Analysis
