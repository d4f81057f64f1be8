import LakeOS.Analysis.SlotPlaces

/-!
# Runs of `FAT_write_entry`

A run goes past the entries that are taken.  At the end of the directory it adds a cluster,
clears nothing, and goes on with the second entry of it; when the cluster has no free entry
either it adds the next.  Where the run ends decides whether the entry is read where it was
written.
-/

set_option autoImplicit false

namespace LakeOS.Analysis

open LakeOS.Library LakeOS.Model

variable {ctx : FatContext} {d d' grown : Disk} {start k m : ℕ} {cs cs' : List ℕ} {junk : Uninit}
  {entry : List Byte}

/-! ## The runs -/

/-- `FAT_write_entry` writes the entry where `FAT_dir_entry` reads it: at an entry that was free,
or in a cluster that it has added, and changes nothing else. -/
def WritesWhereRead (ctx : FatContext) (junk : Uninit) (start : ℕ) (cs : List ℕ)
    (entry : List Byte) (d : Disk) : Prop :=
  ∃ d' cs' i, fatWriteEntry ctx junk start entry d = some d' ∧ FatChain ctx d' cs' ∧
    EntryWritten ctx junk start (start :: cs) cs' entry d d' i ∧
    (cs' = start :: cs ∧ (∀ x, ¬ InClusters ctx cs' x → d' x = d x) ∨
      ∃ new ∈ freeClusters ctx d, cs' = start :: cs ++ [new] ∧
        ∀ x, ¬ InClusters ctx cs' x →
          ¬ (EntryByte ctx (cs.getLastD start) x ∨ EntryByte ctx new x) → d' x = d x)

/-- The first free entry of the directory. -/
def FirstFree (ctx : FatContext) (cs : List ℕ) (d : Disk) (k : ℕ) : Prop :=
  k < slotCount ctx cs ∧ entryIsFree (dirSlot ctx cs d k) ∧
    ∀ j < k, ¬ entryIsFree (dirSlot ctx cs d j)

/-- No entry of the directory is free. -/
def IsFull (ctx : FatContext) (cs : List ℕ) (d : Disk) : Prop :=
  ∀ j < slotCount ctx cs, ¬ entryIsFree (dirSlot ctx cs d j)

/-- The first free entry behind the first one of a new cluster. -/
def FirstFresh (ctx : FatContext) (cs cs' : List ℕ) (d : Disk) (k : ℕ) : Prop :=
  slotCount ctx cs < k ∧ k < slotCount ctx cs' ∧ entryIsFree (dirSlot ctx cs' d k) ∧
    ∀ j, slotCount ctx cs < j → j < k → ¬ entryIsFree (dirSlot ctx cs' d j)

section

variable (h : SectorLayout ctx) (hchain : FatChain ctx d (start :: cs))
  (hlen : entry.length = 32)
include h hchain hlen

/-- INTERNAL: a directory with a free entry does not grow. -/
theorem writesWhereRead_of_free (hk : FirstFree ctx (start :: cs) d k) :
    WritesWhereRead ctx junk start cs entry d ↔
      PlacedWell ctx (start :: cs) (start :: cs) entry d (storePlace ctx start k) := by
  obtain ⟨hin, hfree, hfirst⟩ := hk
  have hdir : DirClusters ctx d start (start :: cs) := .inr ⟨rfl, hchain⟩
  have hrun : fatWriteEntry ctx junk start entry d =
      some (d.write (storePlace ctx start k) entry) :=
    h.fatWriteEntry_first hdir hin hfree hfirst entry
  have hs : LastStore ctx start cs (start :: cs) d d (fun _ => False) (storePlace ctx start k) :=
    ⟨hchain, ⟨[], (List.append_nil _).symm⟩, hchain, fun x hx => hx.elim, fun x _ => rfl,
      k, h.storePlace_eq (hchain.2 start List.mem_cons_self)
        (hin.trans (h.slotCount_lt hdir))⟩
  constructor
  · rintro ⟨d', found, i, hwrite, hfound, hwritten, hcases⟩
    obtain rfl := Option.some.inj (hrun.symm.trans hwrite)
    rcases hcases with ⟨rfl, hframe⟩ | ⟨new, -, rfl, -⟩
    · exact hs.placedWell h hlen hwritten fun x hx _ => hframe x hx
    · have hlength := congrArg List.length (hs.chain_unique h hfound rfl)
      simp at hlength
  · intro hwell
    obtain ⟨⟨i, hwritten⟩, hframe⟩ := hs.written h hlen hwell
    exact ⟨_, _, i, hrun, hs.chain_store h, hwritten, .inl ⟨rfl, fun x hx => hframe x hx id⟩⟩

omit h hchain hlen in
/-- INTERNAL: a full directory takes no entry without a new cluster. -/
theorem IsFull.not_written {i : ℕ} (hfull : IsFull ctx cs d) :
    ¬ EntryWritten ctx junk start cs cs entry d d' i := by
  intro hwritten
  rcases hwritten.free with hbeyond | hfree
  · exact absurd hwritten.inside (Nat.not_lt.mpr hbeyond)
  · exact hfull i hwritten.inside hfree

omit h hchain hlen in
/-- INTERNAL: a full directory that finds no free cluster cannot take the entry. -/
theorem not_writesWhereRead_of_full (hfull : IsFull ctx (start :: cs) d)
    (hnone : ¬ (freeClusters ctx d).Nonempty) : ¬ WritesWhereRead ctx junk start cs entry d := by
  rintro ⟨d', cs', i, -, -, hwritten, ⟨rfl, -⟩ | ⟨new, hnew, -⟩⟩
  · exact hfull.not_written hwritten
  · exact hnone ⟨new, hnew⟩

omit h hchain hlen in
/-- INTERNAL: the loop goes on with the cluster that it has added. -/
theorem fatWriteEntryLoop_grown {fail : ℕ} (hfail : fail ≠ 0)
    (hgrown : fatAllocateCluster ctx start d = some grown) (fuel i : ℕ) (read : List Byte) :
    fatWriteEntryLoop ctx junk start entry (fuel + 1) i fail read d =
      fatWriteEntryLoop ctx junk start entry (fuel + 1) i 0 read grown := by
  rw [fatWriteEntryLoop, fatExtendAtEnd, if_pos hfail, hgrown, fatWriteEntryLoop, fatExtendAtEnd,
    if_neg (by decide)]

omit hlen in
/-- INTERNAL: behind the last entry the loop goes on with the next index. -/
theorem fatWriteEntryLoop_past {read : List Byte} (hread : ¬ entryIsFree read) :
    ∃ fail, fail ≠ 0 ∧ ∀ fuel,
      fatWriteEntryLoop ctx junk start entry (fuel + 1) (slotCount ctx (start :: cs)) 0 read d =
        fatWriteEntryLoop ctx junk start entry fuel (slotCount ctx (start :: cs) + 1) fail read
          d := by
  have hdir : DirClusters ctx d start (start :: cs) := .inr ⟨rfl, hchain⟩
  have hcount := h.slotCount_lt hdir
  obtain ⟨fail, hfail, hend⟩ : ∃ fail, fail ≠ 0 ∧
      fatDirEntry ctx junk start (slotCount ctx (start :: cs)) d = some (fail, none) :=
    h.fatDirEntry_end hdir fun hroot =>
      absurd (hchain.2 start List.mem_cons_self).1 (Nat.not_le.mpr hroot)
  refine ⟨fail, hfail, fun fuel => ?_⟩
  rw [fatWriteEntryLoop, fatExtendAtEnd, if_neg (by decide), Option.bind_eq_bind,
    Option.bind_some, hend, Option.bind_eq_bind, Option.bind_some, Option.getD_none,
    if_neg hread, add32_eq (by omega)]

omit hlen in
/-- INTERNAL: then a cluster is added. -/
theorem fatWriteEntryLoop_end (hgrown : fatAllocateCluster ctx start d = some grown)
    {read : List Byte} (hread : ¬ entryIsFree read) (fuel : ℕ) :
    fatWriteEntryLoop ctx junk start entry (fuel + 1 + 1) (slotCount ctx (start :: cs)) 0 read d =
      fatWriteEntryLoop ctx junk start entry (fuel + 1) (slotCount ctx (start :: cs) + 1) 0 read
        grown := by
  obtain ⟨fail, hfail, hpast⟩ := fatWriteEntryLoop_past h hchain hread
  rw [hpast, fatWriteEntryLoop_grown hfail hgrown]

omit hlen in
/-- INTERNAL: the run in a full directory, up to the new cluster. -/
theorem fatWriteEntry_full (junk : Uninit) (entry : List Byte)
    (hfull : IsFull ctx (start :: cs) d)
    (hgrown : fatAllocateCluster ctx start d = some grown) :
    ∃ read, ¬ entryIsFree read ∧ ∀ fuel, fatFuel = fuel + 1 + 1 + slotCount ctx (start :: cs) →
      fatWriteEntry ctx junk start entry d =
        fatWriteEntryLoop ctx junk start entry (fuel + 1) (slotCount ctx (start :: cs) + 1) 0 read
          grown := by
  have hdir : DirClusters ctx d start (start :: cs) := .inr ⟨rfl, hchain⟩
  obtain ⟨read, hread, hold⟩ := h.fatWriteEntryLoop_passes junk hdir entry
    (show 0 + slotCount ctx (start :: cs) ≤ slotCount ctx (start :: cs) by omega)
    (fun j _ hlt => hfull j (by omega)) (dirSlot ctx (start :: cs) d 0)
  have htaken : ¬ entryIsFree read := fun hfree => hfull 0 (h.slotCount_pos hdir) (hread hfree)
  refine ⟨read, htaken, fun fuel hfuel => ?_⟩
  rw [h.fatWriteEntry_eq hdir, hfuel, hold, Nat.zero_add,
    fatWriteEntryLoop_end h hchain hgrown htaken]

omit hlen in
/-- INTERNAL: the run in a full directory whose new cluster has a free entry that is looked
at. -/
theorem fatWriteEntry_fresh (hfull : IsFull ctx (start :: cs) d)
    (hgrown : fatAllocateCluster ctx start d = some grown)
    (hchain' : FatChain ctx grown (start :: cs ++ [m]))
    (hsame : ∀ x, ¬ InTables ctx x → grown x = d x)
    (hk : FirstFresh ctx (start :: cs) (start :: cs ++ [m]) d k) :
    fatWriteEntry ctx junk start entry d =
      some (grown.write (storePlace ctx start k) entry) := by
  obtain ⟨hbehind, hin, hfree, hfirst⟩ := hk
  have hdir' : DirClusters ctx grown start (start :: cs ++ [m]) := .inr ⟨rfl, hchain'⟩
  have hcount := h.slotCount_lt hdir'
  have hslot := h.dirSlot_of_tables hsame (start :: cs ++ [m])
  obtain ⟨read, -, hrun⟩ := fatWriteEntry_full h hchain junk entry hfull hgrown
  obtain ⟨n, rfl⟩ := Nat.exists_eq_add_of_le hbehind
  obtain ⟨read', -, hnew⟩ := h.fatWriteEntryLoop_passes junk hdir' entry
    (show slotCount ctx (start :: cs) + 1 + n ≤ _ by omega)
    (fun j hj hlt => by
      rw [hslot]
      exact hfirst j (by omega) (by omega)) read
  rw [hrun (fatFuel - n - 2 - slotCount ctx (start :: cs) + n) (by unfold fatFuel; omega),
    Nat.add_right_comm _ n 1, hnew]
  exact h.fatWriteEntryLoop_free hdir' hin (by rw [hslot]; exact hfree) entry read' _

omit hlen in
/-- INTERNAL: the cluster that is added, and what that changes. -/
theorem exists_grown (hfields : FieldsFit ctx) (hnonempty : (freeClusters ctx d).Nonempty) :
    ∃ grown, fatAllocateCluster ctx start d = some grown ∧
      FatChain ctx grown (start :: cs ++ [findFreeCluster ctx d]) ∧
      (∀ x, ¬ (EntryByte ctx (cs.getLastD start) x ∨ EntryByte ctx (findFreeCluster ctx d) x) →
        grown x = d x) ∧
      (∀ x, EntryByte ctx (cs.getLastD start) x ∨ EntryByte ctx (findFreeCluster ctx d) x →
        InTables ctx x) ∧
      ∀ c ∈ freeClusters ctx d, c ≠ findFreeCluster ctx d → c ∈ freeClusters ctx grown := by
  have hv := h.toFatLayout.toFatVolume
  obtain ⟨hnew, hzero⟩ := mem_freeClusters.mp
    (findFreeCluster_mem h.toFatLayout hfields hnonempty)
  have hgrown := fatAllocateCluster_eq hv hchain
  generalize findFreeCluster ctx d = new at *
  have hmem : cs.getLastD start ∈ start :: cs := List.getLastD_mem_cons
  have hlast := hchain.2 _ hmem
  refine ⟨_, hgrown, VolumeChain.link hv hchain ⟨hnew.1, hnew.2, hzero⟩, fun x hx => ?_, ?_, ?_⟩
  · rw [not_or] at hx
    rw [linked, fatSetEntries_other h.toFatLayout _ _ _ hx.2,
      fatSetEntries_other h.toFatLayout _ _ _ hx.1]
  · rintro x (hx | hx)
    · exact h.entryByte_inTables hlast hx
    · exact h.entryByte_inTables hnew hx
  · intro c hc hne
    obtain ⟨hdata, hfree⟩ := mem_freeClusters.mp hc
    have hne' : c ≠ cs.getLastD start := fun heq =>
      hchain.ne_zero h.toFatLayout _ hmem (heq ▸ hfree)
    refine mem_freeClusters.mpr ⟨hdata, ?_⟩
    rw [fatGetEntry_linked hv (h.inTable hlast) (h.inTable hnew) h.numFat (h.inTable hdata),
      if_neg hne, if_neg hne', hfree]

/-- INTERNAL: a full directory that takes the entry in a new cluster. -/
theorem writesWhereRead_of_full (hfields : FieldsFit ctx) (hfull : IsFull ctx (start :: cs) d)
    (hnonempty : (freeClusters ctx d).Nonempty)
    (hk : FirstFresh ctx (start :: cs) (start :: cs ++ [findFreeCluster ctx d]) d k) :
    WritesWhereRead ctx junk start cs entry d ↔
      PlacedWell ctx (start :: cs) (start :: cs ++ [findFreeCluster ctx d]) entry d
        (storePlace ctx start k) := by
  have hmem := findFreeCluster_mem h.toFatLayout hfields hnonempty
  obtain ⟨grown, hgrown, hchain', hsame, htables, -⟩ := exists_grown h hchain hfields hnonempty
  generalize findFreeCluster ctx d = new at *
  have hrun : fatWriteEntry ctx junk start entry d =
      some (grown.write (storePlace ctx start k) entry) :=
    fatWriteEntry_fresh h hchain hfull hgrown hchain'
      (fun x hx => hsame x fun hT => hx (htables x hT)) hk
  have hs : LastStore ctx start cs (start :: cs ++ [new]) d grown
      (fun x => EntryByte ctx (cs.getLastD start) x ∨ EntryByte ctx new x)
      (storePlace ctx start k) :=
    ⟨hchain, ⟨[new], rfl⟩, hchain', htables, hsame,
      k, h.storePlace_eq (hchain.2 start List.mem_cons_self)
        (hk.2.1.trans (h.slotCount_lt (.inr ⟨rfl, hchain'⟩)))⟩
  constructor
  · rintro ⟨d', found, i, hwrite, hfound, hwritten, hcases⟩
    obtain rfl := Option.some.inj (hrun.symm.trans hwrite)
    rcases hcases with ⟨rfl, -⟩ | ⟨found, -, rfl, hframe⟩
    · have hlength := congrArg List.length (hs.chain_unique h hfound rfl)
      simp at hlength
    · obtain rfl : found = new := by
        have hsnoc := hs.chain_unique h hfound rfl
        simpa using hsnoc
      exact hs.placedWell h hlen hwritten hframe
  · intro hwell
    obtain ⟨⟨i, hwritten⟩, hframe⟩ := hs.written h hlen hwell
    exact ⟨_, _, i, hrun, hs.chain_store h, hwritten, .inr ⟨new, hmem, rfl, hframe⟩⟩

end

/-! ## Beyond the new cluster -/

/-- An entry of the cluster behind its first one is free. -/
def HasFresh (ctx : FatContext) (d : Disk) (c : ℕ) : Prop :=
  ∃ r, 1 ≤ r ∧ r * sizeofShortDirEntry < ctx.bytesPClus ∧
    entryIsFree (d.read (clusterStart ctx c + r * sizeofShortDirEntry) sizeofShortDirEntry)

section

variable (h : SectorLayout ctx)
include h

/-- INTERNAL: the entries of a cluster that is added. -/
theorem slotStart_new (hne : cs ≠ []) (m : ℕ) {r : ℕ}
    (hr : r * sizeofShortDirEntry < ctx.bytesPClus) :
    slotCount ctx cs + r < slotCount ctx (cs ++ [m]) ∧
      slotStart ctx (cs ++ [m]) (slotCount ctx cs + r) =
        clusterStart ctx m + r * sizeofShortDirEntry := by
  have hmul := h.slotCount_mul hne
  have hmul' := h.slotCount_mul (show cs ++ [m] ≠ [] by simp)
  have hsum : (slotCount ctx cs + r) * sizeofShortDirEntry =
      cs.length * ctx.bytesPClus + r * sizeofShortDirEntry := by
    rw [Nat.add_mul, hmul]
  have hdiv : (cs.length * ctx.bytesPClus + r * sizeofShortDirEntry) / ctx.bytesPClus =
      cs.length := by
    rw [Nat.add_comm, Nat.add_mul_div_right _ _ h.bytesPClus_pos, Nat.div_eq_of_lt hr,
      Nat.zero_add]
  have hmod : (cs.length * ctx.bytesPClus + r * sizeofShortDirEntry) % ctx.bytesPClus =
      r * sizeofShortDirEntry := by
    rw [Nat.mul_comm, Nat.mul_add_mod, Nat.mod_eq_of_lt hr]
  constructor
  · rw [List.length_append, List.length_singleton, Nat.add_mul] at hmul'
    unfold sizeofShortDirEntry at *
    omega
  · rw [slotStart, if_neg (by simp), hsum, hdiv, hmod, List.getD_append_right _ _ _ _ le_rfl,
      Nat.sub_self]
    rfl

/-- INTERNAL: a cluster has entries. -/
theorem SectorLayout.slotCount_lt_append (start : ℕ) (cs : List ℕ) (m : ℕ) :
    slotCount ctx (start :: cs) + 1 ≤ slotCount ctx (start :: (cs ++ [m])) := by
  obtain ⟨q, hq, hbpc⟩ := h.entries_of_cluster
  have hone : 1 * sizeofShortDirEntry < ctx.bytesPClus := by
    rw [hbpc]
    unfold sizeofShortDirEntry
    omega
  exact (slotStart_new h (List.cons_ne_nil start cs) m hone).1.le

omit h in
/-- INTERNAL: the first byte tells whether an entry is free. -/
theorem entryIsFree_of_byte (hbyte : d' (slotStart ctx cs k) = d (slotStart ctx cs k)) :
    entryIsFree (dirSlot ctx cs d' k) = entryIsFree (dirSlot ctx cs d k) := by
  rw [entryIsFree, entryIsFree, head?_dirSlot, head?_dirSlot, hbyte]

/-- INTERNAL: a fresh entry, in the directory to which the cluster is added. -/
theorem HasFresh.slot (hne : cs ≠ []) (hfresh : HasFresh ctx d m) :
    ∃ k, slotCount ctx cs < k ∧ k < slotCount ctx (cs ++ [m]) ∧
      entryIsFree (dirSlot ctx (cs ++ [m]) d k) := by
  obtain ⟨r, hpos, hr, hfree⟩ := hfresh
  obtain ⟨hin, hstart⟩ := slotStart_new h hne m hr
  refine ⟨slotCount ctx cs + r, by omega, hin, ?_⟩
  rw [dirSlot, hstart]
  exact hfree

/-- INTERNAL: fresh entries lie outside the tables. -/
theorem HasFresh.congr {c : ℕ} (hfresh : HasFresh ctx d c)
    (hsame : ∀ x, ¬ InTables ctx x → grown x = d x) : HasFresh ctx grown c := by
  obtain ⟨r, hpos, hr, hfree⟩ := hfresh
  refine ⟨r, hpos, hr, ?_⟩
  rw [Store.read_congr fun x hx _ =>
    hsame x (h.not_inTables (show clusterStart ctx c ≤ x by omega))]
  exact hfree

/-- INTERNAL: a run that can still reach a free entry stores with the clusters that it has added
by then.  The induction is on the fuel of the loop: a round passes an entry, or adds a
cluster. -/
theorem fatWriteEntryLoop_chain (hfields : FieldsFit ctx) (fuel : ℕ) {i : ℕ} {read : List Byte}
    (hi : i ≤ slotCount ctx (start :: cs)) (hread : ¬ entryIsFree read)
    (hchain : FatChain ctx d (start :: cs))
    (hleft : (∃ c ∈ freeClusters ctx d, HasFresh ctx d c) ∨
      ∃ k, i ≤ k ∧ k < slotCount ctx (start :: cs) ∧ entryIsFree (dirSlot ctx (start :: cs) d k))
    (hrun : fatWriteEntryLoop ctx junk start entry fuel i 0 read d = some d') :
    ∃ more, FatChain ctx d' (start :: cs ++ more) ∧
      (more = [] → ∃ k, i ≤ k ∧ k < slotCount ctx (start :: cs) ∧
        entryIsFree (dirSlot ctx (start :: cs) d k)) := by
  have hdir : DirClusters ctx d start (start :: cs) := .inr ⟨rfl, hchain⟩
  induction fuel generalizing i read d cs with
  | zero => cases hrun
  | succ fuel ih =>
    by_cases hin : i < slotCount ctx (start :: cs)
    · by_cases hfree : entryIsFree (dirSlot ctx (start :: cs) d i)
      · rw [h.fatWriteEntryLoop_free hdir hin hfree] at hrun
        obtain rfl := Option.some.inj hrun
        refine ⟨[], ?_, fun _ => ⟨i, le_rfl, hin, hfree⟩⟩
        have hstart := hchain.2 start List.mem_cons_self
        have hplace := h.storePlace_eq hstart (hin.trans (h.slotCount_lt hdir))
        rw [List.append_nil]
        exact h.chain_write hchain (show clusterStart ctx start ≤ storePlace ctx start i by omega)
          entry
      · rw [h.fatWriteEntryLoop_taken hdir hin hfree] at hrun
        have hleft' : (∃ c ∈ freeClusters ctx d, HasFresh ctx d c) ∨
            ∃ k, i + 1 ≤ k ∧ k < slotCount ctx (start :: cs) ∧
              entryIsFree (dirSlot ctx (start :: cs) d k) := by
          refine hleft.imp_right ?_
          rintro ⟨k, hk, hlt, hslot⟩
          obtain rfl | hne := Nat.eq_or_lt_of_le hk
          · exact absurd hslot hfree
          · exact ⟨k, hne, hlt, hslot⟩
        obtain ⟨more, hmore, hnil⟩ := ih hin hfree hchain hleft' hrun hdir
        refine ⟨more, hmore, fun heq => ?_⟩
        obtain ⟨k, hk, hlt, hslot⟩ := hnil heq
        exact ⟨k, by omega, hlt, hslot⟩
    · obtain rfl : i = slotCount ctx (start :: cs) := by omega
      obtain ⟨c, hc, hfresh⟩ : ∃ c ∈ freeClusters ctx d, HasFresh ctx d c := by
        rcases hleft with hcluster | ⟨k, hk, hlt, -⟩
        · exact hcluster
        · omega
      obtain ⟨grown, hgrown, hchain', hsame, htables, hstill⟩ := exists_grown h hchain hfields ⟨c, hc⟩
      have hout : ∀ x, ¬ InTables ctx x → grown x = d x := fun x hx =>
        hsame x fun hT => hx (htables x hT)
      cases fuel with
      | zero =>
        obtain ⟨fail, -, hpast⟩ := fatWriteEntryLoop_past h hchain hread
        rw [hpast] at hrun
        cases hrun
      | succ fuel =>
        rw [fatWriteEntryLoop_end h hchain hgrown hread] at hrun
        have hstill' := hfresh.congr h hout
        have hleft' : (∃ c ∈ freeClusters ctx grown, HasFresh ctx grown c) ∨
            ∃ k, slotCount ctx (start :: cs) + 1 ≤ k ∧
              k < slotCount ctx (start :: (cs ++ [findFreeCluster ctx d])) ∧
              entryIsFree (dirSlot ctx (start :: (cs ++ [findFreeCluster ctx d])) grown k) := by
          by_cases heq : c = findFreeCluster ctx d
          · rw [heq] at hstill'
            exact .inr (hstill'.slot h (List.cons_ne_nil start cs))
          · exact .inl ⟨c, hstill c hc heq, hstill'⟩
        obtain ⟨more, hmore, -⟩ := ih (h.slotCount_lt_append start cs _) hread hchain' hleft'
          hrun (.inr ⟨rfl, hchain'⟩)
        refine ⟨findFreeCluster ctx d :: more, ?_, fun hnil => by cases hnil⟩
        simpa using hmore

end

/-! ## Scans that stay in the tables -/

/-- Every number that `FindFreeCluster` scans has an entry in the tables, and fits into one. -/
def ScanFits (ctx : FatContext) : Prop :=
  scanLimit ctx ≤ entryModulus ctx ∧ ∀ m < scanLimit ctx, InTable ctx m

/-- Numbers with entries in the tables, none of which leads out of them. -/
def ClosedUnder (ctx : FatContext) (d : Disk) (S : Set ℕ) : Prop :=
  ∀ c ∈ S, InTable ctx c ∧
    (fatIsEoc ctx (fatGetEntry ctx 0 c d) ∨ fatGetEntry ctx 0 c d ∈ S)

/-- INTERNAL: the end of a chain is one of its numbers. -/
theorem ClosedUnder.chainEnd {S : Set ℕ} (hS : ClosedUnder ctx d S) {fuel c last : ℕ} (hc : c ∈ S)
    (hend : fatChainEnd ctx d fuel c (fatGetEntry ctx 0 c d) = some last) : last ∈ S := by
  induction fuel generalizing c with
  | zero => cases hend
  | succ fuel ih =>
    rw [fatChainEnd] at hend
    rcases (hS c hc).2 with heoc | hnext
    · rw [if_pos heoc] at hend
      exact Option.some.inj hend ▸ hc
    · by_cases heoc : fatIsEoc ctx (fatGetEntry ctx 0 c d)
      · rw [if_pos heoc] at hend
        exact Option.some.inj hend ▸ hc
      · rw [if_neg heoc] at hend
        exact ih hnext hend

section

variable (h : SectorLayout ctx) (hscan : ScanFits ctx)
include h hscan

/-- INTERNAL: what is found has an entry and fits into one. -/
theorem findFreeCluster_fits (d : Disk) : InTable ctx (findFreeCluster ctx d) ∧
    findFreeCluster ctx d % entryModulus ctx = findFreeCluster ctx d := by
  rcases findFreeCluster_cases ctx d with ⟨hzero, -⟩ | ⟨-, hlt, -⟩
  · rw [hzero]
    exact ⟨h.holds 0 (by omega), Nat.zero_mod _⟩
  · exact ⟨hscan.2 _ hlt, Nat.mod_eq_of_lt (hlt.trans_le hscan.1)⟩

/-- INTERNAL: a cluster that is added keeps the tables closed, and changes nothing else. -/
theorem ClosedUnder.allocate {S : Set ℕ} (hS : ClosedUnder ctx d S) (hstart : start ∈ S)
    (hgrown : fatAllocateCluster ctx start d = some grown) :
    (∃ S', ClosedUnder ctx grown S' ∧ start ∈ S') ∧
      ∀ x, ¬ InTables ctx x → grown x = d x := by
  obtain ⟨last, hend, hlinked⟩ := Option.bind_eq_some_iff.mp hgrown
  obtain rfl : linked ctx last (findFreeCluster ctx d) d = grown := Option.some.inj hlinked
  have hlast := hS.chainEnd hstart hend
  obtain ⟨hnew, hmod⟩ := findFreeCluster_fits h hscan d
  generalize findFreeCluster ctx d = new at *
  have hv := h.toFatLayout.toFatVolume
  refine ⟨⟨insert new S, fun c hc => ?_, Set.mem_insert_of_mem new hstart⟩, fun x hx => ?_⟩
  · have htable : InTable ctx c := by
      rcases hc with rfl | hc
      · exact hnew
      · exact (hS c hc).1
    refine ⟨htable, ?_⟩
    rw [fatGetEntry_linked hv (hS last hlast).1 hnew h.numFat htable, hmod]
    by_cases hcn : c = new
    · rw [if_pos hcn]
      exact .inl hv.eoc
    · rw [if_neg hcn]
      by_cases hcl : c = last
      · rw [if_pos hcl]
        exact .inr (Set.mem_insert new S)
      · rw [if_neg hcl]
        have hold := (hS c (hc.resolve_left hcn)).2
        exact hold.imp_right (Set.mem_insert_of_mem new)
  · rw [linked, (fatSetEntries_spec h.toFatLayout hnew _ _).2 x hx,
      (fatSetEntries_spec h.toFatLayout (hS last hlast).1 _ _).2 x hx]

/-- INTERNAL: a run changes the tables, and stores once. -/
theorem fatWriteEntryLoop_outside (fuel : ℕ) {i eoc : ℕ} {read : List Byte} {S : Set ℕ}
    (hS : ClosedUnder ctx d S) (hstart : start ∈ S)
    (hrun : fatWriteEntryLoop ctx junk start entry fuel i eoc read d = some d') :
    ∃ last a, d' = Store.write last a entry ∧ ∀ x, ¬ InTables ctx x → last x = d x := by
  induction fuel generalizing i eoc read d S with
  | zero => cases hrun
  | succ fuel ih =>
    obtain ⟨grown, hextend, hround⟩ := Option.bind_eq_some_iff.mp hrun
    obtain ⟨next, -, hstep⟩ := Option.bind_eq_some_iff.mp hround
    obtain ⟨⟨S', hS', hstart'⟩, hsame⟩ : (∃ S', ClosedUnder ctx grown S' ∧ start ∈ S') ∧
        ∀ x, ¬ InTables ctx x → grown x = d x := by
      unfold fatExtendAtEnd at hextend
      split at hextend
      · exact hS.allocate h hscan hstart hextend
      · obtain rfl := Option.some.inj hextend
        exact ⟨⟨S, hS, hstart⟩, fun x _ => rfl⟩
    split at hstep
    · exact ⟨grown, _, (Option.some.inj hstep).symm, hsame⟩
    · obtain ⟨last, a, hlast, hout⟩ := ih hS' hstart' hstep
      exact ⟨last, a, hlast, fun x hx => (hout x hx).trans (hsame x hx)⟩

/-- INTERNAL: clusters that have nothing fresh are not what the entry can be written to. -/
theorem not_writesWhereRead_of_nothingFresh (hchain : FatChain ctx d (start :: cs))
    (hlen : entry.length = 32) (hfull : IsFull ctx (start :: cs) d)
    (hnone : ∀ c ∈ freeClusters ctx d, ¬ HasFresh ctx d c) :
    ¬ WritesWhereRead ctx junk start cs entry d := by
  rintro ⟨d', found, i, hwrite, hfound, hwritten, ⟨rfl, -⟩ | ⟨new, hnew, rfl, -⟩⟩
  · exact hfull.not_written hwritten
  · have hS : ClosedUnder ctx d {c | c ∈ start :: cs} := fun c hc =>
      ⟨h.inTable (hchain.2 c hc), hchain.1.next_mem hc⟩
    have hdir : DirClusters ctx d start (start :: cs) := .inr ⟨rfl, hchain⟩
    obtain ⟨last, a, rfl, hout⟩ : ∃ last a, d' = Store.write last a entry ∧
        ∀ x, ¬ InTables ctx x → last x = d x := by
      rw [h.fatWriteEntry_eq hdir] at hwrite
      exact fatWriteEntryLoop_outside h hscan fatFuel hS List.mem_cons_self hwrite
    have hthree : ∀ r ≤ 3, r * sizeofShortDirEntry < ctx.bytesPClus := by
      obtain ⟨q, hq, hbpc⟩ := h.entries_of_cluster
      intro r hr
      rw [hbpc]
      unfold sizeofShortDirEntry
      omega
    -- of three entries one may be the index, and one may be covered by the store
    obtain ⟨r, hpos, hle, hri, hfar⟩ : ∃ r, 1 ≤ r ∧ r ≤ 3 ∧
        slotCount ctx (start :: cs) + r ≠ i ∧
        (clusterStart ctx new + r * sizeofShortDirEntry < a ∨
          a + entry.length ≤ clusterStart ctx new + r * sizeofShortDirEntry) := by
      by_contra hno
      simp only [not_exists, not_and] at hno
      have h₁ := hno 1 le_rfl (by decide)
      have h₂ := hno 2 (by decide) (by decide)
      have h₃ := hno 3 (by decide) le_rfl
      unfold sizeofShortDirEntry at h₁ h₂ h₃
      omega
    obtain ⟨hin, hslot⟩ := slotStart_new h (List.cons_ne_nil start cs) new (hthree r hle)
    obtain ⟨e, he, hfree⟩ := hwritten.blank _ (Nat.le_add_right _ r) hin hri
    rw [h.fatDirEntry_slot (.inr ⟨rfl, hfound⟩) hin] at he
    simp only [Option.some.injEq, Prod.mk.injEq, true_and] at he
    have hbyte : last.write a entry (clusterStart ctx new + r * sizeofShortDirEntry) =
        d (clusterStart ctx new + r * sizeofShortDirEntry) := by
      rw [Store.write_of_notMem _ _ hfar, hout _ (h.not_inTables (Nat.le_add_right _ _))]
    apply hnone new hnew
    refine ⟨r, hpos, hthree r hle, ?_⟩
    rw [← hslot] at hbyte ⊢
    rw [← he, entryIsFree_of_byte hbyte] at hfree
    exact hfree

end

/-! ## Volumes on which no cluster is found -/

/-- INTERNAL: the chain of a directory that the number 0 was hung behind. -/
def LostEnd (ctx : FatContext) (lead : List ℕ) (last : ℕ) (d : Disk) : Prop :=
  Chain (fun c => fatGetEntry ctx 0 c d) (fun e => fatIsEoc ctx e) (lead ++ [last] ++ [0])

/-- INTERNAL: where `long_sectors` counts the sectors nothing is found. -/
theorem findFreeCluster_zero (hlong : ctx.bootSector.numSectors = 0) (d : Disk) :
    findFreeCluster ctx d = 0 := by
  have hlimit : scanLimit ctx = 0 := by
    rw [scanLimit, hlong]
    simp [mul32]
  rcases findFreeCluster_cases ctx d with ⟨hzero, -⟩ | ⟨-, hscan, -⟩
  · exact hzero
  · omega

section

variable (h : SectorLayout ctx) (hlong : ctx.bootSector.numSectors = 0) {lead : List ℕ}
  {last : ℕ} (hlist : start :: cs = lead ++ [last])
  (hdata : ∀ c ∈ start :: cs, DataCluster ctx c)
include h hlist hdata

omit hlist in
theorem LostEnd.inTable (c : ℕ) (hc : c ∈ start :: cs ∨ c = 0) : InTable ctx c := by
  rcases hc with hc | rfl
  · exact h.inTable (hdata c hc)
  · exact h.holds 0 (by omega)

/-- INTERNAL: it is a chain that the loops get through. -/
theorem LostEnd.whole (hlost : LostEnd ctx lead last d) :
    Chain (fun c => fatGetEntry ctx 0 c d) (fun e => fatIsEoc ctx e) (start :: (cs ++ [0])) ∧
      (start :: (cs ++ [0])).length ≤ fatFuel := by
  have hwhole : Chain (fun c => fatGetEntry ctx 0 c d) (fun e => fatIsEoc ctx e)
      (start :: (cs ++ [0])) := by
    rw [← List.cons_append, hlist]
    exact hlost
  refine ⟨hwhole, ?_⟩
  have hsub : start :: cs ⊆ List.range (dataClusters ctx + 2) :=
    fun c hc => List.mem_range.mpr (hdata c hc).2
  have hnodup : (start :: cs).Nodup := by
    have hall := hwhole.nodup
    rw [← List.cons_append] at hall
    exact (List.nodup_append.mp hall).1
  have hle := (hnodup.subperm hsub).length_le
  have hcount := h.dataClusters_lt
  rw [List.length_range, List.length_cons] at hle
  rw [List.length_cons, List.length_append, List.length_singleton]
  unfold fatFuel
  omega

include hlong

/-- INTERNAL: the first cluster that is added is none. -/
theorem lostEnd_allocate (hchain : FatChain ctx d (start :: cs)) :
    ∃ grown, fatAllocateCluster ctx start d = some grown ∧ LostEnd ctx lead last grown := by
  have hv := h.toFatLayout.toFatVolume
  have hlast : cs.getLastD start = last := by
    obtain ⟨lead', hlead⟩ := exists_lead start cs
    exact List.singleton_inj.mp (List.append_inj' (hlead.symm.trans hlist) rfl).2
  refine ⟨_, fatAllocateCluster_eq hv hchain, ?_⟩
  rw [findFreeCluster_zero hlong, hlast]
  have hnodes : Chain (fun c => fatGetEntry ctx 0 c d) (fun e => fatIsEoc ctx e)
      (lead ++ [last]) := hlist ▸ hchain.1
  have hmem : ∀ c ∈ lead ++ [last], c ∈ start :: cs := fun c hc => hlist ▸ hc
  refine hnodes.link (v := 0xFFFFFFFF % entryModulus ctx) ?_ (fun hzero => ?_) hv.eoc
    fun c hc => ?_
  · rw [h.not_eoc_zero]
    exact Bool.false_ne_true
  · exact absurd (hdata 0 (hmem 0 hzero)).1 (by decide)
  · have htable : InTable ctx c := by
      rcases List.mem_append.mp hc with hc | hc
      · exact LostEnd.inTable h hdata c (.inl (hmem c hc))
      · exact LostEnd.inTable h hdata c (.inr (List.mem_singleton.mp hc))
    rw [fatGetEntry_linked hv (LostEnd.inTable h hdata last (.inl (hmem last (by simp))))
      (LostEnd.inTable h hdata 0 (.inr rfl)) h.numFat htable, Nat.zero_mod]

/-- INTERNAL: nor are the next ones. -/
theorem LostEnd.allocate (hlost : LostEnd ctx lead last d)
    (hgrown : fatAllocateCluster ctx start d = some grown) : LostEnd ctx lead last grown := by
  have hv := h.toFatLayout.toFatVolume
  have hzero := LostEnd.inTable h hdata 0 (.inr rfl)
  obtain ⟨hwhole, hlength⟩ := hlost.whole h hlist hdata
  rw [fatAllocateCluster_linked hwhole hlength, findFreeCluster_zero hlong,
    List.getLastD_concat] at hgrown
  obtain rfl := Option.some.inj hgrown
  have hsame : ∀ c, InTable ctx c → c ≠ 0 →
      fatGetEntry ctx 0 c (linked ctx 0 0 d) = fatGetEntry ctx 0 c d := by
    intro c hc hne
    rw [fatGetEntry_linked hv hzero hzero h.numFat hc, if_neg hne, if_neg hne]
  refine hlost.replaceEnd ?_ fun c hc => ?_
  · rw [fatGetEntry_linked hv hzero hzero h.numFat hzero, if_pos rfl]
    exact hv.eoc
  · rw [← hlist] at hc
    have hlow := (hdata c hc).1
    exact hsame c (LostEnd.inTable h hdata c (.inl hc)) (by omega)

omit hlong in
/-- INTERNAL: what is read lies in the clusters of the directory or in the one after them. -/
theorem LostEnd.entry_lt (hlost : LostEnd ctx lead last d) {i f : ℕ} {e : List Byte}
    (hread : fatDirEntry ctx junk start i d = some (f, some e)) :
    mul32 i sizeofShortDirEntry < (cs.length + 2) * ctx.bytesPClus := by
  obtain ⟨hwhole, hlength⟩ := hlost.whole h hlist hdata
  obtain ⟨off, hoff, hentry⟩ := Option.map_eq_some_iff.mp hread
  by_contra hpast
  rw [not_lt] at hpast
  have hbpc : ctx.bytesPClus ≤ (cs.length + 2) * ctx.bytesPClus :=
    Nat.le_mul_of_pos_left _ (Nat.succ_pos _)
  have hq : cs.length + 2 ≤ mul32 i sizeofShortDirEntry / ctx.bytesPClus :=
    (Nat.le_div_iff_mul_le h.bytesPClus_pos).mpr hpast
  rw [fatAbsoluteOffset, if_neg (by have := (hdata start List.mem_cons_self).1; omega),
    if_neg (by omega), fatAbsoluteOffsetLoop_chain h.bytesPClus_pos _ hwhole hlength,
    if_neg (by rw [List.length_append, List.length_singleton]; omega)] at hoff
  obtain rfl := Option.some.inj hoff
  simp at hentry

/-- INTERNAL: so a run that stores at last leaves the 0 where it is. -/
theorem fatWriteEntryLoop_lost (hchain : ∃ d₀, FatChain ctx d₀ (start :: cs))
    (hlost : LostEnd ctx lead last d) (fuel : ℕ) {i eoc : ℕ} {read : List Byte}
    (hread : ¬ entryIsFree read)
    (hrun : fatWriteEntryLoop ctx junk start entry fuel i eoc read d = some d') :
    fatGetEntry ctx 0 last d' = 0 := by
  induction fuel generalizing i eoc read d with
  | zero => cases hrun
  | succ fuel ih =>
    obtain ⟨grown, hextend, hround⟩ := Option.bind_eq_some_iff.mp hrun
    obtain ⟨next, hnext, hstep⟩ := Option.bind_eq_some_iff.mp hround
    have hlost' : LostEnd ctx lead last grown := by
      unfold fatExtendAtEnd at hextend
      split at hextend
      · exact hlost.allocate h hlong hlist hdata hextend
      · obtain rfl := Option.some.inj hextend
        exact hlost
    split at hstep
    next hfree =>
      obtain ⟨f, e⟩ := next
      cases e with
      | none => exact absurd hfree hread
      | some e =>
        obtain rfl := Option.some.inj hstep
        have hstart := hdata start List.mem_cons_self
        have hin := hlost'.entry_lt h hlist hdata hnext
        obtain ⟨d₀, hchain⟩ := hchain
        have hbytes := hchain.bytes_le
        have hvolume := h.size
        have hend := h.clusterStart_le hstart
        have hbegin : ctx.dataRegionStart ≤ clusterStart ctx start := Nat.le_add_right _ _
        have hlastData : DataCluster ctx last := hdata last (by rw [hlist]; simp)
        have hlink : fatGetEntry ctx 0 last grown = 0 := Chain.next_last hlost'
        rw [List.length_cons] at hbytes
        rw [Nat.add_mul] at hin hbytes
        rw [h.fatClusToOff_eq hstart, add32_eq (by omega)]
        rw [fatGetEntry_of_tables h.toFatLayout (fun x hx => Store.write_of_lt _ _ ?_) hlastData,
          hlink]
        by_contra hle
        exact h.not_inTables (show clusterStart ctx start ≤ x by omega) hx
    next hfree => exact ih hlost' hfree hstep

end

/-- INTERNAL: a full directory on such a volume cannot take the entry. -/
theorem not_writesWhereRead_long (h : SectorLayout ctx) (hlong : ctx.bootSector.numSectors = 0)
    (hchain : FatChain ctx d (start :: cs)) (hfull : IsFull ctx (start :: cs) d) :
    ¬ WritesWhereRead ctx junk start cs entry d := by
  obtain ⟨lead, hlist⟩ := exists_lead start cs
  generalize cs.getLastD start = last at hlist
  rintro ⟨d', found, i, hwrite, hfound, hwritten, ⟨rfl, -⟩ | ⟨new, hnew, rfl, -⟩⟩
  · exact hfull.not_written hwritten
  · obtain ⟨grown, hgrown, hlost⟩ := lostEnd_allocate h hlong hlist hchain.2 hchain
    have hcount := h.slotCount_lt (.inr ⟨rfl, hchain⟩ : DirClusters ctx d start (start :: cs))
    obtain ⟨read, hread, hrun⟩ := fatWriteEntry_full h hchain junk entry hfull hgrown
    have hloop := (hrun (fatFuel - 2 - slotCount ctx (start :: cs))
      (by unfold fatFuel; omega)).symm.trans hwrite
    have hzero := fatWriteEntryLoop_lost h hlong hlist hchain.2 ⟨d, hchain⟩ hlost _ hread hloop
    have hlink : fatGetEntry ctx 0 last d' = new := by
      have hwhole := hfound.1
      rw [hlist] at hwhole
      exact hwhole.next_last
    have hlow := (mem_freeClusters.mp hnew).1.1
    omega

/-! ## The condition -/

/-- INTERNAL: the first free entry behind the first one of a new cluster. -/
theorem exists_firstFresh (hexists : ∃ k, slotCount ctx cs < k ∧ k < slotCount ctx cs' ∧
    entryIsFree (dirSlot ctx cs' d k)) : ∃ k, FirstFresh ctx cs cs' d k := by
  classical
  obtain ⟨hbehind, hin, hfree⟩ := Nat.find_spec hexists
  refine ⟨Nat.find hexists, hbehind, hin, hfree, fun j hj hlt hfree' => ?_⟩
  exact Nat.find_min hexists hlt ⟨hj, hlt.trans hin, hfree'⟩

/-- INTERNAL: a directory has a first free entry, or none. -/
theorem firstFree_or_full (ctx : FatContext) (cs : List ℕ) (d : Disk) :
    (∃ k, FirstFree ctx cs d k) ∨ IsFull ctx cs d := by
  by_cases hfull : IsFull ctx cs d
  · exact .inr hfull
  · refine .inl (SectorLayout.exists_first_free ?_)
    unfold IsFull at hfull
    simpa using hfull

/-- INTERNAL: a run that goes past its first new cluster, and stores in a later one, has added
more than one. -/
theorem not_writesWhereRead_beyond (h : SectorLayout ctx) (hfields : FieldsFit ctx)
    (hchain : FatChain ctx d (start :: cs)) (hfull : IsFull ctx (start :: cs) d) {c : ℕ} (hc : c ∈ freeClusters ctx d)
    (hfresh : HasFresh ctx d c)
    (hnone : ¬ ∃ k, FirstFresh ctx (start :: cs) (start :: cs ++ [findFreeCluster ctx d]) d k) :
    ¬ WritesWhereRead ctx junk start cs entry d := by
  rintro ⟨d', found, i, hwrite, hfound, -, hcases⟩
  obtain ⟨grown, hgrown, hchain', hsame, htables, hstill⟩ := exists_grown h hchain hfields ⟨c, hc⟩
  have hout : ∀ x, ¬ InTables ctx x → grown x = d x := fun x hx =>
    hsame x fun hT => hx (htables x hT)
  have hne : c ≠ findFreeCluster ctx d := by
    rintro rfl
    exact hnone (exists_firstFresh (hfresh.slot h (List.cons_ne_nil start cs)))
  have hcount := h.slotCount_lt (.inr ⟨rfl, hchain⟩ : DirClusters ctx d start (start :: cs))
  obtain ⟨read, hread, hrun⟩ := fatWriteEntry_full h hchain junk entry hfull hgrown
  have hloop := (hrun (fatFuel - 2 - slotCount ctx (start :: cs))
    (by unfold fatFuel; omega)).symm.trans hwrite
  obtain ⟨more, hmore, hnil⟩ := fatWriteEntryLoop_chain h hfields _ (h.slotCount_lt_append start cs _)
    hread hchain' (.inl ⟨c, hstill c hc hne, hfresh.congr h hout⟩) hloop
  have hmany : more ≠ [] := by
    intro heq
    obtain ⟨k, hk, hlt, hfree⟩ := hnil heq
    rw [h.dirSlot_of_tables hout] at hfree
    exact hnone (exists_firstFresh ⟨k, hk, hlt, hfree⟩)
  have hlength := List.length_pos_iff.mpr hmany
  have hunique : ∀ rest, FatChain ctx d' (start :: rest) →
      rest.length = cs.length + 1 + more.length := by
    intro rest hrest
    have hsame' : rest = cs ++ [findFreeCluster ctx d] ++ more := hrest.1.unique hmore.1
    rw [hsame', List.length_append, List.length_append, List.length_singleton]
  rcases hcases with ⟨rfl, -⟩ | ⟨new, -, rfl, -⟩
  · have hshort := hunique cs hfound
    omega
  · have hshort := hunique (cs ++ [new]) hfound
    rw [List.length_append, List.length_singleton] at hshort
    omega

/-- The first free entry is stored where it is read, or the directory is full, and the first
free entry behind the first one of the cluster that is found is; nothing is found where
`long_sectors` counts the sectors. -/
def StoresWell (ctx : FatContext) (start : ℕ) (cs : List ℕ) (entry : List Byte) (d : Disk) : Prop :=
  (∃ k, FirstFree ctx (start :: cs) d k ∧
      PlacedWell ctx (start :: cs) (start :: cs) entry d (storePlace ctx start k)) ∨
    IsFull ctx (start :: cs) d ∧ ctx.bootSector.numSectors ≠ 0 ∧ (freeClusters ctx d).Nonempty ∧
      ∃ k, FirstFresh ctx (start :: cs) (start :: cs ++ [findFreeCluster ctx d]) d k ∧
        PlacedWell ctx (start :: cs) (start :: cs ++ [findFreeCluster ctx d]) entry d
          (storePlace ctx start k)

/-- The directory is full, and so is every free cluster, but for its first entry; and the scan
for more clusters leaves the tables. -/
def RunsOut (ctx : FatContext) (start : ℕ) (cs : List ℕ) (d : Disk) : Prop :=
  IsFull ctx (start :: cs) d ∧ (freeClusters ctx d).Nonempty ∧
    (∀ c ∈ freeClusters ctx d, ¬ HasFresh ctx d c) ∧ ¬ ScanFits ctx

/-- **Entries are written where they are read** if the first free one is stored in its place.
Otherwise they are not, except perhaps where the directory runs out of clusters and the scan for
more leaves the tables.
SRCLINE: fat.c:558-579 -/
theorem writesWhereRead_iff (h : SectorLayout ctx) (hchain : FatChain ctx d (start :: cs))
    (hlen : entry.length = 32) :
    (StoresWell ctx start cs entry d → WritesWhereRead ctx junk start cs entry d) ∧
      (WritesWhereRead ctx junk start cs entry d →
        StoresWell ctx start cs entry d ∨ RunsOut ctx start cs d) := by
  constructor
  · rintro (⟨k, hk, hwell⟩ | ⟨hfull, hcounts, hnonempty, k, hk, hwell⟩)
    · exact (writesWhereRead_of_free h hchain hlen hk).mpr hwell
    · exact (writesWhereRead_of_full h hchain hlen ⟨hcounts, h.widths⟩ hfull hnonempty hk).mpr
        hwell
  · intro hwrites
    rcases firstFree_or_full ctx (start :: cs) d with ⟨k, hk⟩ | hfull
    · exact .inl (.inl ⟨k, hk, (writesWhereRead_of_free h hchain hlen hk).mp hwrites⟩)
    · have hnonempty : (freeClusters ctx d).Nonempty := by
        by_contra hnone
        exact not_writesWhereRead_of_full hfull hnone hwrites
      have hcounts : ctx.bootSector.numSectors ≠ 0 := fun hlong =>
        not_writesWhereRead_long h hlong hchain hfull hwrites
      by_cases hfresh : ∃ k,
          FirstFresh ctx (start :: cs) (start :: cs ++ [findFreeCluster ctx d]) d k
      · obtain ⟨k, hk⟩ := hfresh
        exact .inl (.inr ⟨hfull, hcounts, hnonempty, k, hk,
          (writesWhereRead_of_full h hchain hlen ⟨hcounts, h.widths⟩ hfull hnonempty hk).mp
            hwrites⟩)
      · have hnone : ∀ c ∈ freeClusters ctx d, ¬ HasFresh ctx d c := fun c hc hslot =>
          not_writesWhereRead_beyond h ⟨hcounts, h.widths⟩ hchain hfull hc hslot hfresh hwrites
        exact .inr ⟨hfull, hnonempty, hnone, fun hscan =>
          not_writesWhereRead_of_nothingFresh h hscan hchain hlen hfull hnone hwrites⟩

theorem writesWhereRead_floppy :
    (StoresWell floppy 2 [] zeroEntry oneCluster →
      WritesWhereRead floppy ⟨1, []⟩ 2 [] zeroEntry oneCluster) ∧
      (WritesWhereRead floppy ⟨1, []⟩ 2 [] zeroEntry oneCluster →
        StoresWell floppy 2 [] zeroEntry oneCluster ∨ RunsOut floppy 2 [] oneCluster) :=
  writesWhereRead_iff floppy_sectorLayout oneCluster_chain rfl

/-! A directory of the clusters 2 and 4, of which the first is full. -/

def apartClusters : Disk := fun x =>
  match x with
  | 515 => 0x04
  | 518 => 0xFF
  | 519 => 0x0F
  | x => if 16896 ≤ x ∧ x < 17408 then 0x41 else 0

theorem apartClusters_chain : FatChain floppy apartClusters [2, 4] := by
  refine ⟨⟨by decide, by decide, ?_⟩, fun c hc => ?_⟩
  · show fatIsEoc floppy (fatGetEntry floppy 0 4 apartClusters) = true
    decide
  · obtain rfl | rfl : c = 2 ∨ c = 4 := by simpa using hc
    · exact floppy_dataCluster (by decide) (by decide)
    · exact floppy_dataCluster (by decide) (by decide)

/-- INTERNAL: the entries of the second cluster. -/
theorem apartClusters_head {k : ℕ} (hlow : 16 ≤ k) (hhigh : k < 32) :
    slotStart floppy [2, 4] k = 17408 + k * 32 ∧
      (dirSlot floppy [2, 4] apartClusters k).head? = some 0 := by
  have hstart : slotStart floppy [2, 4] k = 17408 + k * 32 := by
    unfold slotStart clusterStart sizeofShortDirEntry
    rw [if_neg (List.cons_ne_nil _ _), show floppy.bytesPClus = 512 from rfl,
      show k * 32 / 512 = 1 by omega]
    show 16896 + 2 * 512 + k * 32 % 512 = _
    omega
  refine ⟨hstart, ?_⟩
  rw [head?_dirSlot, hstart]
  unfold apartClusters
  split <;> first | omega | skip
  rw [if_neg (by omega)]

/-- INTERNAL: the entries of the first cluster. -/
theorem apartClusters_taken {k : ℕ} (hk : k < 16) :
    ¬ entryIsFree (dirSlot floppy [2, 4] apartClusters k) := by
  have hstart : slotStart floppy [2, 4] k = 16896 + k * 32 := by
    unfold slotStart clusterStart sizeofShortDirEntry
    rw [if_neg (List.cons_ne_nil _ _), show floppy.bytesPClus = 512 from rfl,
      show k * 32 / 512 = 0 by omega]
    show 16896 + 0 * 512 + k * 32 % 512 = _
    omega
  have hhead : (dirSlot floppy [2, 4] apartClusters k).head? = some 0x41 := by
    rw [head?_dirSlot, hstart]
    unfold apartClusters
    split <;> first | omega | skip
    rw [if_pos (by omega)]
  rw [entryIsFree, hhead]
  decide

/-- The entry goes to cluster 3, which is not part of the directory. -/
theorem apartClusters_misplaced :
    SectorLayout floppy ∧ FatChain floppy apartClusters [2, 4] ∧
      ¬ WritesWhereRead floppy ⟨1, []⟩ 2 [4] (List.replicate 32 0x42) apartClusters := by
  refine ⟨floppy_sectorLayout, apartClusters_chain, fun hwrites => ?_⟩
  have hfree : ∀ k, 16 ≤ k → k < 32 → entryIsFree (dirSlot floppy [2, 4] apartClusters k) := by
    intro k hlow hhigh
    rw [entryIsFree, (apartClusters_head hlow hhigh).2]
    rfl
  have hfirst : FirstFree floppy [2, 4] apartClusters 16 :=
    ⟨by decide, hfree 16 le_rfl (by decide), fun j hj => apartClusters_taken hj⟩
  obtain ⟨i, hi, hfreeSlot, hplace, -⟩ := (writesWhereRead_of_free floppy_sectorLayout
    apartClusters_chain List.length_replicate hfirst).mp hwrites
  have hi' : i < 32 := hi
  have hlow : 16 ≤ i := by
    by_contra hlt
    rcases hfreeSlot with hbeyond | hfreeSlot
    · exact absurd hi (Nat.not_lt.mpr hbeyond)
    · exact apartClusters_taken (by omega) hfreeSlot
  obtain ⟨hstart, hhead⟩ := apartClusters_head hlow hi'
  rcases hplace with haddr | ⟨hslot, -⟩
  · rw [hstart, show storePlace floppy 2 16 = 17408 from rfl] at haddr
    omega
  · rw [hslot] at hhead
    exact absurd hhead (by decide)

end LakeOS.Analysis
