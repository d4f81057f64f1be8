import LakeOS.Analysis.ChainFreeing

/-!
# Chains that grow

`FAT_allocate_cluster` sets the entry of the last cluster to the number that `FindFreeCluster`
gives, and the entry of that number to an end mark.  The scan is bounded by the number of
sectors times the sectors of a cluster, and `0` stands for nothing found: the chain then ends
in the entry `0`, which no reader takes for an end.
-/

set_option autoImplicit false

namespace LakeOS.Analysis

open LakeOS.Library LakeOS.Model

variable {ctx : FatContext} {n k c e i last m new : ℕ} {cs : List ℕ} {d d' : Disk}

/-! ## The scan -/

/-- A data cluster of the volume that is free. -/
def FreeCluster (ctx : FatContext) (n : ℕ) (d : Disk) (e : ℕ) : Prop :=
  2 ≤ e ∧ e < n + 2 ∧ fatGetEntry ctx 0 e d = 0

/-- INTERNAL: a free data cluster within the scan is found, or one before it. -/
theorem findFreeCluster_free (hfree : FreeCluster ctx n d e) (hlt : e < scanLimit ctx) :
    FreeCluster ctx n d (findFreeCluster ctx d) := by
  obtain ⟨hlow, hle, hzero⟩ := findFreeCluster_le hfree.1 hlt hfree.2.2
  exact ⟨hlow, hle.trans_lt hfree.2.1, hzero⟩

/-- INTERNAL: what is found beyond the data clusters is found because none is free. -/
theorem findFreeCluster_eq_zero (hfree : FreeCluster ctx n d e)
    (hnone : ∀ e, FreeCluster ctx n d e → scanLimit ctx ≤ e) : findFreeCluster ctx d = 0 := by
  rcases findFreeCluster_cases ctx d with ⟨hzero, -⟩ | ⟨hfirst, hlt, hentry, -⟩
  · exact hzero
  · have hge := hnone e hfree
    have hlast := hfree.2.1
    have := hnone _ ⟨hfirst, by omega, hentry⟩
    omega

/-! ## The entries that are set -/

/-- INTERNAL: the last cluster of a chain is found. -/
theorem fatAllocateCluster_eq (h : FatVolume ctx n) (hchain : VolumeChain ctx n d (c :: cs)) :
    fatAllocateCluster ctx c d =
      some (linked ctx (cs.getLastD c) (findFreeCluster ctx d) d) := by
  apply fatAllocateCluster_linked hchain.1
  have hlt := h.chain_lt_fuel hchain
  omega

/-- INTERNAL: the entries of the tables, where the new number has one in them. -/
theorem fatGetEntry_linked (h : FatVolume ctx n) (hlast : InTable ctx last)
    (hnew : InTable ctx new) (hk : k < ctx.bootSector.numFat) (he : InTable ctx e) :
    fatGetEntry ctx k e (linked ctx last new d) =
      if e = new then 0xFFFFFFFF % entryModulus ctx
      else if e = last then new % entryModulus ctx else fatGetEntry ctx k e d := by
  rw [linked, h.fatGetEntry_setEntries hk hnew he, h.fatGetEntry_setEntries hk hlast he]

/-- INTERNAL: an entry of a table that is set is its digits. -/
theorem FatTables.nibble_setEntries_copy (h : FatTables ctx) (hk : k < ctx.bootSector.numFat)
    (hc : InTable ctx c) (he : InTable ctx e) (hm : CopyNibble ctx k e m) (v : ℕ) (d : Disk) :
    (fatSetEntries ctx c v d).nibble m =
      if e = c then hexDigit v (m - nibbleStart ctx k c) else d.nibble m := by
  have hbyte : copyStart ctx k ≤ m / 2 ∧ m / 2 < copyStart ctx k + fatBytes ctx := by
    have hstart := h.nibbleStart_eq hk he
    have hend := h.nibbles_le he
    unfold CopyNibble at hm
    omega
  have hsame : (fatSetEntries ctx c v d) (m / 2) = (fatSetEntry ctx k c v d).2 (m / 2) :=
    h.fatSetEntries_copy hc v d hk hbyte.1 hbyte.2
  rw [Store.nibble_congr hsame, nibble_setEntry h.type]
  by_cases heq : e = c
  · rw [if_pos (heq ▸ hm), if_pos heq]
  · rw [if_neg (fun hm' => heq (h.nibble_apart hk hk he hc hm hm').2), if_neg heq]

/-- INTERNAL: the nibbles of the tables, wherever the new number has its entry. -/
theorem nibble_linked (h : FatTables ctx) (hlast : InTable ctx last)
    (hk : k < ctx.bootSector.numFat) (he : InTable ctx e) (hm : CopyNibble ctx k e m) :
    (linked ctx last i d).nibble m =
      if EntryNibble ctx i m then 15
      else if e = last then hexDigit i (m - nibbleStart ctx k last) else d.nibble m := by
  rw [linked, nibble_setEntries_ones h.type, h.nibble_setEntries_copy hk hlast he hm]

/-- INTERNAL: an entry is the same exactly if its nibbles are. -/
theorem fatGetEntry_eq_iff (htype : ctx.type = .fat12 ∨ ctx.type = .fat16) (k c : ℕ)
    (d d' : Disk) : fatGetEntry ctx k c d' = fatGetEntry ctx k c d ↔
      ∀ m, CopyNibble ctx k c m → d'.nibble m = d.nibble m := by
  constructor
  · intro hsame m hm
    rw [fatGetEntry_eq_nibbles htype, fatGetEntry_eq_nibbles htype] at hsame
    have hlt := Store.nibble_lt d
    have hlt' := Store.nibble_lt d'
    unfold CopyNibble at hm
    generalize nibbleStart ctx k c = s at *
    have h₀ := hlt s
    have h₁ := hlt (s + 1)
    have h₂ := hlt (s + 2)
    have h₃ := hlt (s + 3)
    have h₀' := hlt' s
    have h₁' := hlt' (s + 1)
    have h₂' := hlt' (s + 2)
    have h₃' := hlt' (s + 3)
    have hlen : entryNibbles ctx = 3 ∨ entryNibbles ctx = 4 := by
      unfold entryNibbles
      split <;> omega
    obtain ⟨j, rfl⟩ : ∃ j, m = s + j := ⟨m - s, by omega⟩
    rcases hlen with hlen | hlen
    · rw [hlen] at hsame hm
      simp only [show (3 : ℕ) ≠ 4 by decide, if_false] at hsame
      obtain rfl | rfl | rfl : j = 0 ∨ j = 1 ∨ j = 2 := by omega
      · rw [Nat.add_zero]
        omega
      · omega
      · omega
    · rw [hlen] at hsame hm
      simp only [if_true] at hsame
      obtain rfl | rfl | rfl | rfl : j = 0 ∨ j = 1 ∨ j = 2 ∨ j = 3 := by omega
      · rw [Nat.add_zero]
        omega
      · omega
      · omega
      · omega
  · exact fatGetEntry_congr_nibbles htype

/-! ## Growing -/

/-- A free data cluster is appended to the chain, and no other entry of any copy of the tables
changes; if none is free, no entry changes at all and the chain ends as it did. -/
def GrowsChain (ctx : FatContext) (n c : ℕ) (cs : List ℕ) (d : Disk) : Prop :=
  ∃ d', fatAllocateCluster ctx c d = some d' ∧
    ((∃ e, FreeCluster ctx n d e) → ∃ new, FreeCluster ctx n d new ∧
      VolumeChain ctx n d' (c :: cs ++ [new]) ∧
      ∀ k < ctx.bootSector.numFat, ∀ e, InTable ctx e → e ≠ cs.getLastD c → e ≠ new →
        fatGetEntry ctx k e d' = fatGetEntry ctx k e d) ∧
    ((∀ e, ¬ FreeCluster ctx n d e) → VolumeChain ctx n d' (c :: cs) ∧
      ∀ k < ctx.bootSector.numFat, ∀ e, InTable ctx e →
        fatGetEntry ctx k e d' = fatGetEntry ctx k e d)

/-- The last cluster's entries hold the number `i` already, and the entry of `i`, which lies
beyond the tables, has only ones where it lies over an entry of them. -/
def LinkedAlready (ctx : FatContext) (last i : ℕ) (d : Disk) : Prop :=
  ∀ k < ctx.bootSector.numFat, ∀ e, InTable ctx e → ∀ m, CopyNibble ctx k e m →
    d.nibble m = if EntryNibble ctx i m then 15
      else if e = last then hexDigit i (m - nibbleStart ctx k last) else d.nibble m

/-- A free data cluster lies within the scan.  Or no data cluster is free, but a number behind
the data clusters has an entry `0`, and linking it to the chain would change nothing. -/
def CanGrow (ctx : FatContext) (n c : ℕ) (cs : List ℕ) (d : Disk) : Prop :=
  (∃ e, FreeCluster ctx n d e ∧ e < scanLimit ctx) ∨
    (∀ e, ¬ FreeCluster ctx n d e) ∧ findFreeCluster ctx d ≠ 0 ∧
      LinkedAlready ctx (cs.getLastD c) (findFreeCluster ctx d) d

namespace VolumeChain

/-- INTERNAL: the last cluster of a chain. -/
theorem at_last (hchain : VolumeChain ctx n d (c :: cs)) :
    (2 ≤ cs.getLastD c ∧ cs.getLastD c < n + 2) ∧
      fatIsEoc ctx (fatGetEntry ctx 0 (cs.getLastD c) d) := by
  obtain ⟨lead, hlist⟩ := exists_lead c cs
  refine ⟨hchain.2 _ List.getLastD_mem_cons, ?_⟩
  have hlinks := hchain.1
  rw [hlist] at hlinks
  exact hlinks.suffix

/-- INTERNAL: the clusters of a chain are not free. -/
theorem ne_zero (h : FatVolume ctx n) (hchain : VolumeChain ctx n d cs) :
    ∀ e ∈ cs, fatGetEntry ctx 0 e d ≠ 0 := by
  refine hchain.1.next_ne ?_ fun hzero => absurd (hchain.2 0 hzero).1 (by decide)
  rw [h.not_eoc (by omega)]
  exact Bool.false_ne_true

/-- INTERNAL: a free data cluster that is found is appended. -/
theorem link (h : FatVolume ctx n) (hchain : VolumeChain ctx n d (c :: cs))
    (hnew : FreeCluster ctx n d new) :
    VolumeChain ctx n (linked ctx (cs.getLastD c) new d) (c :: cs ++ [new]) := by
  have hlast := hchain.at_last.1
  have hnot : new ∉ c :: cs := fun hmem => hchain.ne_zero h new hmem hnew.2.2
  have hin : ∀ e ∈ c :: cs ++ [new], 2 ≤ e ∧ e < n + 2 := by
    intro e he
    rcases List.mem_append.mp he with he | he
    · exact hchain.2 e he
    · exact List.mem_singleton.mp he ▸ ⟨hnew.1, hnew.2.1⟩
  refine ⟨?_, hin⟩
  have hlinks := hchain.1
  obtain ⟨lead, hlist⟩ := exists_lead c cs
  generalize cs.getLastD c = last at *
  rw [hlist] at hlinks hin hnot ⊢
  refine hlinks.link ?_ hnot h.eoc fun e he => ?_
  · rw [h.not_eoc hnew.2.1]
    exact Bool.false_ne_true
  · rw [fatGetEntry_linked h (h.holds last hlast.2) (h.holds new hnew.2.1) h.numFat
      (h.holds e (hin e he).2), h.mod_eq hnew.2.1]

end VolumeChain

/-- INTERNAL: if the scan finds nothing, the chain ends in `0`. -/
theorem GrowsChain.found (h : FatVolume ctx n) (hchain : VolumeChain ctx n d (c :: cs))
    (hgrows : GrowsChain ctx n c cs d) : findFreeCluster ctx d ≠ 0 := by
  intro hzero
  obtain ⟨hlast, heoc⟩ := hchain.at_last
  obtain ⟨d', hrun, hfree, hnone⟩ := hgrows
  rw [fatAllocateCluster_eq h hchain, hzero] at hrun
  cases hrun
  have hlink : fatGetEntry ctx 0 (cs.getLastD c) (linked ctx (cs.getLastD c) 0 d) = 0 := by
    rw [fatGetEntry_linked h (h.holds _ hlast.2) (h.holds 0 (by omega)) h.numFat
      (h.holds _ hlast.2), if_neg (by omega), if_pos rfl, Nat.zero_mod]
  by_cases hsome : ∃ e, FreeCluster ctx n d e
  · obtain ⟨new, hnew, hchain', -⟩ := hfree hsome
    obtain ⟨lead, hlist⟩ := exists_lead c cs
    have hlinks := hchain'.1
    rw [hlist, List.append_assoc] at hlinks
    have hnext : fatGetEntry ctx 0 (cs.getLastD c) (linked ctx (cs.getLastD c) 0 d) = new :=
      hlinks.suffix.1
    have hlow := hnew.1
    omega
  · obtain ⟨-, hsame⟩ := hnone (fun e he => hsome ⟨e, he⟩)
    rw [← hsame 0 h.numFat _ (h.holds _ hlast.2), hlink, h.not_eoc (by omega)] at heoc
    exact absurd heoc (by decide)

/-- INTERNAL: with a free data cluster in the scan, the chain grows. -/
theorem growsChain_of_free (h : FatVolume ctx n) (hchain : VolumeChain ctx n d (c :: cs))
    (hfree : FreeCluster ctx n d e) (hlt : e < scanLimit ctx) : GrowsChain ctx n c cs d := by
  have hnew := findFreeCluster_free hfree hlt
  have hlast := hchain.at_last.1
  refine ⟨_, fatAllocateCluster_eq h hchain, fun _ => ⟨_, hnew, hchain.link h hnew, ?_⟩,
    fun hnone => absurd hfree (hnone e)⟩
  intro k hk e' he' hneLast hneNew
  rw [fatGetEntry_linked h (h.holds _ hlast.2) (h.holds _ hnew.2.1) hk he', if_neg hneNew,
    if_neg hneLast]

/-- INTERNAL: without one, the chain and the tables stay exactly if the link is there. -/
theorem growsChain_full (h : FatVolume ctx n) (hchain : VolumeChain ctx n d (c :: cs))
    (hnone : ∀ e, ¬ FreeCluster ctx n d e) : GrowsChain ctx n c cs d ↔
      LinkedAlready ctx (cs.getLastD c) (findFreeCluster ctx d) d := by
  have hlast := hchain.at_last.1
  have hrun := fatAllocateCluster_eq h hchain
  have hentries : (∀ k < ctx.bootSector.numFat, ∀ e, InTable ctx e →
      fatGetEntry ctx k e (linked ctx (cs.getLastD c) (findFreeCluster ctx d) d) =
        fatGetEntry ctx k e d) ↔
      LinkedAlready ctx (cs.getLastD c) (findFreeCluster ctx d) d := by
    refine forall_congr' fun k => forall_congr' fun hk => forall_congr' fun e =>
      forall_congr' fun he => ?_
    rw [fatGetEntry_eq_iff h.type]
    refine forall_congr' fun m => forall_congr' fun hm => ?_
    rw [nibble_linked h.toFatTables (h.holds _ hlast.2) hk he hm, eq_comm]
  rw [← hentries]
  constructor
  · rintro ⟨d', hrun', -, hstays⟩
    cases hrun.symm.trans hrun'
    exact (hstays hnone).2
  · intro hsame
    refine ⟨_, hrun, fun hsome => ?_, fun _ => ⟨⟨?_, hchain.2⟩, hsame⟩⟩
    · obtain ⟨e, he⟩ := hsome
      exact absurd he (hnone e)
    · exact hchain.1.congr fun e he => hsame 0 h.numFat e (h.holds e (hchain.2 e he).2)

/-- **A chain grows by one free data cluster** exactly if there is one within the scan; on a
full volume nothing may be found, and nothing that would change an entry.
SRCLINE: fat.c:724-736 -/
theorem growsChain_iff (h : FatVolume ctx n) (hchain : VolumeChain ctx n d (c :: cs)) :
    GrowsChain ctx n c cs d ↔ CanGrow ctx n c cs d := by
  constructor
  · intro hgrows
    by_cases hsome : ∃ e, FreeCluster ctx n d e ∧ e < scanLimit ctx
    · exact .inl hsome
    · have hfound := hgrows.found h hchain
      have hnone : ∀ e, ¬ FreeCluster ctx n d e := by
        intro e he
        apply hfound
        apply findFreeCluster_eq_zero he
        intro e' he'
        by_contra hlt
        exact hsome ⟨e', he', by omega⟩
      exact .inr ⟨hnone, hfound, (growsChain_full h hchain hnone).mp hgrows⟩
  · rintro (⟨e, hfree, hlt⟩ | ⟨hnone, -, hlinked⟩)
    · exact growsChain_of_free h hchain hfree hlt
    · exact (growsChain_full h hchain hnone).mpr hlinked

theorem growsChain_floppy : GrowsChain floppy (dataClusters floppy) 2 [] oneCluster ↔
    CanGrow floppy (dataClusters floppy) 2 [] oneCluster :=
  growsChain_iff floppy_layout.toFatVolume oneCluster_volumeChain

/-- A disk whose entries are all taken. -/
def allOnes : Disk := fun _ => 0xFF

/-- INTERNAL: every entry is an end mark there. -/
theorem fatGetEntry_allOnes (c : ℕ) : fatGetEntry floppy 0 c allOnes = 0xFFF := by
  have hnibble : ∀ m, allOnes.nibble m = 15 := by
    intro m
    have hbyte : (allOnes (m / 2)).toNat = 255 := rfl
    unfold Store.nibble hexDigit
    rw [hbyte]
    rcases Nat.mod_two_eq_zero_or_one m with hm | hm
    · simp [hm]
    · simp [hm]
  rw [fatGetEntry_eq_nibbles (.inl rfl), hnibble, hnibble, hnibble]
  rfl

/-- On a full volume the chain ends in a free entry afterwards. -/
theorem allOnes_breaks : VolumeChain floppy (dataClusters floppy) allOnes [2] ∧
    (∀ e, ¬ FreeCluster floppy (dataClusters floppy) allOnes e) ∧
      ¬ GrowsChain floppy (dataClusters floppy) 2 [] allOnes := by
  have hchain : VolumeChain floppy (dataClusters floppy) allOnes [2] := by
    refine ⟨?_, fun c hc => ?_⟩
    · show fatIsEoc floppy (fatGetEntry floppy 0 2 allOnes) = true
      rw [fatGetEntry_allOnes]
      rfl
    · rw [List.mem_singleton.mp hc]
      decide
  refine ⟨hchain, fun e he => ?_, fun hgrows => ?_⟩
  · have hzero := he.2.2
    rw [fatGetEntry_allOnes] at hzero
    cases hzero
  · rcases findFreeCluster_cases floppy allOnes with ⟨hzero, -⟩ | ⟨-, -, hentry, -⟩
    · exact hgrows.found floppy_layout.toFatVolume hchain hzero
    · rw [fatGetEntry_allOnes] at hentry
      cases hentry

end LakeOS.Analysis
