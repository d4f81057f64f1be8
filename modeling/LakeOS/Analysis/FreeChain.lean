import LakeOS.Analysis.DirSlots

/-!
# Freeing a chain

`FAT_free_cluster_chain` sets the entries of a chain to free, and after them the entry of
the number that marks its end.  No cluster has that number; its entry may lie behind the
table.
-/

set_option autoImplicit false

namespace LakeOS.Analysis

open LakeOS.Library LakeOS.Model

variable {ctx : FatContext} {d d' : Disk} {c mark : ℕ} {cs : List ℕ}

/-- The bytes that setting the entry of a number writes. -/
def EntryByte (ctx : FatContext) (c x : ℕ) : Prop :=
  ∃ i < ctx.bootSector.numFat, fatEntryOffset ctx i c ≤ x ∧ x < fatEntryOffset ctx i c + 2

/-- INTERNAL: **setting any entry** writes its bytes only. -/
theorem fatSetEntries_other (h : FatLayout ctx) (c v : ℕ) (d : Disk) {x : ℕ}
    (hx : ¬ EntryByte ctx c x) : fatSetEntries ctx c v d x = d x := by
  have hrun : ∀ (is : List ℕ) (d : Disk), (∀ i ∈ is, i < ctx.bootSector.numFat) →
      is.foldl (fun d i => (fatSetEntry ctx i c v d).2) d x = d x := by
    intro is
    induction is with
    | nil => exact fun _ _ => rfl
    | cons i is ih =>
        intro d his
        obtain ⟨w, hw⟩ := fatSetEntry_writes h i c v d
        rw [List.foldl_cons, ih _ fun j hj => his j (List.mem_cons_of_mem i hj), hw,
          Store.save_of_notMem]
        by_contra hin
        exact hx ⟨i, his i List.mem_cons_self, by omega, by omega⟩
  exact hrun _ d fun i hi => List.mem_range.mp hi

/-- INTERNAL: the entry of an end mark lies behind those of all clusters. -/
theorem SectorLayout.mark_behind (h : SectorLayout ctx) (hmark : fatIsEoc ctx mark)
    (hlt : mark < 2 ^ 16) (hc : DataCluster ctx c) {x : ℕ} (hx : EntryByte ctx mark x) :
    fatStart ctx + entryStart ctx c + 2 ≤ x := by
  obtain ⟨i, hi, hle, -⟩ := hx
  have hvolume := (h.tables.trans h.data).trans_lt h.size
  have htable := FatLayout.table_le hi
  have hend := hc.2
  have hstart : entryStart ctx mark < 2 ^ 17 ∧ entryStart ctx c + 2 ≤ entryStart ctx mark := by
    unfold fatIsEoc at hmark
    unfold entryStart
    obtain ⟨htype, hcount⟩ | ⟨htype, hcount⟩ := h.type
    · rw [htype] at hmark ⊢
      have hge := of_decide_eq_true hmark
      dsimp only
      omega
    · rw [htype] at hmark ⊢
      have hge := of_decide_eq_true hmark
      dsimp only
      omega
  rw [h.fatEntryOffset_of_lt (by omega)] at hle
  omega

/-- Setting the entry of an end mark changes the entry of no cluster. -/
theorem fatGetEntry_setMark (h : SectorLayout ctx) (hmark : fatIsEoc ctx mark)
    (hlt : mark < 2 ^ 16) (hc : DataCluster ctx c) (v : ℕ) (d : Disk) :
    fatGetEntry ctx 0 c (fatSetEntries ctx mark v d) = fatGetEntry ctx 0 c d := by
  refine fatGetEntry_congr h.toFatLayout (h.inTable hc) fun x _ hx => ?_
  refine fatSetEntries_other h.toFatLayout mark v d fun hin => ?_
  have hbehind := h.mark_behind hmark hlt hc hin
  omega

theorem fatGetEntry_lt (h : FatLayout ctx) (c : ℕ) (d : Disk) :
    fatGetEntry ctx 0 c d < 2 ^ 16 := by
  have hload := Store.load_lt d 2 (fatEntryOffset ctx 0 c)
  unfold fatGetEntry
  obtain ⟨htype, -⟩ | ⟨htype, -⟩ := h.type
  · rw [htype]
    dsimp only
    split
    next => exact (Nat.shiftRight_le _ 4).trans_lt hload
    next => exact Nat.and_le_left.trans_lt hload
  · rw [htype]
    exact hload

/-- A chain whose entries stay is a chain. -/
theorem FatChain.congr (hchain : FatChain ctx d cs)
    (hsame : ∀ c ∈ cs, fatGetEntry ctx 0 c d' = fatGetEntry ctx 0 c d) : FatChain ctx d' cs :=
  ⟨hchain.1.congr hsame, hchain.2⟩

/-- **A chain is freed.**  All its entries become free, no other one changes, and outside the
tables only the bytes of the end mark's entry are written.
SRCLINE: fat.c:688-699 -/
theorem fatFreeClusterChain_spec (h : SectorLayout ctx) {fuel : ℕ}
    (hchain : FatChain ctx d (c :: cs)) (hfuel : (c :: cs).length < fuel) :
    ∃ d', fatFreeClusterChain ctx fuel c d = some d' ∧
      (∀ e, DataCluster ctx e →
        fatGetEntry ctx 0 e d' = if e ∈ c :: cs then 0 else fatGetEntry ctx 0 e d) ∧
      ∀ x, ¬ InTables ctx x →
        ¬ EntryByte ctx (fatGetEntry ctx 0 ((c :: cs).getLast (List.cons_ne_nil c cs)) d) x →
        d' x = d x := by
  induction cs generalizing c d fuel with
  | nil =>
      obtain ⟨fuel, rfl⟩ := Nat.exists_eq_add_of_le' (show 2 ≤ fuel from hfuel)
      have hc := hchain.2 c List.mem_cons_self
      have hmark : fatIsEoc ctx (fatGetEntry ctx 0 c d) := hchain.1
      have hlt := fatGetEntry_lt h.toFatLayout c d
      obtain ⟨hset, hout⟩ := fatSetEntries_spec h.toFatLayout (h.inTable hc) 0 d
      refine ⟨fatSetEntries ctx (fatGetEntry ctx 0 c d) 0 (fatSetEntries ctx c 0 d), ?_,
        fun e he => ?_, fun x hx hbyte => ?_⟩
      · rw [fatFreeClusterChain, if_neg (by rw [(h.dataCluster_value hc).2]; decide)]
        exact if_pos hmark
      · rw [fatGetEntry_setMark h hmark hlt he, hset e (h.inTable he), Nat.zero_mod]
        simp only [List.mem_singleton]
      · rw [List.getLast_singleton] at hbyte
        rw [fatSetEntries_other h.toFatLayout _ _ _ hbyte, hout x hx]
  | cons b cs ih =>
      obtain ⟨fuel, rfl⟩ := Nat.exists_eq_add_of_le' (show 1 ≤ fuel by omega)
      have hc := hchain.2 c List.mem_cons_self
      obtain ⟨hnext, -, hrest⟩ := hchain.1
      have hnext' : fatGetEntry ctx 0 c d = b := hnext
      have hnotin : c ∉ b :: cs := (List.nodup_cons.mp hchain.1.nodup).1
      obtain ⟨hset, hout⟩ := fatSetEntries_spec h.toFatLayout (h.inTable hc) 0 d
      have hsame : ∀ e ∈ b :: cs,
          fatGetEntry ctx 0 e (fatSetEntries ctx c 0 d) = fatGetEntry ctx 0 e d := by
        intro e he
        rw [hset e (h.inTable (hchain.2 e (List.mem_cons_of_mem c he))),
          if_neg (fun heq : e = c => hnotin (heq ▸ he))]
      have htail : FatChain ctx d (b :: cs) :=
        ⟨hrest, fun e he => hchain.2 e (List.mem_cons_of_mem c he)⟩
      have hlast := List.getLast_mem (List.cons_ne_nil b cs)
      rw [List.length_cons] at hfuel
      obtain ⟨d', hfree, hentries, hbytes⟩ := ih (htail.congr hsame) (Nat.lt_of_succ_lt_succ hfuel)
      refine ⟨d', ?_, fun e he => ?_, fun x hx hbyte => ?_⟩
      · rw [fatFreeClusterChain, if_neg (by rw [(h.dataCluster_value hc).2]; decide), hnext']
        exact hfree
      · rw [hentries e he, hset e (h.inTable he), Nat.zero_mod]
        by_cases heq : e = c
        · simp [heq]
        · simp [heq]
      · rw [List.getLast_cons (List.cons_ne_nil b cs)] at hbyte
        rw [hsame _ hlast] at hbytes
        rw [hbytes x hx hbyte, hout x hx]

end LakeOS.Analysis
