import LakeOS.Analysis.FatTable

/-!
# The copies of a file allocation table

The copies of a table follow each other.  `FAT_set_entries` writes the entry of a cluster
in each of them, so what happens to one copy is what `FAT_set_entry` does to it alone; the
statements about entries follow from that, copy by copy.
-/

set_option autoImplicit false

namespace LakeOS.Analysis

open LakeOS.Library LakeOS.Model

variable {ctx : FatContext} {i k c c' v : ℕ} {d : Disk}

/-- The tables of a FAT12 or FAT16 volume lie in the address space of the device.
SRCLINE: fat.h:337-341 -/
structure FatTables (ctx : FatContext) : Prop where
  type : ctx.type = .fat12 ∨ ctx.type = .fat16
  tables : fatStart ctx + ctx.bootSector.numFat * fatBytes ctx ≤ 2 ^ 32

/-- The address of copy `i`. -/
def copyStart (ctx : FatContext) (i : ℕ) : ℕ := fatStart ctx + i * fatBytes ctx

/-- A byte of the entry of `c` in copy `i`. -/
def CopyByte (ctx : FatContext) (i c x : ℕ) : Prop :=
  copyStart ctx i + entryStart ctx c ≤ x ∧ x < copyStart ctx i + entryStart ctx c + 2

/-- All copies are equal to the first. -/
def CopiesEqual (ctx : FatContext) (d : Disk) : Prop :=
  ∀ i < ctx.bootSector.numFat, ∀ j < fatBytes ctx, d (copyStart ctx i + j) = d (copyStart ctx 0 + j)

/-- The word that `FAT_set_entry` writes over the word `entry`. -/
def entryWord (ctx : FatContext) (c v entry : ℕ) : ℕ :=
  match ctx.type with
  | .fat12 => fat12Word c v entry
  | _ => v

/-- INTERNAL: a copy ends where the next one starts. -/
theorem copyStart_succ (ctx : FatContext) (i : ℕ) :
    copyStart ctx (i + 1) = copyStart ctx i + fatBytes ctx := by
  unfold copyStart
  rw [Nat.succ_mul, Nat.add_assoc]

theorem copyStart_le (ctx : FatContext) (h : i < k) :
    copyStart ctx i + fatBytes ctx ≤ copyStart ctx k := by
  rw [← copyStart_succ]
  unfold copyStart
  exact Nat.add_le_add_left (Nat.mul_le_mul_right (fatBytes ctx) h) (fatStart ctx)

/-- INTERNAL: an entry lies in its copy. -/
theorem CopyByte.in_copy {x : ℕ} (hx : CopyByte ctx k c x) (hc : InTable ctx c) :
    copyStart ctx k ≤ x ∧ x < copyStart ctx k + fatBytes ctx := by
  unfold CopyByte InTable at *
  omega

namespace FatTables

/-- INTERNAL: the address of an entry of a copy. -/
theorem fatEntryOffset_eq (h : FatTables ctx) (hi : i < ctx.bootSector.numFat)
    (hc : InTable ctx c) : fatEntryOffset ctx i c = copyStart ctx i + entryStart ctx c := by
  have hend := copyStart_le ctx hi
  have htables : copyStart ctx ctx.bootSector.numFat ≤ 2 ^ 32 := h.tables
  unfold InTable at hc
  have hspf : sectorsPerFat ctx = ctx.bootSector.sectorsPerFat := by
    apply if_pos
    intro hzero
    rw [fatBytes, hzero, Nat.zero_mul] at hc
    omega
  have hoffset : fatGetOffset ctx c = entryStart ctx c := by
    unfold fatGetOffset
    obtain htype | htype := h.type
    · have hentry : entryStart ctx c = c + c / 2 := by
        simp only [entryStart, htype]
      rw [htype, hentry]
      exact add32_eq (by omega)
    · have hentry : entryStart ctx c = c * 2 := by
        simp only [entryStart, htype]
      rw [htype, hentry]
      exact mul32_eq (by omega)
  unfold copyStart fatBytes at *
  rw [fatEntryOffset_eq_of_lt hoffset (by rw [hspf]; omega), hspf]

/-- INTERNAL: `FAT_set_entry` writes the two bytes of the entry.
SRCLINE: fat.c:69-118 -/
theorem fatSetEntry_eq (h : FatTables ctx) (hi : i < ctx.bootSector.numFat) (hc : InTable ctx c)
    (v : ℕ) (d : Disk) :
    (fatSetEntry ctx i c v d).2 = d.save 2 (copyStart ctx i + entryStart ctx c)
      (entryWord ctx c v (d.load 2 (copyStart ctx i + entryStart ctx c))) := by
  rw [← h.fatEntryOffset_eq hi hc]
  unfold fatSetEntry entryWord
  obtain htype | htype := h.type
  · rw [htype]
  · rw [htype]

/-- INTERNAL: bytes that are not of the entry stay. -/
theorem fatSetEntry_of_not (h : FatTables ctx) (hi : i < ctx.bootSector.numFat)
    (hc : InTable ctx c) (v : ℕ) (d : Disk) {x : ℕ} (hx : ¬ CopyByte ctx i c x) :
    (fatSetEntry ctx i c v d).2 x = d x := by
  rw [h.fatSetEntry_eq hi hc]
  apply Store.save_of_notMem
  unfold CopyByte at hx
  omega

/-- INTERNAL: what becomes of the entry depends on its bytes only. -/
theorem fatSetEntry_congr (h : FatTables ctx) (hi : i < ctx.bootSector.numFat)
    (hc : InTable ctx c) (v : ℕ) {d d' : Disk} (hsame : ∀ x, CopyByte ctx i c x → d' x = d x)
    {x : ℕ} (hx : d' x = d x) :
    (fatSetEntry ctx i c v d').2 x = (fatSetEntry ctx i c v d).2 x := by
  have hload : d'.load 2 (copyStart ctx i + entryStart ctx c) =
      d.load 2 (copyStart ctx i + entryStart ctx c) :=
    Store.load_congr fun y hy hlt => hsame y ⟨hy, hlt⟩
  rw [h.fatSetEntry_eq hi hc, h.fatSetEntry_eq hi hc, hload, save_two, save_two, hx]

/-- INTERNAL: a byte of a copy is of no entry of another copy. -/
theorem not_copyByte (hc : InTable ctx c) (hne : i ≠ k) {x : ℕ}
    (hlo : copyStart ctx k ≤ x) (hhi : x < copyStart ctx k + fatBytes ctx) :
    ¬ CopyByte ctx i c x := by
  intro hx
  have hin := hx.in_copy hc
  obtain hlt | hgt := Nat.lt_or_gt_of_ne hne
  · have := copyStart_le ctx hlt
    omega
  · have := copyStart_le ctx hgt
    omega

/-- INTERNAL: the loop of `FAT_set_entries` leaves a copy that it does not visit alone, and
does to one that it visits what a single call does.
SRCLINE: fat.c:120-123 -/
theorem foldl_setEntry (h : FatTables ctx) (hc : InTable ctx c) (v : ℕ) {is : List ℕ}
    (his : ∀ i ∈ is, i < ctx.bootSector.numFat) (hnodup : is.Nodup) (d : Disk) {x : ℕ}
    (hlo : copyStart ctx k ≤ x) (hhi : x < copyStart ctx k + fatBytes ctx) :
    is.foldl (fun d i => (fatSetEntry ctx i c v d).2) d x =
      if k ∈ is then (fatSetEntry ctx k c v d).2 x else d x := by
  induction is generalizing d with
  | nil => simp
  | cons i is ih =>
      have hi := his i List.mem_cons_self
      have his' := fun j hj => his j (List.mem_cons_of_mem i hj)
      rw [List.nodup_cons] at hnodup
      rw [List.foldl_cons, ih his' hnodup.2]
      by_cases hk : k = i
      · rw [hk, if_neg hnodup.1, if_pos List.mem_cons_self]
      · have hkeep : ∀ y, copyStart ctx k ≤ y → y < copyStart ctx k + fatBytes ctx →
            (fatSetEntry ctx i c v d).2 y = d y := by
          intro y hy hlt
          exact h.fatSetEntry_of_not hi hc v d (not_copyByte hc (Ne.symm hk) hy hlt)
        by_cases hmem : k ∈ is
        · rw [if_pos hmem, if_pos (List.mem_cons_of_mem i hmem)]
          apply h.fatSetEntry_congr (his' k hmem) hc v _ (hkeep x hlo hhi)
          intro y hy
          exact hkeep y (hy.in_copy hc).1 (hy.in_copy hc).2
        · rw [if_neg hmem, if_neg (by simp [hk, hmem])]
          exact hkeep x hlo hhi

/-- INTERNAL: **one copy** after `FAT_set_entries`. -/
theorem fatSetEntries_copy (h : FatTables ctx) (hc : InTable ctx c) (v : ℕ) (d : Disk)
    (hk : k < ctx.bootSector.numFat) {x : ℕ} (hlo : copyStart ctx k ≤ x)
    (hhi : x < copyStart ctx k + fatBytes ctx) :
    fatSetEntries ctx c v d x = (fatSetEntry ctx k c v d).2 x := by
  have hloop := h.foldl_setEntry hc v (fun i hi => List.mem_range.mp hi) List.nodup_range d hlo hhi
  rw [if_pos (List.mem_range.mpr hk)] at hloop
  exact hloop

/-- INTERNAL: an entry is read from its two bytes. -/
theorem fatGetEntry_congr (h : FatTables ctx) (hk : k < ctx.bootSector.numFat)
    (hc : InTable ctx c) {d d' : Disk} (hsame : ∀ x, CopyByte ctx k c x → d' x = d x) :
    fatGetEntry ctx k c d' = fatGetEntry ctx k c d := by
  have hload : d'.load 2 (fatEntryOffset ctx k c) = d.load 2 (fatEntryOffset ctx k c) := by
    rw [h.fatEntryOffset_eq hk hc]
    exact Store.load_congr fun x hx hlt => hsame x ⟨hx, hlt⟩
  unfold fatGetEntry
  obtain htype | htype := h.type
  · simp only [htype, hload]
  · simp only [htype, hload]

/-- INTERNAL: one entry of a copy changes.
SRCLINE: fat.c:69-164 -/
theorem fatGetEntry_setEntry (h : FatTables ctx) (hk : k < ctx.bootSector.numFat)
    (hc : InTable ctx c) (hc' : InTable ctx c') (v : ℕ) (d : Disk) :
    fatGetEntry ctx k c' (fatSetEntry ctx k c v d).2 =
      if c' = c then v % entryModulus ctx else fatGetEntry ctx k c' d := by
  unfold fatGetEntry fatSetEntry
  rw [h.fatEntryOffset_eq hk hc, h.fatEntryOffset_eq hk hc']
  unfold entryStart entryModulus
  obtain htype | htype := h.type
  · rw [htype]
    exact fat12_entry d (copyStart ctx k) c c' v
  · rw [htype]
    by_cases heq : c' = c
    · rw [if_pos heq, heq]
      exact Store.load_save_self d 2 _ v
    · have hapart : copyStart ctx k + c * 2 + 2 ≤ copyStart ctx k + c' * 2 ∨
          copyStart ctx k + c' * 2 + 2 ≤ copyStart ctx k + c * 2 := by omega
      rw [if_neg heq]
      exact Store.load_save_disjoint d hapart.symm

/-- INTERNAL: so it does when the entry is set in all copies. -/
theorem fatGetEntry_setEntries (h : FatTables ctx) (hk : k < ctx.bootSector.numFat)
    (hc : InTable ctx c) (hc' : InTable ctx c') (v : ℕ) (d : Disk) :
    fatGetEntry ctx k c' (fatSetEntries ctx c v d) =
      if c' = c then v % entryModulus ctx else fatGetEntry ctx k c' d := by
  rw [← h.fatGetEntry_setEntry hk hc hc' v d]
  apply h.fatGetEntry_congr hk hc'
  intro x hx
  exact h.fatSetEntries_copy hc v d hk (hx.in_copy hc').1 (hx.in_copy hc').2

/-- INTERNAL: nothing but the bytes of the entry is written. -/
theorem fatSetEntries_of_not (h : FatTables ctx) (hc : InTable ctx c) (v : ℕ) (d : Disk) {x : ℕ}
    (hx : ∀ i < ctx.bootSector.numFat, ¬ CopyByte ctx i c x) :
    fatSetEntries ctx c v d x = d x := by
  unfold fatSetEntries
  have hrange : ∀ i ∈ List.range ctx.bootSector.numFat, i < ctx.bootSector.numFat :=
    fun i hi => List.mem_range.mp hi
  generalize List.range ctx.bootSector.numFat = is at hrange
  induction is generalizing d with
  | nil => simp
  | cons i is ih =>
      have hi := hrange i List.mem_cons_self
      rw [List.foldl_cons, ih _ fun j hj => hrange j (List.mem_cons_of_mem i hj)]
      exact h.fatSetEntry_of_not hi hc v d (hx i hi)

/-- INTERNAL: equal copies stay equal. -/
theorem copiesEqual (h : FatTables ctx) (hc : InTable ctx c) (v : ℕ) (hd : CopiesEqual ctx d) :
    CopiesEqual ctx (fatSetEntries ctx c v d) := by
  intro i hi j hj
  have hzero : 0 < ctx.bootSector.numFat := Nat.zero_lt_of_lt hi
  have hin : ∀ k, copyStart ctx k ≤ copyStart ctx k + j ∧
      copyStart ctx k + j < copyStart ctx k + fatBytes ctx := fun k => ⟨by omega, by omega⟩
  rw [h.fatSetEntries_copy hc v d hi (hin i).1 (hin i).2,
    h.fatSetEntries_copy hc v d hzero (hin 0).1 (hin 0).2,
    h.fatSetEntry_eq hi hc, h.fatSetEntry_eq hzero hc]
  unfold InTable at hc
  have hload : d.load 2 (copyStart ctx i + entryStart ctx c) =
      d.load 2 (copyStart ctx 0 + entryStart ctx c) := by
    rw [load_two, load_two, Nat.add_assoc, Nat.add_assoc, hd i hi _ (by omega),
      hd i hi _ (by omega)]
  rw [hload, save_two, save_two, hd i hi j hj]
  have hfirst : ∀ a, a + j = a + entryStart ctx c ↔ j = entryStart ctx c := fun a => by omega
  have hsecond : ∀ a, a + j = a + entryStart ctx c + 1 ↔ j = entryStart ctx c + 1 :=
    fun a => by omega
  simp only [hfirst, hsecond]

theorem eoc (h : FatTables ctx) : fatIsEoc ctx (0xFFFFFFFF % entryModulus ctx) := by
  unfold entryModulus fatIsEoc
  obtain htype | htype := h.type
  · simp [htype]
  · simp [htype]

end FatTables

/-- **The copies of a FAT12 or FAT16 table are maps** from clusters to entries.  Setting the
entry of a cluster changes it in every copy, and nothing else: no other entry, no byte that
is not of the entry.
SRCLINE: fat.c:51-186 -/
theorem fat_copies_are_maps (h : FatTables ctx) (hc : InTable ctx c) (v : ℕ) (d : Disk) :
    (∀ k < ctx.bootSector.numFat,
      fatGetEntry ctx k c (fatSetEntries ctx c v d) = v % entryModulus ctx) ∧
    (∀ k < ctx.bootSector.numFat, ∀ c', InTable ctx c' → c' ≠ c →
      fatGetEntry ctx k c' (fatSetEntries ctx c v d) = fatGetEntry ctx k c' d) ∧
    (CopiesEqual ctx d → CopiesEqual ctx (fatSetEntries ctx c v d)) ∧
    (∀ x, (∀ k < ctx.bootSector.numFat, ¬ CopyByte ctx k c x) →
      fatSetEntries ctx c v d x = d x) ∧
    ∀ k < ctx.bootSector.numFat,
      fatIsEoc ctx (fatGetEntry ctx k c (fatSetEntries ctx c 0xFFFFFFFF d)) := by
  refine ⟨fun k hk => ?_, fun k hk c' hc' hne => ?_, h.copiesEqual hc v,
    fun x hx => h.fatSetEntries_of_not hc v d hx, fun k hk => ?_⟩
  · rw [h.fatGetEntry_setEntries hk hc hc, if_pos rfl]
  · rw [h.fatGetEntry_setEntries hk hc hc', if_neg hne]
  · rw [h.fatGetEntry_setEntries hk hc hc, if_pos rfl]
    exact h.eoc

/-- A volume with two tables of one sector. -/
def twoTables (type : FatType) : FatContext where
  bootSector := ⟨512, 1, 1, 2, 64, 1, 0⟩
  sectorsPerFat32 := 0
  rootClusterNum := 0
  type := type
  dataRegionStart := 0x800
  bytesPClus := 512

/-- An entry of a FAT12 table whose last byte is shared with the next one. -/
theorem fat_copies_are_maps_two :
    fatGetEntry (twoTables .fat12) 1 4 (fatSetEntries (twoTables .fat12) 4 0x12345 fun _ => 0xFF) =
      0x345 ∧
    fatGetEntry (twoTables .fat12) 1 5 (fatSetEntries (twoTables .fat12) 4 0x12345 fun _ => 0xFF) =
      fatGetEntry (twoTables .fat12) 1 5 fun _ => 0xFF := by
  have htables : FatTables (twoTables .fat12) := ⟨.inl rfl, by decide⟩
  have hmaps := fat_copies_are_maps htables (c := 4) (by unfold InTable; decide) 0x12345
    fun _ => 0xFF
  exact ⟨hmaps.1 1 (by decide), hmaps.2.1 1 (by decide) 5 (by unfold InTable; decide) (by decide)⟩

end LakeOS.Analysis
