import Mathlib.Order.Interval.Finset.Nat
import LakeOS.Library.Chain
import LakeOS.Model.FatFormat

/-!
# The file allocation tables

On a volume with a valid layout the tables lie before the data region and hold an entry
for every cluster.  There `FAT_set_entries` changes one entry: its other effects are on
bytes of the tables that no entry of the first table is read from.  On FAT12 two entries
share a byte, so the three bytes of a pair of entries are looked at together.
-/

set_option autoImplicit false

namespace LakeOS.Analysis

open LakeOS.Library LakeOS.Model

/-! ## The words of a FAT12 table -/

/-- INTERNAL: a mask of `n` bits from bit `k` on keeps the upper part of a number. -/
theorem and_high_bits {e k n : ℕ} (h : e < 2 ^ (k + n)) :
    e &&& 2 ^ k * (2 ^ n - 1) = e / 2 ^ k * 2 ^ k := by
  apply Nat.eq_of_testBit_eq
  intro i
  rw [Nat.testBit_and, Nat.mul_comm (e / 2 ^ k), Nat.testBit_two_pow_mul, Nat.testBit_two_pow_mul,
    Nat.testBit_div_two_pow, Nat.testBit_two_pow_sub_one]
  by_cases hi : k ≤ i
  · rw [Nat.sub_add_cancel hi]
    by_cases hi' : i < k + n
    · have hlow : i - k < n := by omega
      simp [hi, hlow]
    · have hbit : e.testBit i = false := by
        apply Nat.testBit_lt_two_pow
        exact Nat.lt_of_lt_of_le h (Nat.pow_le_pow_right Nat.two_pos (not_lt.mp hi'))
      simp [hbit]
  · simp [hi]

theorem and_F000 {e : ℕ} (h : e < 65536) : e &&& 0xF000 = e / 4096 * 4096 :=
  and_high_bits (k := 12) (n := 4) h

theorem fat12Word_even {c : ℕ} (v : ℕ) {e : ℕ} (hc : c % 2 = 0) (he : e < 65536) :
    fat12Word c v e = v % 4096 + e / 4096 * 4096 := by
  have hv : v &&& 0x0FFF = v % 4096 := Nat.and_two_pow_sub_one_eq_mod v 12
  have hor : e / 4096 * 4096 + v % 4096 = e / 4096 * 4096 ||| v % 4096 := by
    have h := Nat.shiftLeft_add_eq_or_of_lt (Nat.mod_lt v (by decide : 0 < 2 ^ 12)) (e / 4096)
    rw [Nat.shiftLeft_eq] at h
    exact h
  rw [fat12Word, if_neg (by omega), hv, and_F000 he, Nat.or_comm]
  omega

theorem fat12Word_odd {c : ℕ} (v e : ℕ) (hc : c % 2 = 1) :
    fat12Word c v e % 65536 = (v * 16 + e % 16) % 65536 := by
  have he : e &&& 0x000F = e % 16 := Nat.and_two_pow_sub_one_eq_mod e 4
  have hor : v % 2 ^ 28 * 16 + e % 16 = v % 2 ^ 28 * 16 ||| e % 16 := by
    have h := Nat.shiftLeft_add_eq_or_of_lt (Nat.mod_lt e (by decide : 0 < 2 ^ 4)) (v % 2 ^ 28)
    rw [Nat.shiftLeft_eq] at h
    exact h
  have hv : (v <<< 4) % 2 ^ 32 = v % 2 ^ 28 * 16 := by
    rw [Nat.shiftLeft_eq]
    omega
  rw [fat12Word, if_pos (by omega), he, hv]
  omega

/-- INTERNAL: a word of two bytes. -/
theorem load_two (d : Disk) (a : ℕ) : d.load 2 a = (d a).toNat + 256 * (d (a + 1)).toNat := by
  simp [Store.load, Store.read, leValue, List.range_succ]

theorem save_two (d : Disk) (a w x : ℕ) : d.save 2 a w x =
    if x = a then BitVec.ofNat 8 w else if x = a + 1 then BitVec.ofNat 8 (w / 256) else d x := by
  by_cases h : x = a
  · rw [if_pos h, h, Store.save, Store.write_of_mem _ _ (Nat.le_refl a) (by simp)]
    simp [leBytes]
  · by_cases h' : x = a + 1
    · rw [if_neg h, if_pos h', h', Store.save, Store.write_of_mem _ _ (Nat.le_succ a) (by simp)]
      simp [leBytes]
    · rw [if_neg h, if_neg h', Store.save_of_notMem]
      omega

/-- INTERNAL: a word read where another one was written. -/
theorem load_save_two (d : Disk) (a b w : ℕ) : (d.save 2 a w).load 2 b =
    if b = a then w % 65536
    else if b = a + 1 then w / 256 % 256 + 256 * (d (a + 2)).toNat
    else if b + 1 = a then (d b).toNat + 256 * (w % 256)
    else d.load 2 b := by
  rw [load_two, load_two, save_two, save_two]
  by_cases h : b = a
  · have hsucc : b + 1 ≠ a := by omega
    rw [if_pos h, if_pos h, if_neg hsucc, if_pos (by omega), BitVec.toNat_ofNat, BitVec.toNat_ofNat]
    omega
  · by_cases h' : b = a + 1
    · have hsucc : b + 1 ≠ a := by omega
      have hsucc' : b + 1 ≠ a + 1 := by omega
      rw [if_neg h, if_pos h', if_neg h, if_pos h', if_neg hsucc, if_neg hsucc',
        BitVec.toNat_ofNat, h']
    · by_cases h'' : b + 1 = a
      · rw [if_neg h, if_neg h', if_neg h, if_neg h', if_pos h'', if_pos h'', BitVec.toNat_ofNat]
      · have hsucc' : b + 1 ≠ a + 1 := by omega
        rw [if_neg h, if_neg h', if_neg h, if_neg h', if_neg h'', if_neg h'', if_neg hsucc']

/-- INTERNAL: the entries of a FAT12 table, of which the one of `c` is written. -/
theorem fat12_entry (d : Disk) (A c c' v : ℕ) :
    let word := fat12Word c v (d.load 2 (A + (c + c / 2)))
    let read := fun (d : Disk) =>
      if c' % 2 ≠ 0 then d.load 2 (A + (c' + c' / 2)) >>> 4
      else d.load 2 (A + (c' + c' / 2)) &&& 0x0FFF
    read (d.save 2 (A + (c + c / 2)) word) = if c' = c then v % 0x1000 else read d := by
  intro word read
  have hmask : ∀ e, e &&& 0x0FFF = e % 4096 := fun e => Nat.and_two_pow_sub_one_eq_mod e 12
  have hread : ∀ d, read d = if c' % 2 ≠ 0 then d.load 2 (A + (c' + c' / 2)) / 16
      else d.load 2 (A + (c' + c' / 2)) % 4096 := by
    intro d
    show (if c' % 2 ≠ 0 then _ else _) = _
    rw [Nat.shiftRight_eq_div_pow, hmask]
  rw [hread, hread, load_save_two, load_two d (A + (c' + c' / 2))]
  have hbyte : ∀ x, (d x).toNat < 256 := fun x => (d x).isLt
  have hload := load_two d (A + (c + c / 2))
  have h₀ := hbyte (A + (c + c / 2))
  have h₁ := hbyte (A + (c + c / 2) + 1)
  obtain hpar | hpar := Nat.mod_two_eq_zero_or_one c
  · have hword : word = v % 4096 + d.load 2 (A + (c + c / 2)) / 4096 * 4096 :=
      fat12Word_even v hpar (by omega)
    by_cases heq : c' = c
    · subst heq
      rw [if_pos rfl, if_pos rfl, if_neg (not_not.mpr hpar)]
      omega
    · have hne : A + (c' + c' / 2) ≠ A + (c + c / 2) := by omega
      have hprev : A + (c' + c' / 2) + 1 ≠ A + (c + c / 2) := by omega
      rw [if_neg heq, if_neg hne, if_neg hprev]
      -- the entry behind shares the middle byte
      by_cases hnext : c' = c + 1
      · have hodd : c' % 2 ≠ 0 := by omega
        have hstart : A + (c' + c' / 2) = A + (c + c / 2) + 1 := by omega
        rw [if_pos hodd, if_pos hodd, if_pos hstart, hstart,
          show A + (c + c / 2) + 1 + 1 = A + (c + c / 2) + 2 from rfl]
        omega
      · rw [if_neg (show A + (c' + c' / 2) ≠ A + (c + c / 2) + 1 by omega), ← load_two]
  · have hodd : c % 2 ≠ 0 := by omega
    have hword : word % 65536 = (v * 16 + d.load 2 (A + (c + c / 2)) % 16) % 65536 :=
      fat12Word_odd v _ hpar
    by_cases heq : c' = c
    · subst heq
      rw [if_pos rfl, if_pos rfl, if_pos hodd]
      omega
    · have hne : A + (c' + c' / 2) ≠ A + (c + c / 2) := by omega
      have hnext : A + (c' + c' / 2) ≠ A + (c + c / 2) + 1 := by omega
      rw [if_neg heq, if_neg hne, if_neg hnext]
      -- so does the entry before
      by_cases hprev : c' + 1 = c
      · have heven : ¬ c' % 2 ≠ 0 := by omega
        have hstart : A + (c' + c' / 2) + 1 = A + (c + c / 2) := by omega
        rw [if_neg heven, if_neg heven, if_pos hstart, hstart]
        omega
      · rw [if_neg (show A + (c' + c' / 2) + 1 ≠ A + (c + c / 2) by omega), ← load_two]

/-! ## The layout of a volume -/

/-- The number of bytes of the volume. -/
def volumeSize (ctx : FatContext) : ℕ :=
  totalSectors ctx.bootSector ctx.bootSector.longSectors * ctx.bootSector.bytesPerSector

/-- The number of data clusters. -/
def dataClusters (ctx : FatContext) : ℕ :=
  (volumeSize ctx - ctx.dataRegionStart) / ctx.bytesPClus

/-- The address of the first table. -/
def fatStart (ctx : FatContext) : ℕ :=
  ctx.bootSector.reservedSectors * ctx.bootSector.bytesPerSector

/-- The bytes of one table. -/
def fatBytes (ctx : FatContext) : ℕ :=
  ctx.bootSector.sectorsPerFat * ctx.bootSector.bytesPerSector

/-- Where the entry of a cluster lies in its table. -/
def entryStart (ctx : FatContext) (c : ℕ) : ℕ :=
  match ctx.type with
  | .fat12 => c + c / 2
  | _ => c * 2

/-- Entries are kept modulo this number. -/
def entryModulus (ctx : FatContext) : ℕ :=
  match ctx.type with
  | .fat12 => 0x1000
  | _ => 0x10000

/-- The entry of a cluster lies in its table. -/
def InTable (ctx : FatContext) (c : ℕ) : Prop := entryStart ctx c + 2 ≤ fatBytes ctx

/-- A FAT12 or FAT16 volume: its reserved sectors, tables and data clusters lie apart and
in this order, the tables hold an entry for every data cluster, and the number of clusters
is one of the type.
SRCLINE: fat.c:15-45, 350-410 -/
structure FatLayout (ctx : FatContext) : Prop where
  type : ctx.type = .fat12 ∧ dataClusters ctx < 4085 ∨
    ctx.type = .fat16 ∧ dataClusters ctx < 65525
  volume : volumeSize ctx < 2 ^ 32
  bytesPClus : ctx.bytesPClus = ctx.bootSector.sectorsPerCluster * ctx.bootSector.bytesPerSector
  bytesPClus_pos : 0 < ctx.bytesPClus
  reserved : 1 ≤ ctx.bootSector.reservedSectors
  numFat : 1 ≤ ctx.bootSector.numFat
  sectorsPerFat : 1 ≤ ctx.bootSector.sectorsPerFat
  tables : fatStart ctx + ctx.bootSector.numFat * fatBytes ctx ≤ ctx.dataRegionStart
  data : ctx.dataRegionStart ≤ volumeSize ctx
  holds : ∀ c < dataClusters ctx + 2, InTable ctx c

/-- A cluster of the data region. -/
def DataCluster (ctx : FatContext) (c : ℕ) : Prop := 2 ≤ c ∧ c < dataClusters ctx + 2

variable {ctx : FatContext}

/-- INTERNAL: the address of an entry, where it does not wrap around.
SRCLINE: fat.c:70-72 -/
theorem fatEntryOffset_eq_of_lt {i c o : ℕ} (ho : fatGetOffset ctx c = o)
    (hlt : fatStart ctx + i * (sectorsPerFat ctx * ctx.bootSector.bytesPerSector) + o < 2 ^ 32) :
    fatEntryOffset ctx i c =
      fatStart ctx + i * (sectorsPerFat ctx * ctx.bootSector.bytesPerSector) + o := by
  have hassoc : i * sectorsPerFat ctx * ctx.bootSector.bytesPerSector =
      i * (sectorsPerFat ctx * ctx.bootSector.bytesPerSector) := Nat.mul_assoc _ _ _
  have hcopy : mul32 (mul32 i (sectorsPerFat ctx)) ctx.bootSector.bytesPerSector =
      i * (sectorsPerFat ctx * ctx.bootSector.bytesPerSector) := by
    unfold mul32
    rw [Nat.mod_mul_mod, hassoc]
    apply Nat.mod_eq_of_lt
    omega
  have hstart : mul32 ctx.bootSector.reservedSectors ctx.bootSector.bytesPerSector =
      fatStart ctx := by
    apply mul32_eq
    unfold fatStart at hlt
    omega
  have hsum : add32 (fatStart ctx) (i * (sectorsPerFat ctx * ctx.bootSector.bytesPerSector)) =
      fatStart ctx + i * (sectorsPerFat ctx * ctx.bootSector.bytesPerSector) := by
    apply add32_eq
    omega
  simp only [fatEntryOffset, hcopy, hstart, ho, hsum]
  exact add32_eq hlt

namespace FatLayout

theorem tables_lt (h : FatLayout ctx) :
    fatStart ctx + ctx.bootSector.numFat * fatBytes ctx < 2 ^ 32 :=
  Nat.lt_of_le_of_lt (h.tables.trans h.data) h.volume

/-- Cluster numbers have 16 bits. -/
theorem dataClusters_lt (h : FatLayout ctx) : dataClusters ctx < 65525 := by
  obtain ⟨-, hlt⟩ | ⟨-, hlt⟩ := h.type
  · omega
  · exact hlt

theorem bytesPerSector_pos (h : FatLayout ctx) : 0 < ctx.bootSector.bytesPerSector := by
  have hpos := h.bytesPClus_pos
  rw [h.bytesPClus] at hpos
  exact Nat.pos_of_mul_pos_left hpos

theorem table_le {i : ℕ} (hi : i < ctx.bootSector.numFat) :
    i * fatBytes ctx + fatBytes ctx ≤ ctx.bootSector.numFat * fatBytes ctx := by
  rw [← Nat.succ_mul]
  exact Nat.mul_le_mul_right _ hi

/-- INTERNAL: the address of an entry, also behind the end of its table.
SRCLINE: fat.c:71-73 -/
theorem fatEntryOffset_of_lt (h : FatLayout ctx) {i c : ℕ}
    (hlt : fatStart ctx + i * fatBytes ctx + entryStart ctx c < 2 ^ 32) :
    fatEntryOffset ctx i c = fatStart ctx + i * fatBytes ctx + entryStart ctx c := by
  have hspf : Model.sectorsPerFat ctx = ctx.bootSector.sectorsPerFat := if_pos (by
    have := h.sectorsPerFat
    omega)
  have hoffset : fatGetOffset ctx c = entryStart ctx c := by
    unfold fatGetOffset entryStart at *
    obtain ⟨htype, -⟩ | ⟨htype, -⟩ := h.type
    · rw [htype] at hlt ⊢
      dsimp only at hlt ⊢
      exact add32_eq (by omega)
    · rw [htype] at hlt ⊢
      dsimp only at hlt ⊢
      exact mul32_eq (by omega)
  rw [fatEntryOffset_eq_of_lt hoffset (by rw [hspf]; exact hlt), hspf]
  rfl

/-- INTERNAL: no address of an entry of a table wraps around. -/
theorem fatEntryOffset_eq (h : FatLayout ctx) {i c : ℕ} (hi : i < ctx.bootSector.numFat)
    (hc : InTable ctx c) :
    fatEntryOffset ctx i c = fatStart ctx + i * fatBytes ctx + entryStart ctx c := by
  have hlt := h.tables_lt
  have hle := table_le hi
  unfold InTable at hc
  exact h.fatEntryOffset_of_lt (by omega)

end FatLayout

/-! ## Entries -/

/-- INTERNAL: `FAT_set_entry` writes two bytes. -/
theorem fatSetEntry_writes (h : FatLayout ctx) (i c v : ℕ) (d : Disk) :
    ∃ w, (fatSetEntry ctx i c v d).2 = d.save 2 (fatEntryOffset ctx i c) w := by
  unfold fatSetEntry
  obtain ⟨htype, -⟩ | ⟨htype, -⟩ := h.type
  · rw [htype]
    exact ⟨_, rfl⟩
  · rw [htype]
    exact ⟨_, rfl⟩

/-- INTERNAL: the bytes of an entry of a table. -/
theorem fatSetEntry_save (h : FatLayout ctx) {i c : ℕ} (hi : i < ctx.bootSector.numFat)
    (hc : InTable ctx c) (v : ℕ) (d : Disk) :
    ∃ w, (fatSetEntry ctx i c v d).2 =
      d.save 2 (fatStart ctx + i * fatBytes ctx + entryStart ctx c) w := by
  rw [← h.fatEntryOffset_eq hi hc]
  exact fatSetEntry_writes h i c v d

/-- INTERNAL: **one entry of the first table changes.**
SRCLINE: fat.c:70-163 -/
theorem fatGetEntry_setEntry (h : FatLayout ctx) {c c' : ℕ} (hc : InTable ctx c)
    (hc' : InTable ctx c') (v : ℕ) (d : Disk) :
    fatGetEntry ctx 0 c' (fatSetEntry ctx 0 c v d).2 =
      if c' = c then v % entryModulus ctx else fatGetEntry ctx 0 c' d := by
  have hoff : ∀ {b}, InTable ctx b → fatEntryOffset ctx 0 b = fatStart ctx + entryStart ctx b := by
    intro b hb
    rw [h.fatEntryOffset_eq h.numFat hb, Nat.zero_mul, Nat.add_zero]
  unfold fatGetEntry fatSetEntry
  rw [hoff hc, hoff hc']
  unfold entryStart entryModulus
  obtain ⟨htype, -⟩ | ⟨htype, -⟩ := h.type
  · rw [htype]
    exact fat12_entry d (fatStart ctx) c c' v
  · rw [htype]
    dsimp only
    by_cases heq : c' = c
    · rw [if_pos heq, heq]
      exact Store.load_save_self d 2 _ v
    · rw [if_neg heq]
      exact Store.load_save_disjoint d (by omega)

/-- INTERNAL: an entry is read from its two bytes. -/
theorem fatGetEntry_congr (h : FatLayout ctx) {c : ℕ} (hc : InTable ctx c) {d d' : Disk}
    (hsame : ∀ x, fatStart ctx + entryStart ctx c ≤ x →
      x < fatStart ctx + entryStart ctx c + 2 → d' x = d x) :
    fatGetEntry ctx 0 c d' = fatGetEntry ctx 0 c d := by
  have hload : d'.load 2 (fatEntryOffset ctx 0 c) = d.load 2 (fatEntryOffset ctx 0 c) := by
    rw [h.fatEntryOffset_eq h.numFat hc, Nat.zero_mul, Nat.add_zero]
    exact Store.load_congr hsame
  unfold fatGetEntry
  obtain ⟨htype, -⟩ | ⟨htype, -⟩ := h.type
  · rw [htype]
    simp only [hload]
  · rw [htype]
    exact hload

/-- An address of the tables. -/
def InTables (ctx : FatContext) (x : ℕ) : Prop :=
  fatStart ctx ≤ x ∧ x < fatStart ctx + ctx.bootSector.numFat * fatBytes ctx

/-- INTERNAL: the other tables do not show in the first one. -/
theorem fatSetEntry_other (h : FatLayout ctx) {c : ℕ} (hc : InTable ctx c) (v : ℕ)
    (is : List ℕ) (his : ∀ i ∈ is, i < ctx.bootSector.numFat) (d : Disk) :
    let d' := is.foldl (fun d i => (fatSetEntry ctx i c v d).2) d
    (∀ x, ¬ InTables ctx x → d' x = d x) ∧
    ((∀ i ∈ is, i ≠ 0) → ∀ x, x < fatStart ctx + fatBytes ctx → d' x = d x) := by
  induction is generalizing d with
  | nil => exact ⟨fun _ _ => rfl, fun _ _ _ => rfl⟩
  | cons i is ih =>
      have hi := his i List.mem_cons_self
      obtain ⟨w, hw⟩ := fatSetEntry_save h hi hc v d
      obtain ⟨hout, hfirst⟩ := ih (fun j hj => his j (List.mem_cons_of_mem i hj))
        (fatSetEntry ctx i c v d).2
      have hle := FatLayout.table_le hi
      unfold InTable at hc
      refine ⟨fun x hx => (hout x hx).trans ?_, fun hne x hx => (hfirst ?_ x hx).trans ?_⟩
      · rw [hw, Store.save_of_notMem]
        unfold InTables at hx
        omega
      · exact fun j hj => hne j (List.mem_cons_of_mem i hj)
      · have hpos : 1 ≤ i := Nat.pos_of_ne_zero (hne i List.mem_cons_self)
        have hmul : fatBytes ctx ≤ i * fatBytes ctx := Nat.le_mul_of_pos_left _ hpos
        rw [hw, Store.save_of_notMem]
        omega

/-- INTERNAL: **setting an entry** in all tables changes it in the first one, and nothing
outside the tables.
SRCLINE: fat.c:120-123 -/
theorem fatSetEntries_spec (h : FatLayout ctx) {c : ℕ} (hc : InTable ctx c) (v : ℕ) (d : Disk) :
    (∀ c', InTable ctx c' → fatGetEntry ctx 0 c' (fatSetEntries ctx c v d) =
      if c' = c then v % entryModulus ctx else fatGetEntry ctx 0 c' d) ∧
    ∀ x, ¬ InTables ctx x → fatSetEntries ctx c v d x = d x := by
  have hrange : List.range ctx.bootSector.numFat =
      0 :: (List.range (ctx.bootSector.numFat - 1)).map Nat.succ := by
    rw [← List.range_succ_eq_map, Nat.sub_add_cancel h.numFat]
  refine ⟨fun c' hc' => ?_, ?_⟩
  · unfold fatSetEntries
    rw [hrange, List.foldl_cons]
    have hother := (fatSetEntry_other h hc v ((List.range (ctx.bootSector.numFat - 1)).map Nat.succ)
      (by intro i hi; obtain ⟨j, hj, rfl⟩ := List.mem_map.mp hi; have := List.mem_range.mp hj; omega)
      (fatSetEntry ctx 0 c v d).2).2
      (by intro i hi; obtain ⟨j, -, rfl⟩ := List.mem_map.mp hi; exact Nat.succ_ne_zero j)
    rw [fatGetEntry_congr h hc' fun x _ hx => hother x (by unfold InTable at hc'; omega)]
    exact fatGetEntry_setEntry h hc hc' v d
  · exact (fatSetEntry_other h hc v _ (fun i hi => List.mem_range.mp hi) d).1

/-! ## Chains of clusters -/

/-- The clusters of a file, in order. -/
def FatChain (ctx : FatContext) (d : Disk) (cs : List ℕ) : Prop :=
  Chain (fun c => fatGetEntry ctx 0 c d) (fun e => fatIsEoc ctx e) cs ∧
    ∀ c ∈ cs, DataCluster ctx c

/-- The data clusters whose entry is free. -/
def freeClusters (ctx : FatContext) (d : Disk) : Finset ℕ :=
  {c ∈ Finset.Ico 2 (dataClusters ctx + 2) | fatGetEntry ctx 0 c d = 0}

theorem mem_freeClusters {d : Disk} {c : ℕ} :
    c ∈ freeClusters ctx d ↔ DataCluster ctx c ∧ fatGetEntry ctx 0 c d = 0 := by
  simp [freeClusters, DataCluster]

namespace FatLayout

theorem inTable (h : FatLayout ctx) {c : ℕ} (hc : DataCluster ctx c) : InTable ctx c :=
  h.holds c hc.2

/-- INTERNAL: a cluster number is kept by an entry and marks no end. -/
theorem dataCluster_value (h : FatLayout ctx) {c : ℕ} (hc : DataCluster ctx c) :
    c % entryModulus ctx = c ∧ fatIsEoc ctx c = false := by
  have hlt := hc.2
  unfold entryModulus fatIsEoc
  obtain ⟨htype, hcount⟩ | ⟨htype, hcount⟩ := h.type
  · rw [htype]
    exact ⟨Nat.mod_eq_of_lt (show c < 0x1000 by omega), decide_eq_false (by omega)⟩
  · rw [htype]
    exact ⟨Nat.mod_eq_of_lt (show c < 0x10000 by omega), decide_eq_false (by omega)⟩

theorem eoc_value (h : FatLayout ctx) : fatIsEoc ctx (0xFFFFFFFF % entryModulus ctx) := by
  unfold entryModulus fatIsEoc
  obtain ⟨htype, -⟩ | ⟨htype, -⟩ := h.type
  · rw [htype]
    decide
  · rw [htype]
    decide

theorem not_eoc_zero (h : FatLayout ctx) : fatIsEoc ctx 0 = false := by
  unfold fatIsEoc
  obtain ⟨htype, -⟩ | ⟨htype, -⟩ := h.type
  · rw [htype]
    rfl
  · rw [htype]
    rfl

end FatLayout

variable {d : Disk}

/-- INTERNAL: a cluster of a chain is not free. -/
theorem FatChain.ne_zero (h : FatLayout ctx) {cs : List ℕ} (hcs : FatChain ctx d cs) :
    ∀ c ∈ cs, fatGetEntry ctx 0 c d ≠ 0 := by
  refine hcs.1.next_ne ?_ fun hzero => absurd (hcs.2 0 hzero).1 (by decide)
  rw [h.not_eoc_zero]
  exact Bool.false_ne_true

/-- INTERNAL: a chain is no longer than the data region. -/
theorem FatChain.length_le {cs : List ℕ} (hcs : FatChain ctx d cs) :
    cs.length ≤ dataClusters ctx := by
  have hsub : cs.toFinset ⊆ Finset.Ico 2 (dataClusters ctx + 2) := by
    intro c hc
    exact Finset.mem_Ico.mpr (hcs.2 c (List.mem_toFinset.mp hc))
  have hcard := Finset.card_le_card hsub
  rw [List.toFinset_card_of_nodup hcs.1.nodup, Nat.card_Ico] at hcard
  omega

/-- A chain has no more bytes than the data region. -/
theorem FatChain.bytes_le {cs : List ℕ} (hcs : FatChain ctx d cs) :
    cs.length * ctx.bytesPClus ≤ volumeSize ctx - ctx.dataRegionStart :=
  (Nat.mul_le_mul_right ctx.bytesPClus hcs.length_le).trans (Nat.div_mul_le_self _ _)

end LakeOS.Analysis
