import LakeOS.Analysis.FatTable

/-!
# FAT32 entries

A FAT32 entry is a word of which the upper four bits are reserved.  `FAT_set_entry` keeps
them, but `FAT_get_entry` takes away the lower four bits of the word instead: the number of
a cluster comes back only if it is a multiple of 16, and no entry is read as the end of a
chain.
-/

set_option autoImplicit false

namespace LakeOS.Analysis

open LakeOS.Library LakeOS.Model

variable {ctx : FatContext} {i k c v : ℕ} {d : Disk}

/-- The tables of a FAT32 volume lie in the address space of the device.
SRCLINE: fat.h:337-341 -/
structure Fat32Tables (ctx : FatContext) : Prop where
  type : ctx.type = .fat32
  tables : fatStart ctx +
    ctx.bootSector.numFat * (sectorsPerFat ctx * ctx.bootSector.bytesPerSector) ≤ 2 ^ 32

/-- The entry of a cluster lies in its table. -/
def InTable32 (ctx : FatContext) (c : ℕ) : Prop :=
  c * 4 + 4 ≤ sectorsPerFat ctx * ctx.bootSector.bytesPerSector

/-- The word of an entry. -/
def entry32 (ctx : FatContext) (k c : ℕ) (d : Disk) : ℕ := d.load 4 (fatEntryOffset ctx k c)

/-- After `FAT_set_entry` the reserved bits are as before, the entry has its value, the
other entries have theirs, and the entry can be set to the end of a chain. -/
structure Fat32EntryOk (ctx : FatContext) (k c v : ℕ) (d : Disk) : Prop where
  reserved : entry32 ctx k c (fatSetEntry ctx k c v d).2 / 2 ^ 28 = entry32 ctx k c d / 2 ^ 28
  value : fatGetEntry ctx k c (fatSetEntry ctx k c v d).2 = v % 2 ^ 28
  others : ∀ c', InTable32 ctx c' → c' ≠ c →
    fatGetEntry ctx k c' (fatSetEntry ctx k c v d).2 = fatGetEntry ctx k c' d
  eoc : fatIsEoc ctx (fatGetEntry ctx k c (fatSetEntry ctx k c 0xFFFFFFFF d).2)

/-- INTERNAL: the word that is written.
SRCLINE: fat.c:106-107 -/
theorem fat32Word_eq (v : ℕ) {e : ℕ} (he : e < 2 ^ 32) :
    (v &&& 0x0FFFFFFF) ||| (e &&& 0xF0000000) = v % 2 ^ 28 + e / 2 ^ 28 * 2 ^ 28 := by
  have hlow : v &&& 0x0FFFFFFF = v % 2 ^ 28 := Nat.and_two_pow_sub_one_eq_mod v 28
  have hhigh : e &&& 0xF0000000 = e / 2 ^ 28 * 2 ^ 28 := and_high_bits (k := 28) (n := 4) he
  have hor := Nat.shiftLeft_add_eq_or_of_lt (Nat.mod_lt v (Nat.two_pow_pos 28)) (e / 2 ^ 28)
  rw [Nat.shiftLeft_eq] at hor
  rw [hlow, hhigh, Nat.or_comm, ← hor, Nat.add_comm]

/-- INTERNAL: the value that is read.
SRCLINE: fat.c:158 -/
theorem fat32Value_eq {w : ℕ} (hw : w < 2 ^ 32) : w &&& 0xFFFFFFF0 = w / 16 * 16 :=
  and_high_bits (k := 4) (n := 28) hw

theorem entry32_lt (ctx : FatContext) (k c : ℕ) (d : Disk) : entry32 ctx k c d < 2 ^ 32 :=
  Store.load_lt d 4 _

namespace Fat32Tables

/-- INTERNAL: the address of an entry. -/
theorem fatEntryOffset_eq (h : Fat32Tables ctx) (hk : k < ctx.bootSector.numFat)
    (hc : InTable32 ctx c) : fatEntryOffset ctx k c =
      fatStart ctx + k * (sectorsPerFat ctx * ctx.bootSector.bytesPerSector) + c * 4 := by
  have htables := h.tables
  have hend := Nat.mul_le_mul_right (sectorsPerFat ctx * ctx.bootSector.bytesPerSector)
    (Nat.succ_le_of_lt hk)
  unfold InTable32 at hc
  rw [Nat.succ_mul] at hend
  have hoffset : fatGetOffset ctx c = c * 4 := by
    simp only [fatGetOffset, h.type]
    exact mul32_eq (by omega)
  exact fatEntryOffset_eq_of_lt hoffset (by omega)

/-- INTERNAL: `FAT_set_entry` writes one word.
SRCLINE: fat.c:101-112 -/
theorem fatSetEntry_eq (h : Fat32Tables ctx) (k c v : ℕ) (d : Disk) :
    (fatSetEntry ctx k c v d).2 = d.save 4 (fatEntryOffset ctx k c)
      (v % 2 ^ 28 + entry32 ctx k c d / 2 ^ 28 * 2 ^ 28) := by
  rw [← fat32Word_eq v (entry32_lt ctx k c d)]
  simp only [fatSetEntry, h.type]
  rfl

theorem fatGetEntry_eq (h : Fat32Tables ctx) (k c : ℕ) (d : Disk) :
    fatGetEntry ctx k c d = entry32 ctx k c d / 16 * 16 := by
  rw [← fat32Value_eq (entry32_lt ctx k c d)]
  simp only [fatGetEntry, h.type]
  rfl

/-- INTERNAL: the word after it was set. -/
theorem entry32_self (h : Fat32Tables ctx) (k c v : ℕ) (d : Disk) :
    entry32 ctx k c (fatSetEntry ctx k c v d).2 =
      v % 2 ^ 28 + entry32 ctx k c d / 2 ^ 28 * 2 ^ 28 := by
  have hlt := entry32_lt ctx k c d
  have hsum : v % 2 ^ 28 + entry32 ctx k c d / 2 ^ 28 * 2 ^ 28 < 256 ^ 4 := by omega
  rw [h.fatSetEntry_eq]
  exact (Store.load_save_self d 4 _ _).trans (Nat.mod_eq_of_lt hsum)

/-- INTERNAL: the words of other clusters. -/
theorem entry32_of_ne (h : Fat32Tables ctx) (hk : k < ctx.bootSector.numFat)
    (hc : InTable32 ctx c) {c' : ℕ} (hc' : InTable32 ctx c') (hne : c' ≠ c) (v : ℕ) (d : Disk) :
    entry32 ctx k c' (fatSetEntry ctx k c v d).2 = entry32 ctx k c' d := by
  rw [h.fatSetEntry_eq]
  apply Store.load_save_disjoint
  rw [h.fatEntryOffset_eq hk hc, h.fatEntryOffset_eq hk hc']
  omega

/-- INTERNAL: **no entry marks the end of a chain**. -/
theorem not_eoc (h : Fat32Tables ctx) (k c : ℕ) (d : Disk) :
    fatIsEoc ctx (fatGetEntry ctx k c d) = false := by
  have hlt := entry32_lt ctx k c d
  rw [h.fatGetEntry_eq]
  simp only [fatIsEoc, h.type]
  apply decide_eq_false
  omega

/-- INTERNAL: the loop of `FAT_allocate_cluster` does not end.
SRCLINE: fat.c:724-730 -/
theorem fatChainEnd_none (h : Fat32Tables ctx) (d : Disk) (fuel c next : ℕ)
    (hnext : fatIsEoc ctx next = false) : fatChainEnd ctx d fuel c next = none := by
  induction fuel generalizing c next with
  | zero => rfl
  | succ fuel ih =>
      rw [fatChainEnd, hnext, if_neg Bool.false_ne_true]
      exact ih next _ (h.not_eoc 0 next d)

end Fat32Tables

/-- **FAT32 entries do not mark the end of a chain**, whatever is written to them, so that
the walk to the last cluster never ends.  The reserved bits and the other entries are kept,
and a value is read back only if its lower four bits and the reserved ones are zero.
SRCLINE: fat.c:101-112, 153-186, 724-730 -/
theorem fat32_entries_never_end (h : Fat32Tables ctx) (hk : k < ctx.bootSector.numFat)
    (hc : InTable32 ctx c) (v : ℕ) (d : Disk) :
    ¬ Fat32EntryOk ctx k c v d ∧
    (∀ fuel cluster, fatChainEnd ctx d fuel cluster (fatGetEntry ctx 0 cluster d) = none) ∧
    entry32 ctx k c (fatSetEntry ctx k c v d).2 / 2 ^ 28 = entry32 ctx k c d / 2 ^ 28 ∧
    (∀ c', InTable32 ctx c' → c' ≠ c →
      fatGetEntry ctx k c' (fatSetEntry ctx k c v d).2 = fatGetEntry ctx k c' d) ∧
    (fatGetEntry ctx k c (fatSetEntry ctx k c v d).2 = v % 2 ^ 28 ↔
      v % 16 = 0 ∧ entry32 ctx k c d / 2 ^ 28 = 0) := by
  refine ⟨fun hok => ?_, fun fuel c => ?_, ?_, fun c' hc' hne => ?_, ?_⟩
  · have heoc := hok.eoc
    rw [h.not_eoc] at heoc
    cases heoc
  · exact h.fatChainEnd_none d fuel c _ (h.not_eoc 0 c d)
  · rw [h.entry32_self]
    omega
  · rw [h.fatGetEntry_eq, h.fatGetEntry_eq, h.entry32_of_ne hk hc hc' hne]
  · rw [h.fatGetEntry_eq, h.entry32_self]
    omega

/-- A volume with one table of one sector. -/
def oneTable32 : FatContext where
  bootSector := ⟨512, 1, 1, 1, 64, 0, 0⟩
  sectorsPerFat32 := 1
  rootClusterNum := 2
  type := .fat32
  dataRegionStart := 0x400
  bytesPClus := 512

theorem oneTable32_tables : Fat32Tables oneTable32 := ⟨rfl, by decide⟩

theorem fat32_entries_never_end_one : ¬ Fat32EntryOk oneTable32 0 5 0x10 fun _ => 0 :=
  (fat32_entries_never_end oneTable32_tables (by decide) (by unfold InTable32; decide) 0x10
    fun _ => 0).1

/-- An entry set to `0xFFFFFFFF` is read as `0x0FFFFFF0`. -/
theorem fat32_end_of_chain_lost : ¬ Fat32EntryOk oneTable32 0 5 0xFFFFFFFF fun _ => 0 := by
  intro hok
  have hvalue := hok.value
  rw [oneTable32_tables.fatGetEntry_eq, oneTable32_tables.entry32_self] at hvalue
  omega

end LakeOS.Analysis
