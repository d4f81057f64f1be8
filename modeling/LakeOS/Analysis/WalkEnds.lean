import LakeOS.Library.Walk
import LakeOS.Analysis.ChainFreeing
import LakeOS.Analysis.DeviceReads

/-!
# Walks over any FAT

The loops of `FAT_allocate_cluster` and `FAT_free_cluster_chain` follow the entries of the
table until one of them is an end mark, whatever is in the table.  The first leaves the table
as it is; the second clears each entry that it leaves, so that a walk that comes back goes on
from the cluster `0`.  The scan of a directory counts its entries, and each of them is read in
finitely many steps.

The entries are those that `FAT_get_entry` reads: of a FAT12 entry that runs over the end of a
sector the digits in that sector.
-/

set_option autoImplicit false

namespace LakeOS.Analysis

open LakeOS.Library LakeOS.Model

variable {ctx : FatContext} {v : FatDevice} {c n x : ℕ} {d : Disk} {junk : Uninit} {file : FatHandle}

/-! ## The graph of a table -/

/-- The walk over the entries, as they are read, comes to an end mark. -/
def ChainEnds (v : FatDevice) (d : Disk) (c : ℕ) : Prop :=
  Reaches (fun x => v.fatGetEntry 0 x d) (fun e => fatIsEoc v.toFatContext e) c

/-- INTERNAL: entries have 16 bits, or 32. -/
theorem fatGetEntry_bound (ctx : FatContext) (c : ℕ) (d : Disk) :
    fatGetEntry ctx 0 c d < 2 ^ 32 ∧
      (ctx.type = .fat12 ∨ ctx.type = .fat16 → fatGetEntry ctx 0 c d < 2 ^ 16) := by
  have hword : d.load 2 (fatEntryOffset ctx 0 c) < 2 ^ 16 := Store.load_lt d 2 _
  have hlong : d.load 4 (fatEntryOffset ctx 0 c) < 2 ^ 32 := Store.load_lt d 4 _
  unfold fatGetEntry
  dsimp only
  cases htype : ctx.type with
  | fatNull => simp
  | fat12 =>
    have hmask : d.load 2 (fatEntryOffset ctx 0 c) &&& 0x0FFF ≤ 0x0FFF := Nat.and_le_right
    rw [Nat.shiftRight_eq_div_pow]
    dsimp only
    split <;> constructor <;> omega
  | fat16 => exact ⟨by dsimp only; omega, fun _ => hword⟩
  | fat32 =>
    have hmask := Nat.and_le_left (n := d.load 4 (fatEntryOffset ctx 0 c)) (m := 0xFFFFFFF0)
    exact ⟨by dsimp only; omega, by simp⟩

/-- INTERNAL: no entry of the other types is an end mark.
SRCLINE: fat.c:154-158, fat.c:171-185 -/
theorem not_eoc_of_type (htype : ¬ (ctx.type = .fat12 ∨ ctx.type = .fat16)) (c : ℕ) (d : Disk) :
    fatIsEoc ctx (fatGetEntry ctx 0 c d) = false := by
  unfold fatGetEntry fatIsEoc
  dsimp only
  cases htype' : ctx.type with
  | fatNull => rfl
  | fat12 => exact absurd (.inl htype') htype
  | fat16 => exact absurd (.inr htype') htype
  | fat32 =>
    have hmask : d.load 4 (fatEntryOffset ctx 0 c) &&& 0xFFFFFFF0 ≤ 0xFFFFFFF0 :=
      Nat.and_le_right
    simp only [decide_eq_false_iff_not]
    omega

/-- INTERNAL: the same of what is read of them. -/
theorem FatDevice.fatGetEntry_bound (v : FatDevice) (c : ℕ) (d : Disk) :
    v.fatGetEntry 0 c d < 2 ^ 32 ∧
      (v.type = .fat12 ∨ v.type = .fat16 → v.fatGetEntry 0 c d < 2 ^ 16) := by
  rw [FatDevice.fatGetEntry_eq]
  exact LakeOS.Analysis.fatGetEntry_bound v.toFatContext c _

theorem FatDevice.not_eoc_of_type (htype : ¬ (v.type = .fat12 ∨ v.type = .fat16)) (c : ℕ)
    (d : Disk) : fatIsEoc v.toFatContext (v.fatGetEntry 0 c d) = false := by
  rw [FatDevice.fatGetEntry_eq]
  exact LakeOS.Analysis.not_eoc_of_type htype c _

theorem not_eoc_zero (ctx : FatContext) : fatIsEoc ctx 0 = false := by
  unfold fatIsEoc
  split <;> rfl

/-! ## `FAT_allocate_cluster` -/

/-- INTERNAL: the rounds of the loop are the steps of the walk.
SRCLINE: fat.c:725-730 -/
theorem FatDevice.fatChainEnd_isSome (fuel c next : ℕ) : (v.fatChainEnd d fuel c next).isSome ↔
    ∃ n < fuel, ReachesIn (fun x => v.fatGetEntry 0 x d) (fun e => fatIsEoc v.toFatContext e) n next := by
  induction fuel generalizing c next with
  | zero => simp [FatDevice.fatChainEnd]
  | succ fuel ih =>
    rw [FatDevice.fatChainEnd]
    by_cases heoc : fatIsEoc v.toFatContext next
    · rw [if_pos heoc]
      exact iff_of_true rfl ⟨0, Nat.succ_pos fuel, heoc⟩
    · rw [if_neg heoc, ih]
      constructor
      · rintro ⟨n, hn, hreach⟩
        exact ⟨n + 1, Nat.succ_lt_succ hn, heoc, hreach⟩
      · rintro ⟨n, hn, hreach⟩
        cases n with
        | zero => exact absurd hreach heoc
        | succ n => exact ⟨n, Nat.lt_of_succ_lt_succ hn, hreach.2⟩

/-- **`FAT_allocate_cluster` ends** if the walk behind the cluster does.
SRCLINE: fat.c:724-736 -/
theorem FatDevice.fatAllocateCluster_isSome (v : FatDevice) (c : ℕ) (d : Disk) :
    (v.fatAllocateCluster c d).isSome ↔ ChainEnds v d (v.fatGetEntry 0 c d) := by
  have hsome : (v.fatAllocateCluster c d).isSome =
      (v.fatChainEnd d fatFuel c (v.fatGetEntry 0 c d)).isSome := by
    unfold FatDevice.fatAllocateCluster
    cases v.fatChainEnd d fatFuel c (v.fatGetEntry 0 c d) with
    | none => rfl
    | some last => rfl
  rw [hsome, FatDevice.fatChainEnd_isSome]
  constructor
  · rintro ⟨n, -, hreach⟩
    exact ⟨n, hreach⟩
  · rintro ⟨n, hreach⟩
    have hclosed : ∀ x ∈ Finset.range (2 ^ 32), v.fatGetEntry 0 x d ∈ Finset.range (2 ^ 32) :=
      fun x _ => Finset.mem_range.mpr (FatDevice.fatGetEntry_bound v x d).1
    have hlt := hreach.lt_card (Finset.mem_range.mpr (FatDevice.fatGetEntry_bound v c d).1) hclosed
    rw [Finset.card_range] at hlt
    exact ⟨n, hlt, hreach⟩

/-! ## `FAT_free_cluster_chain` -/

/-- A number that the walk from the cluster, or from `0`, comes to. -/
inductive OnWalk (v : FatDevice) (d : Disk) (c : ℕ) : ℕ → Prop where
  | start : OnWalk v d c c
  | zero : OnWalk v d c 0
  | next {a : ℕ} : OnWalk v d c a → fatIsEoc v.toFatContext a = false →
      OnWalk v d c (v.fatGetEntry 0 a d)

/-- The entries of these numbers do not lie over each other. -/
structure WalkApart (v : FatDevice) (d : Disk) (c : ℕ) : Prop where
  numFat : 1 ≤ v.bootSector.numFat
  apart : ∀ a b, OnWalk v d c a → OnWalk v d c b → fatIsEoc v.toFatContext a = false →
    fatIsEoc v.toFatContext b = false → a ≠ b → ∀ m, CopyNibble v.toFatContext 0 b m → ¬ EntryNibble v.toFatContext a m

/-- In the tables they do not. -/
theorem WalkApart.of_inTable (h : FatTables v.toFatContext) (hnum : 1 ≤ v.bootSector.numFat)
    (hin : ∀ a, OnWalk v d c a → fatIsEoc v.toFatContext a = false → InTable v.toFatContext a) :
    WalkApart v d c where
  numFat := hnum
  apart := by
    rintro a b ha hb hea heb hne m hm ⟨k, hk, hm'⟩
    exact hne (h.nibble_apart hk hnum (hin a ha hea) (hin b hb heb) hm' hm).2

/-- INTERNAL: the entries of the walk when one of them is cleared. -/
theorem WalkApart.get_cleared (hw : WalkApart v d c)
    (htype : v.type = .fat12 ∨ v.type = .fat16)
    {a b : ℕ} (ha : OnWalk v d c a) (hb : OnWalk v d c b)
    (hea : fatIsEoc v.toFatContext a = false) (heb : fatIsEoc v.toFatContext b = false)
    (d₁ : Disk) : v.fatGetEntry 0 b (v.fatSetEntries a 0x0 d₁) =
      if b = a then 0 else v.fatGetEntry 0 b d₁ := by
  by_cases heq : b = a
  · subst heq
    have hclear : ∀ m, CopyNibble v.toFatContext 0 b m →
        (cutDisk v 0 b (v.fatSetEntries b 0x0 d₁)).nibble m = 0 := by
      intro m hm
      rw [nibble_cutDisk, FatDevice.nibble_setEntries_zero htype]
      split
      next => rfl
      next hcut => rw [if_pos ⟨0, hw.numFat, hm, hcut⟩]
    have hlen : 3 ≤ entryNibbles v.toFatContext := by
      unfold entryNibbles
      split <;> omega
    rw [if_pos rfl, FatDevice.fatGetEntry_eq, fatGetEntry_eq_nibbles htype,
      hclear _ ⟨by omega, by omega⟩, hclear _ ⟨by omega, by omega⟩, hclear _ ⟨by omega, by omega⟩]
    split
    next hfour => rw [hclear _ ⟨by omega, by omega⟩]
    next => rfl
  · rw [if_neg heq, FatDevice.fatGetEntry_eq, FatDevice.fatGetEntry_eq]
    apply fatGetEntry_congr_nibbles htype
    intro m hm
    have hkept : (v.fatSetEntries a 0x0 d₁).nibble m = d₁.nibble m := by
      rw [FatDevice.nibble_setEntries_zero htype, if_neg]
      rintro ⟨k, hk, hmoved⟩
      exact hw.apart a b ha hb hea heb (Ne.symm heq) m hm ⟨k, hk, hmoved.1⟩
    rw [nibble_cutDisk, nibble_cutDisk, hkept]

/-- INTERNAL: **freeing is a walk that erases.**  The links that are left are those of the
first disk.
SRCLINE: fat.c:688-699 -/
theorem WalkApart.isSome_iff (hw : WalkApart v d c)
    (htype : v.type = .fat12 ∨ v.type = .fat16)
    {fuel : ℕ} {d₁ : Disk} {links : ℕ → ℕ} (hx : OnWalk v d c x)
    (hlinks : ∀ a, OnWalk v d c a → fatIsEoc v.toFatContext a = false → v.fatGetEntry 0 a d₁ = links a)
    (hnext : ∀ a, OnWalk v d c a → fatIsEoc v.toFatContext a = false → OnWalk v d c (links a)) :
    (v.fatFreeClusterChain fuel x d₁).isSome ↔
      ErasingEnds (fun e => fatIsEoc v.toFatContext e) 0 fuel x links := by
  induction fuel generalizing x d₁ links with
  | zero => simp [FatDevice.fatFreeClusterChain, ErasingEnds]
  | succ fuel ih =>
    rw [FatDevice.fatFreeClusterChain, ErasingEnds]
    by_cases heoc : fatIsEoc v.toFatContext x
    · rw [if_pos heoc]
      exact iff_of_true rfl (.inl heoc)
    · have hex : fatIsEoc v.toFatContext x = false := by simpa using heoc
      rw [if_neg heoc, hlinks x hx hex, ih (hnext x hx hex)]
      · exact ⟨.inr, fun h => h.resolve_left heoc⟩
      · intro a ha hea
        rw [hw.get_cleared htype hx ha hex hea, Function.update_apply, hlinks a ha hea]
      · intro a ha hea
        rw [Function.update_apply]
        split
        next => exact .zero
        next => exact hnext a ha hea

/-- INTERNAL: on the other types nothing ends but a walk that begins at an end mark. -/
theorem chainEnds_of_type (htype : ¬ (v.type = .fat12 ∨ v.type = .fat16)) :
    ChainEnds v d c ↔ fatIsEoc v.toFatContext c := by
  constructor
  · rintro ⟨n, hn⟩
    induction n generalizing c with
    | zero => exact hn
    | succ n ih =>
      have heoc := ih hn.2
      rw [FatDevice.not_eoc_of_type htype] at heoc
      cases heoc
  · intro heoc
    exact ⟨0, heoc⟩

/-- INTERNAL: so does freeing. -/
theorem free_isSome_of_type (htype : ¬ (v.type = .fat12 ∨ v.type = .fat16)) (fuel : ℕ) :
    (v.fatFreeClusterChain (fuel + 1) c d).isSome ↔ fatIsEoc v.toFatContext c := by
  induction fuel generalizing c d with
  | zero =>
    rw [FatDevice.fatFreeClusterChain]
    by_cases heoc : fatIsEoc v.toFatContext c
    · simp [heoc]
    · simp [heoc, FatDevice.fatFreeClusterChain]
  | succ fuel ih =>
    rw [FatDevice.fatFreeClusterChain]
    by_cases heoc : fatIsEoc v.toFatContext c
    · simp [heoc]
    · rw [if_neg heoc, ih, FatDevice.not_eoc_of_type htype]
      simp [heoc]

/-- **`FAT_free_cluster_chain` ends** if the walk from the cluster does, or the one from `0`.
SRCLINE: fat.c:688-699 -/
theorem FatDevice.fatFreeClusterChain_isSome
    (hapart : v.type = .fat12 ∨ v.type = .fat16 → WalkApart v d c) :
    (v.fatFreeClusterChain fatFuel c d).isSome ↔ ChainEnds v d c ∨ ChainEnds v d 0 := by
  by_cases htype : v.type = .fat12 ∨ v.type = .fat16
  · have hw := hapart htype
    rw [hw.isSome_iff htype .start (fun _ _ _ => rfl) fun a ha hea => .next ha hea]
    have hclosed : ∀ b ∈ insert c (Finset.range (2 ^ 16)),
        v.fatGetEntry 0 b d ∈ insert c (Finset.range (2 ^ 16)) := fun b _ =>
      Finset.mem_insert_of_mem (Finset.mem_range.mpr ((FatDevice.fatGetEntry_bound v b d).2 htype))
    have hcard : (insert c (Finset.range (2 ^ 16))).card ≤ 2 ^ 16 + 1 := by
      have hle := Finset.card_insert_le c (Finset.range (2 ^ 16))
      rwa [Finset.card_range] at hle
    apply erasingEnds_iff hclosed (Finset.mem_insert_self c _)
    · exact Finset.mem_insert_of_mem (Finset.mem_range.mpr (by decide))
    · unfold fatFuel
      omega
  · rw [chainEnds_of_type htype, chainEnds_of_type htype, not_eoc_zero,
      show fatFuel = (2 ^ 32 - 1) + 1 from rfl, free_isSome_of_type htype]
    simp

/-! ## `FAT_file_entry` -/

/-- INTERNAL: the offset gets smaller with each cluster.
SRCLINE: fat.c:436-449 -/
theorem FatDevice.fatAbsoluteOffsetLoop_isSome (hbpc : 0 < v.bytesPClus) {fuel c offset : ℕ}
    (hfuel : offset < fuel) : (v.fatAbsoluteOffsetLoop d fuel c offset).isSome := by
  induction fuel generalizing c offset with
  | zero => omega
  | succ fuel ih =>
    rw [FatDevice.fatAbsoluteOffsetLoop]
    by_cases hle : v.bytesPClus ≤ offset
    · rw [if_pos hle]
      dsimp only
      split
      next => rfl
      next => exact ih (by omega)
    · rw [if_neg hle]
      rfl

/-- **Every entry is read in finitely many steps**, on any table.
SRCLINE: fat.c:460-471 -/
theorem FatDevice.fatDirEntry_isSome (hbpc : 0 < v.bytesPClus) (junk : Uninit) (c i : ℕ) (d : Disk) :
    ∃ r, v.fatDirEntry junk c i d = some r := by
  rw [← Option.isSome_iff_exists, FatDevice.fatDirEntry, Option.isSome_map]
  have hlt : mul32 i sizeofShortDirEntry < fatFuel := Nat.mod_lt _ (by decide)
  unfold FatDevice.fatAbsoluteOffset
  split
  next =>
    dsimp only
    split <;> rfl
  next =>
    split
    next => rfl
    next => exact FatDevice.fatAbsoluteOffsetLoop_isSome hbpc hlt

/-- An entry of the name that is no volume label. -/
def IsFound (entry conv : List Byte) : Prop :=
  memcmp entry conv 11 = 0 ∧ !hasFlag (entryAttributes entry) entryAttrVolumeId

/-- The scan is decided at an index: the directory has ended, or an entry of the name is read.
What the caller's variable holds counts only if the first entry is not read. -/
def DecidesAt (v : FatDevice) (junk : Uninit) (file : FatHandle) (d : Disk) (i : ℕ) : Prop :=
  ∃ r, v.fatDirEntry junk file.dirCluster i d = some r ∧
    (r.1 ≠ 0 ∨ ∃ entry, (r.2 = some entry ∨ i = 0 ∧ r.2 = none ∧ entry = junk.entry) ∧
      IsFound entry (fatConvFname file.name))

/-- Some index decides, of those whose offsets do not wrap around. -/
def ScanEnds (v : FatDevice) (junk : Uninit) (file : FatHandle) (d : Disk) : Prop :=
  ∃ i < 2 ^ 27, DecidesAt v junk file d i

/-- The entry that is looked at after so many rounds; what is not read stays. -/
def scanned (junk : Uninit) (answers : ℕ → ℕ × Option (List Byte)) : ℕ → List Byte
  | 0 => (answers 0).2.getD junk.entry
  | n + 1 => (answers (n + 1)).2.getD (scanned junk answers n)

/-- INTERNAL: the loop is left at the first round that finds the end or the file.
SRCLINE: fat.c:707-717 -/
theorem FatDevice.fatFileEntryLoop_isSome {conv : List Byte} {answers : ℕ → ℕ × Option (List Byte)}
    (hanswers : ∀ i, v.fatDirEntry junk c (i % 2 ^ 32) d = some (answers i)) (fuel n : ℕ) :
    (v.fatFileEntryLoop junk c conv d fuel (n % 2 ^ 32) (answers n).1
      (scanned junk answers n)).isSome ↔
      ∃ k, n ≤ k ∧ k < n + fuel ∧
        ((answers k).1 ≠ 0 ∨ IsFound (scanned junk answers k) conv) := by
  induction fuel generalizing n with
  | zero =>
    simp [FatDevice.fatFileEntryLoop]
    intro k hk hlt
    omega
  | succ fuel ih =>
    rw [FatDevice.fatFileEntryLoop]
    by_cases heoc : (answers n).1 ≠ 0
    · rw [if_pos heoc]
      exact iff_of_true rfl ⟨n, Nat.le_refl n, by omega, .inl heoc⟩
    · rw [if_neg heoc]
      by_cases hfound : memcmp (scanned junk answers n) conv 11 = 0 ∧
          !hasFlag (entryAttributes (scanned junk answers n)) entryAttrVolumeId
      · rw [if_pos hfound]
        exact iff_of_true rfl ⟨n, Nat.le_refl n, by omega, .inr hfound⟩
      · have hadd : add32 (n % 2 ^ 32) 1 = (n + 1) % 2 ^ 32 := by
          unfold add32
          omega
        rw [if_neg hfound, hadd, hanswers (n + 1), Option.bind_eq_bind, Option.bind_some]
        refine (ih (n + 1)).trans ⟨?_, ?_⟩
        · rintro ⟨k, hk, hlt, hdone⟩
          exact ⟨k, by omega, by omega, hdone⟩
        · rintro ⟨k, hk, hlt, hdone⟩
          have hne : k ≠ n := by
            rintro rfl
            exact hdone.elim heoc hfound
          exact ⟨k, by omega, by omega, hdone⟩

/-- INTERNAL: an entry that is found was read in some round. -/
theorem decidesAt_of_scanned {answers : ℕ → ℕ × Option (List Byte)}
    (hanswers : ∀ i, v.fatDirEntry junk file.dirCluster i d = some (answers i)) {k : ℕ}
    (hfound : IsFound (scanned junk answers k) (fatConvFname file.name)) :
    ∃ j ≤ k, DecidesAt v junk file d j := by
  induction k with
  | zero =>
    refine ⟨0, Nat.le_refl 0, _, hanswers 0, .inr ⟨_, ?_, hfound⟩⟩
    unfold scanned
    cases hread : (answers 0).2 with
    | none => exact .inr ⟨rfl, rfl, rfl⟩
    | some entry => exact .inl rfl
  | succ k ih =>
    unfold scanned at hfound
    cases hread : (answers (k + 1)).2 with
    | none =>
      rw [hread, Option.getD_none] at hfound
      obtain ⟨j, hj, hdecides⟩ := ih hfound
      exact ⟨j, by omega, hdecides⟩
    | some entry =>
      rw [hread, Option.getD_some] at hfound
      exact ⟨k + 1, Nat.le_refl _, _, hanswers (k + 1), .inr ⟨entry, .inl hread, hfound⟩⟩

/-- INTERNAL: an index that decides ends the scan there. -/
theorem scanned_of_decidesAt {answers : ℕ → ℕ × Option (List Byte)}
    (hanswers : ∀ i, v.fatDirEntry junk file.dirCluster i d = some (answers i)) {k : ℕ}
    (hdecides : DecidesAt v junk file d k) :
    (answers k).1 ≠ 0 ∨ IsFound (scanned junk answers k) (fatConvFname file.name) := by
  obtain ⟨r, hr, hdone⟩ := hdecides
  obtain rfl := Option.some.inj ((hanswers k).symm.trans hr)
  refine hdone.imp_right ?_
  rintro ⟨entry, hentry, hfound⟩
  have hscanned : scanned junk answers k = entry := by
    rcases hentry with hread | ⟨rfl, hread, rfl⟩
    · cases k with
      | zero => rw [scanned, hread, Option.getD_some]
      | succ k => rw [scanned, hread, Option.getD_some]
    · rw [scanned, hread, Option.getD_none]
  rwa [hscanned]

/-- INTERNAL: the offsets of entries wrap around. -/
theorem FatDevice.fatDirEntry_mod (v : FatDevice) (junk : Uninit) (c i : ℕ) (d : Disk) {k : ℕ}
    (hk : 27 ≤ k) : v.fatDirEntry junk c (i % 2 ^ k) d = v.fatDirEntry junk c i d := by
  have hoffset : mul32 (i % 2 ^ k) sizeofShortDirEntry = mul32 i sizeofShortDirEntry := by
    obtain ⟨j, rfl⟩ := Nat.exists_eq_add_of_le hk
    have hdvd : 2 ^ 32 ∣ 2 ^ (27 + j) * 32 := ⟨2 ^ j, by rw [Nat.pow_add]; omega⟩
    have hdiv := Nat.div_add_mod i (2 ^ (27 + j))
    unfold mul32 sizeofShortDirEntry
    conv_rhs => rw [← hdiv, Nat.add_mul, Nat.mul_right_comm]
    obtain ⟨t, ht⟩ := hdvd
    rw [ht, Nat.mul_assoc, Nat.mul_add_mod]
  unfold FatDevice.fatDirEntry
  rw [hoffset]

/-- **The scan of a directory ends** if an index decides it.
SRCLINE: fat.c:701-718 -/
theorem FatDevice.fatFileEntry_isSome (hbpc : 0 < v.bytesPClus) (junk : Uninit) (file : FatHandle)
    (d : Disk) : (v.fatFileEntry junk file d).isSome ↔ ScanEnds v junk file d := by
  have hsome := fun i => FatDevice.fatDirEntry_isSome hbpc junk file.dirCluster i d
  choose answers hanswers using hsome
  have hwrapped : ∀ i, v.fatDirEntry junk file.dirCluster (i % 2 ^ 32) d = some (answers i) :=
    fun i => (FatDevice.fatDirEntry_mod v junk file.dirCluster i d (by decide)).trans (hanswers i)
  have hrun : v.fatFileEntry junk file d = v.fatFileEntryLoop junk file.dirCluster
      (fatConvFname file.name) d fatFuel (0 % 2 ^ 32) (answers 0).1 (scanned junk answers 0) := by
    rw [FatDevice.fatFileEntry, hanswers 0, Option.bind_eq_bind, Option.bind_some]
    rfl
  rw [hrun, FatDevice.fatFileEntryLoop_isSome hwrapped fatFuel 0]
  constructor
  · rintro ⟨k, -, -, hdone⟩
    obtain ⟨j, hdecides⟩ : ∃ j, DecidesAt v junk file d j := by
      rcases hdone with hend | hfound
      · exact ⟨k, _, hanswers k, .inl hend⟩
      · obtain ⟨j, -, hdecides⟩ := decidesAt_of_scanned hanswers hfound
        exact ⟨j, hdecides⟩
    -- the index of the same offset that comes first
    obtain ⟨r, hr, hdone⟩ := hdecides
    refine ⟨j % 2 ^ 27, Nat.mod_lt _ (by decide), r, ?_, hdone.imp_right ?_⟩
    · rw [FatDevice.fatDirEntry_mod v junk file.dirCluster j d (Nat.le_refl 27), hr]
    · rintro ⟨entry, hentry | ⟨rfl, hread⟩, hfound⟩
      · exact ⟨entry, .inl hentry, hfound⟩
      · exact ⟨entry, .inr ⟨rfl, hread⟩, hfound⟩
  · rintro ⟨k, hk, hdecides⟩
    exact ⟨k, Nat.zero_le k, by unfold fatFuel; omega, scanned_of_decidesAt hanswers hdecides⟩

/-! ## The three loops -/

/-- A disk on which the entry of the cluster 2 is 2. -/
def selfLink : Disk := fun x => if x = 515 then 0x02 else 0

/-- INTERNAL: neither walk comes to an end mark there. -/
theorem selfLink_not_ends {a : ℕ} (ha : a = 2 ∨ a = 0) : ¬ ChainEnds floppyDrive selfLink a := by
  rintro ⟨n, hn⟩
  induction n generalizing a with
  | zero =>
    rcases ha with rfl | rfl
    · exact absurd hn (by show ¬ fatIsEoc floppy 2 = true; decide)
    · exact absurd hn (by show ¬ fatIsEoc floppy 0 = true; decide)
  | succ n ih =>
    rcases ha with rfl | rfl
    · exact ih (.inl (by decide +kernel)) hn.2
    · exact ih (.inr (by decide +kernel)) hn.2

end LakeOS.Analysis
