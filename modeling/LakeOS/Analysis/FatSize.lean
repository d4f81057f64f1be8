import LakeOS.Model.FatFormat

/-!
# The size of a table when a volume is formatted

`FAT_calc_size` divides the sectors behind the root directory by `256 * sectors_per_cluster +
num_fat`: a sector of a table holds 256 entries, and with it come the clusters of these
entries.  The two entries that belong to no cluster are not counted.
-/

set_option autoImplicit false

namespace LakeOS.Analysis

open LakeOS.Library LakeOS.Model

variable {ctx : FatContext} {rootEntries : ℕ}

/-- The sectors that tables and clusters share.
SRCLINE: fat.c:212 -/
def sharedSectors (boot : BootSector) (rootEntries : ℕ) : ℕ :=
  boot.numSectors - (boot.reservedSectors + rootSectors boot.bytesPerSector rootEntries)

/-- One sector of each table and the clusters with entries in it.
SRCLINE: fat.c:213 -/
def tableGroup (boot : BootSector) : ℕ := 256 * boot.sectorsPerCluster + boot.numFat

/-- What a FAT12 or FAT16 volume with sectors of 512 bytes is formatted with. -/
structure FormatParameters (ctx : FatContext) (rootEntries : ℕ) : Prop where
  type : ctx.type = .fat12 ∨ ctx.type = .fat16
  bytesPerSector : ctx.bootSector.bytesPerSector = 512
  sectorsPerCluster_pos : 1 ≤ ctx.bootSector.sectorsPerCluster
  sectorsPerCluster : ctx.bootSector.sectorsPerCluster < 2 ^ 8
  numFat : ctx.bootSector.numFat < 2 ^ 8
  reservedSectors : ctx.bootSector.reservedSectors < 2 ^ 16
  rootEntries_lt : rootEntries < 2 ^ 16
  numSectors : ctx.bootSector.numSectors < 2 ^ 16
  /-- There are sectors left for the data. -/
  overhead : ctx.bootSector.reservedSectors +
      ctx.bootSector.numFat * (fatCalcSize ctx rootEntries).bootSector.sectorsPerFat +
      rootSectors ctx.bootSector.bytesPerSector rootEntries < ctx.bootSector.numSectors

/-- A table of the volume holds an entry for every cluster that is counted, and the two
entries before these. -/
def HoldsEntries (ctx : FatContext) (rootEntries long : ℕ) : Prop :=
  ∀ c < numClusters ctx.bootSector rootEntries long (sectorsPerFat ctx) + 2,
    fatGetOffset ctx c + 2 ≤ ctx.bootSector.sectorsPerFat * ctx.bootSector.bytesPerSector

namespace FormatParameters

theorem tableGroup_pos (h : FormatParameters ctx rootEntries) : 256 ≤ tableGroup ctx.bootSector :=
  Nat.le_trans (Nat.le_mul_of_pos_right 256 h.sectorsPerCluster_pos) (Nat.le_add_right _ _)

theorem not_fat32 (h : FormatParameters ctx rootEntries) : ctx.type ≠ .fat32 := by
  intro htype
  rcases h.type with h' | h'
  · simp [htype] at h'
  · simp [htype] at h'

/-- INTERNAL: only `sectors_per_fat` is stored. -/
theorem fatCalcSize_eq (h : FormatParameters ctx rootEntries) :
    fatCalcSize ctx rootEntries = { ctx with
      bootSector := { ctx.bootSector with
        sectorsPerFat := (fatCalcSize ctx rootEntries).bootSector.sectorsPerFat } } := by
  unfold fatCalcSize
  simp only [if_neg h.not_fat32]

/-- INTERNAL: the number of groups, rounded up.
SRCLINE: fat.c:212-225 -/
theorem sectorsPerFat_eq (h : FormatParameters ctx rootEntries) :
    (fatCalcSize ctx rootEntries).bootSector.sectorsPerFat =
      (sharedSectors ctx.bootSector rootEntries + (tableGroup ctx.bootSector - 1)) /
        tableGroup ctx.bootSector := by
  have hgroup := h.tableGroup_pos
  have hover := h.overhead
  have hsectors := h.numSectors
  have hcluster := h.sectorsPerCluster
  have hfat := h.numFat
  have hgroup' : tableGroup ctx.bootSector < 2 ^ 17 := by
    unfold tableGroup
    omega
  have hsub : sub32 ctx.bootSector.numSectors (add32 ctx.bootSector.reservedSectors
      (rootSectors ctx.bootSector.bytesPerSector rootEntries)) =
        sharedSectors ctx.bootSector rootEntries := by
    have hadd : add32 ctx.bootSector.reservedSectors
        (rootSectors ctx.bootSector.bytesPerSector rootEntries) = ctx.bootSector.reservedSectors +
          rootSectors ctx.bootSector.bytesPerSector rootEntries := add32_eq (by omega)
    rw [hadd]
    exact sub32_eq (by omega) (by omega)
  have hshared : sharedSectors ctx.bootSector rootEntries < 2 ^ 16 := by
    unfold sharedSectors
    omega
  have hround : sub32 (tableGroup ctx.bootSector) 1 = tableGroup ctx.bootSector - 1 :=
    sub32_eq (by omega) (by omega)
  have hsum : add32 (sharedSectors ctx.bootSector rootEntries) (tableGroup ctx.bootSector - 1) =
      sharedSectors ctx.bootSector rootEntries + (tableGroup ctx.bootSector - 1) :=
    add32_eq (by omega)
  have hquot : (sharedSectors ctx.bootSector rootEntries + (tableGroup ctx.bootSector - 1)) /
      tableGroup ctx.bootSector < 2 ^ 16 := by
    apply Nat.div_lt_of_lt_mul
    have hle := Nat.mul_le_mul_right (2 ^ 16) hgroup
    omega
  unfold fatCalcSize
  simp only [if_neg h.not_fat32]
  change add32 (sub32 _ _) (sub32 (tableGroup ctx.bootSector) 1) / tableGroup ctx.bootSector
    % 2 ^ 16 = _
  rw [hsub, hround, hsum, Nat.mod_eq_of_lt hquot]

/-- INTERNAL: the clusters are those of all the groups but for the last, and of what the last
one has left. -/
theorem numClusters_eq (h : FormatParameters ctx rootEntries) (long : ℕ) :
    numClusters (fatCalcSize ctx rootEntries).bootSector rootEntries long
        (sectorsPerFat (fatCalcSize ctx rootEntries)) =
      (sharedSectors ctx.bootSector rootEntries - ctx.bootSector.numFat *
        (fatCalcSize ctx rootEntries).bootSector.sectorsPerFat) /
          ctx.bootSector.sectorsPerCluster := by
  have hover := h.overhead
  have hsectors := h.numSectors
  have hspf := h.sectorsPerFat_eq
  have hpos : 0 < (fatCalcSize ctx rootEntries).bootSector.sectorsPerFat := by
    have hgroup := h.tableGroup_pos
    rw [hspf]
    apply Nat.div_pos
    · unfold sharedSectors
      omega
    · omega
  have hper : sectorsPerFat (fatCalcSize ctx rootEntries) =
      (fatCalcSize ctx rootEntries).bootSector.sectorsPerFat := if_pos hpos.ne'
  rw [hper, h.fatCalcSize_eq]
  dsimp only
  generalize (fatCalcSize ctx rootEntries).bootSector.sectorsPerFat = f at hover
  have hmul : mul32 f ctx.bootSector.numFat = ctx.bootSector.numFat * f := by
    rw [Nat.mul_comm]
    exact mul32_eq (by rw [Nat.mul_comm]; omega)
  have hadd : add32 ctx.bootSector.reservedSectors (ctx.bootSector.numFat * f) =
      ctx.bootSector.reservedSectors + ctx.bootSector.numFat * f := add32_eq (by omega)
  have hsum : add32 (ctx.bootSector.reservedSectors + ctx.bootSector.numFat * f)
      (rootSectors ctx.bootSector.bytesPerSector rootEntries) = ctx.bootSector.reservedSectors +
        ctx.bootSector.numFat * f + rootSectors ctx.bootSector.bytesPerSector rootEntries :=
    add32_eq (by omega)
  have htotal : totalSectors { ctx.bootSector with sectorsPerFat := f } long =
      ctx.bootSector.numSectors := if_pos (by dsimp only; omega)
  have hoverhead : overheadSectors { ctx.bootSector with sectorsPerFat := f } rootEntries f =
      ctx.bootSector.reservedSectors + ctx.bootSector.numFat * f +
        rootSectors ctx.bootSector.bytesPerSector rootEntries := by
    unfold overheadSectors
    dsimp only
    rw [hmul, hadd, hsum]
  unfold numClusters
  rw [htotal, hoverhead, sub32_eq (by omega) (by omega)]
  congr 1
  unfold sharedSectors
  omega

end FormatParameters

/-- INTERNAL: a group, rounded up, as a quotient and a remainder. -/
theorem roundUp_eq {t m : ℕ} (hm : 0 < m) :
    (t + (m - 1)) / m = if t % m = 0 then t / m else t / m + 1 := by
  have hdiv := Nat.div_add_mod t m
  have hmod := Nat.mod_lt t hm
  split
  next hzero =>
    apply Nat.div_eq_of_lt_le
    · rw [Nat.mul_comm]
      omega
    · rw [Nat.succ_mul, Nat.mul_comm]
      omega
  next hzero =>
    apply Nat.div_eq_of_lt_le
    · rw [Nat.succ_mul, Nat.mul_comm]
      omega
    · rw [Nat.succ_mul, Nat.succ_mul, Nat.mul_comm]
      omega

/-- INTERNAL: **when the entries of a table suffice**: `t` sectors in groups of `n` sectors of
tables and 256 clusters of `s` sectors. -/
theorem entries_suffice_iff {t n s f : ℕ} (hs : 1 ≤ s)
    (hf : f = (t + (256 * s + n - 1)) / (256 * s + n)) (hle : n * f ≤ t) :
    (t - n * f) / s + 2 ≤ 256 * f ↔
      t % (256 * s + n) ≠ 0 ∧ t % (256 * s + n) + s < 256 * s + n := by
  have hm : 0 < 256 * s + n := by omega
  have hdiv := Nat.div_add_mod t (256 * s + n)
  generalize hq : t / (256 * s + n) = q at hdiv
  have hround := roundUp_eq (t := t) hm
  rw [← hf, hq] at hround
  have hsplit : (256 * s + n) * q = s * (256 * q) + n * q := by ring
  rw [hsplit] at hdiv
  by_cases hzero : t % (256 * s + n) = 0
  · rw [if_pos hzero] at hround
    rw [hround]
    have hleft : t - n * q = s * (256 * q) := by omega
    rw [hleft, Nat.mul_div_cancel_left _ hs]
    simp [hzero]
  · rw [if_neg hzero] at hround
    rw [hround]
    rw [hround, Nat.mul_succ] at hle
    have hlast : (t - n * (q + 1)) / s < 256 * q + 255 ↔
        t - n * (q + 1) < s * (256 * q) + 255 * s := by
      rw [Nat.div_lt_iff_lt_mul hs, Nat.add_mul, Nat.mul_comm (256 * q) s]
    have hsucc : n * (q + 1) = n * q + n := Nat.mul_succ n q
    rw [show ((t - n * (q + 1)) / s + 2 ≤ 256 * (q + 1) ↔ (t - n * (q + 1)) / s < 256 * q + 255)
      by omega, hlast]
    omega

/-- INTERNAL: the entries of a FAT12 table take less than what is there for two bytes each. -/
theorem fat12_suffices {t n s f : ℕ} (hs : 1 ≤ s)
    (hf : f = (t + (256 * s + n - 1)) / (256 * s + n)) (hle : n * f < t) :
    1 ≤ f ∧ (t - n * f) / s ≤ 256 * f := by
  have hm : 0 < 256 * s + n := by omega
  have hdiv := Nat.div_add_mod t (256 * s + n)
  have hmod := Nat.mod_lt t hm
  have hround := roundUp_eq (t := t) hm
  rw [← hf] at hround
  have hup : t ≤ (256 * s + n) * f := by
    rw [hround]
    split
    · omega
    · rw [Nat.mul_succ]
      omega
  constructor
  · by_contra hzero
    have h0 : f = 0 := by omega
    simp [h0] at hup
    omega
  · apply Nat.div_le_of_le_mul
    have hsplit : (256 * s + n) * f = s * (256 * f) + n * f := by ring
    omega

/-- **The table of a formatted volume is large enough** on FAT12.  On FAT16 it is, unless the
last group is full but for less than two clusters.
SRCLINE: fat.c:193-226, fat.c:14-45, fat.c:51-63 -/
theorem fatCalcSize_holds_iff (h : FormatParameters ctx rootEntries) (long : ℕ) :
    HoldsEntries (fatCalcSize ctx rootEntries) rootEntries long ↔
      ctx.type = .fat12 ∨
        sharedSectors ctx.bootSector rootEntries % tableGroup ctx.bootSector ≠ 0 ∧
          sharedSectors ctx.bootSector rootEntries % tableGroup ctx.bootSector +
            ctx.bootSector.sectorsPerCluster < tableGroup ctx.bootSector := by
  have hover := h.overhead
  have hsectors := h.numSectors
  have hspf := h.sectorsPerFat_eq
  have hclusters := h.numClusters_eq long
  have hshared : ctx.bootSector.numFat * (fatCalcSize ctx rootEntries).bootSector.sectorsPerFat <
      sharedSectors ctx.bootSector rootEntries := by
    unfold sharedSectors
    omega
  have hsharedLt : sharedSectors ctx.bootSector rootEntries < 2 ^ 16 := by
    unfold sharedSectors
    omega
  unfold HoldsEntries
  rw [hclusters]
  have htype : (fatCalcSize ctx rootEntries).type = ctx.type := by rw [h.fatCalcSize_eq]
  have hbytes : (fatCalcSize ctx rootEntries).bootSector.bytesPerSector = 512 := by
    rw [h.fatCalcSize_eq]
    exact h.bytesPerSector
  unfold fatGetOffset
  rw [htype, hbytes]
  generalize (fatCalcSize ctx rootEntries).bootSector.sectorsPerFat = f at *
  have hcount : (sharedSectors ctx.bootSector rootEntries - ctx.bootSector.numFat * f) /
      ctx.bootSector.sectorsPerCluster < 2 ^ 16 := by
    refine Nat.lt_of_le_of_lt (Nat.div_le_self _ _) ?_
    omega
  rcases h.type with h12 | h16
  · obtain ⟨hpos, hle⟩ := fat12_suffices h.sectorsPerCluster_pos hspf hshared
    simp only [h12, true_or, iff_true]
    intro c hc
    rw [add32_eq (by omega)]
    omega
  · have hiff := entries_suffice_iff h.sectorsPerCluster_pos hspf hshared.le
    rw [h16]
    simp only [reduceCtorEq, false_or]
    change _ ↔ (_ % (256 * ctx.bootSector.sectorsPerCluster + ctx.bootSector.numFat) ≠ 0 ∧ _)
    refine Iff.trans ?_ hiff
    constructor
    · intro hall
      have hlast := hall _ (Nat.lt_succ_self _)
      rw [mul32_eq (by omega)] at hlast
      omega
    · intro hle c hc
      rw [mul32_eq (by omega)]
      omega

/-- A volume of 4161 sectors, 33 of which lie before the tables. -/
def smallVolume : FatContext where
  bootSector := ⟨512, 1, 1, 2, 4161, 0, 0⟩
  sectorsPerFat32 := 0
  rootClusterNum := 0
  type := .fat16
  dataRegionStart := 0
  bytesPClus := 512

theorem smallVolume_parameters : FormatParameters smallVolume 512 where
  type := .inr rfl
  bytesPerSector := rfl
  sectorsPerCluster_pos := by decide
  sectorsPerCluster := by decide
  numFat := by decide
  reservedSectors := by decide
  rootEntries_lt := by decide
  numSectors := by decide
  overhead := by
    have hspf : (fatCalcSize smallVolume 512).bootSector.sectorsPerFat = 16 := by decide +kernel
    rw [hspf]
    decide

theorem fatCalcSize_holds_smallVolume :
    HoldsEntries (fatCalcSize smallVolume 512) 512 0 ↔
      smallVolume.type = .fat12 ∨
        sharedSectors smallVolume.bootSector 512 % tableGroup smallVolume.bootSector ≠ 0 ∧
          sharedSectors smallVolume.bootSector 512 % tableGroup smallVolume.bootSector +
            smallVolume.bootSector.sectorsPerCluster < tableGroup smallVolume.bootSector :=
  fatCalcSize_holds_iff smallVolume_parameters 0

/-- The 4096 clusters of this volume make it FAT16, and its table of 16 sectors has no entry
for the last two. -/
theorem smallVolume_table_too_small :
    FormatParameters smallVolume 512 ∧
      fatInitType (fatCalcSize smallVolume 512).bootSector 512 0 0 = .fat16 ∧
      ¬ HoldsEntries (fatCalcSize smallVolume 512) 512 0 := by
  refine ⟨smallVolume_parameters, by decide, fun hholds => ?_⟩
  have hlast : fatGetOffset (fatCalcSize smallVolume 512) 4097 + 2 ≤ 8192 :=
    hholds 4097 (by decide)
  have hoffset : fatGetOffset (fatCalcSize smallVolume 512) 4097 = 8194 := by decide
  omega

end LakeOS.Analysis
