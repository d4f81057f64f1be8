import LakeOS.Analysis.DeviceWrites

/-!
# The clusters of a file that is appended to

A file should have as many clusters as its bytes take up, and one if it is empty.
`FAT_write` allocates at three places: in front of a store that begins at a cluster boundary,
for each whole cluster, and for the rest.  The first of them and one of the others allocate
for the same bytes.
-/

set_option autoImplicit false

namespace LakeOS.Analysis

open LakeOS.Library LakeOS.Model

variable {ctx : FatContext} {v : FatDevice} {d d₀ : Disk} {file : FatFile} {cs : List ℕ} {old : List Byte}

/-! ## Numbers of clusters -/

/-- The clusters that the bytes of a file take up, at least one. -/
def clustersOf (ctx : FatContext) (size : ℕ) : ℕ :=
  max 1 ((size + ctx.bytesPClus - 1) / ctx.bytesPClus)

/-- The file ends within a cluster, or it is empty and the bytes do not fill one. -/
def ExactCall (ctx : FatContext) (size n : ℕ) : Prop :=
  size % ctx.bytesPClus ≠ 0 ∨ size = 0 ∧ n < ctx.bytesPClus

/-- INTERNAL: a quotient that is rounded up. -/
theorem ceil_div {b r : ℕ} (hr : r < b) (q : ℕ) :
    (q * b + r + b - 1) / b = q + if r = 0 then 0 else 1 := by
  by_cases hzero : r = 0
  · rw [if_pos hzero]
    apply Nat.div_eq_of_lt_le
    · rw [Nat.add_zero]
      omega
    · rw [Nat.add_zero, Nat.add_mul]
      omega
  · rw [if_neg hzero]
    apply Nat.div_eq_of_lt_le
    · rw [Nat.add_mul]
      omega
    · rw [Nat.add_mul, Nat.add_mul]
      omega

/-- INTERNAL: a number as whole clusters and a rest. -/
theorem exists_clusters {b : ℕ} (hb : 0 < b) (n : ℕ) : ∃ q r, r < b ∧ n = q * b + r :=
  ⟨n / b, n % b, Nat.mod_lt n hb, (Nat.div_add_mod' n b).symm⟩

/-- INTERNAL: whole clusters and a rest, divided. -/
theorem div_clusters {b r : ℕ} (hr : r < b) (q : ℕ) : (q * b + r) / b = q := by
  rw [Nat.add_comm, Nat.add_mul_div_right r q (by omega), Nat.div_eq_of_lt hr, Nat.zero_add]

theorem clustersOf_eq {r : ℕ} (hr : r < ctx.bytesPClus) (q : ℕ) :
    clustersOf ctx (q * ctx.bytesPClus + r) = max 1 (q + if r = 0 then 0 else 1) := by
  rw [clustersOf, ceil_div hr]

/-- INTERNAL: within a cluster, with bytes that stay in it. -/
theorem clustersTaken_inside {size n : ℕ} (hpart : size % ctx.bytesPClus ≠ 0)
    (hn : n ≤ ctx.bytesPClus - size % ctx.bytesPClus) : clustersTaken ctx size n = 0 := by
  have hhead : fatHeadLength ctx size n = n := by simp [fatHeadLength, hpart, hn]
  simp [clustersTaken, hhead, hpart]

/-- INTERNAL: within a cluster, with bytes that fill it. -/
theorem clustersTaken_beyond {size q r : ℕ} (hpart : size % ctx.bytesPClus ≠ 0)
    (hr : r < ctx.bytesPClus) (hmore : q * ctx.bytesPClus + r ≠ 0) :
    clustersTaken ctx size
      (ctx.bytesPClus - size % ctx.bytesPClus + (q * ctx.bytesPClus + r)) =
        q + if r = 0 then 0 else 1 := by
  have hsize : size ≠ 0 := by
    rintro rfl
    exact hpart (Nat.zero_mod _)
  have hhead : fatHeadLength ctx size
      (ctx.bytesPClus - size % ctx.bytesPClus + (q * ctx.bytesPClus + r)) =
        ctx.bytesPClus - size % ctx.bytesPClus := by
    rw [fatHeadLength, if_pos hpart, if_neg (by omega)]
  simp only [clustersTaken, hhead, Nat.add_sub_cancel_left, div_clusters hr]
  simp [hpart, hsize]

/-- INTERNAL: at a cluster boundary. -/
theorem clustersTaken_aligned {q q' r : ℕ} (hr : r < ctx.bytesPClus) :
    clustersTaken ctx (q * ctx.bytesPClus) (q' * ctx.bytesPClus + r) =
      (if q = 0 then 0 else 1) + q' + if r = 0 ∨ q = 0 ∧ q' = 0 then 0 else 1 := by
  have hb : ctx.bytesPClus ≠ 0 := by omega
  have hhead : fatHeadLength ctx (q * ctx.bytesPClus) (q' * ctx.bytesPClus + r) = 0 := by
    simp [fatHeadLength]
  simp only [clustersTaken, hhead, Nat.sub_zero, Nat.add_zero, div_clusters hr,
    Nat.add_sub_cancel_left, Nat.mul_mod_left]
  by_cases hq : q = 0
  · by_cases hq' : q' = 0
    · simp [hq, hq']
    · simp [hq, hq', hb]
  · simp [hq, hb]

/-- **One call** takes as many clusters as the file grows by, in exactly these cases. -/
theorem clustersTaken_iff (hb : 0 < ctx.bytesPClus) (size n : ℕ) :
    clustersOf ctx size + clustersTaken ctx size n = clustersOf ctx (size + n) ↔
      ExactCall ctx size n := by
  obtain ⟨q, r, hr, rfl⟩ := exists_clusters hb size
  have hmod : (q * ctx.bytesPClus + r) % ctx.bytesPClus = r := by
    rw [Nat.add_comm, Nat.add_mul_mod_self_right, Nat.mod_eq_of_lt hr]
  unfold ExactCall
  rw [hmod]
  by_cases hzero : r = 0
  · subst hzero
    obtain ⟨q', r', hr', rfl⟩ := exists_clusters hb n
    have hsum : q * ctx.bytesPClus + (q' * ctx.bytesPClus + r') =
        (q + q') * ctx.bytesPClus + r' := by
      rw [Nat.add_mul]
      omega
    have hbefore := clustersOf_eq hb q
    rw [Nat.add_zero] at hbefore ⊢
    rw [clustersTaken_aligned hr', hsum, clustersOf_eq hr', hbefore]
    have hq : q * ctx.bytesPClus = 0 ↔ q = 0 := by simp [hb.ne']
    have hq' : q' * ctx.bytesPClus + r' < ctx.bytesPClus ↔ q' = 0 := by
      constructor
      · intro hlt
        rw [← div_clusters hr' q', Nat.div_eq_of_lt hlt]
      · rintro rfl
        omega
    rw [hq, hq', if_pos rfl]
    generalize hrest : (if r' = 0 then 0 else 1) = rest
    have hle : rest = 0 ∧ r' = 0 ∨ rest = 1 ∧ r' ≠ 0 := by
      by_cases hr0 : r' = 0
      · exact .inl ⟨by rw [← hrest, if_pos hr0], hr0⟩
      · exact .inr ⟨by rw [← hrest, if_neg hr0], hr0⟩
    split_ifs <;> omega
  · have hexact : r ≠ 0 ∨ q * ctx.bytesPClus + r = 0 ∧ n < ctx.bytesPClus := .inl hzero
    apply iff_of_true _ hexact
    by_cases hn : n ≤ ctx.bytesPClus - r
    · rw [clustersTaken_inside (by rw [hmod]; exact hzero) (by rw [hmod]; exact hn),
        clustersOf_eq hr, if_neg hzero]
      by_cases hfull : n = ctx.bytesPClus - r
      · have hsum : q * ctx.bytesPClus + r + n = (q + 1) * ctx.bytesPClus + 0 := by
          rw [Nat.add_mul]
          omega
        rw [hsum, clustersOf_eq hb]
        simp
      · rw [Nat.add_assoc, clustersOf_eq (show r + n < ctx.bytesPClus by omega)]
        simp [hzero]
    · obtain ⟨q', r', hr', hrest⟩ := exists_clusters hb (n - (ctx.bytesPClus - r))
      have hn' : n = ctx.bytesPClus - r + (q' * ctx.bytesPClus + r') := by omega
      have hsum : q * ctx.bytesPClus + r + n = (q + 1 + q') * ctx.bytesPClus + r' := by
        rw [Nat.add_mul, Nat.add_mul]
        omega
      have hpart : (q * ctx.bytesPClus + r) % ctx.bytesPClus ≠ 0 := by
        rw [hmod]
        exact hzero
      have htaken := clustersTaken_beyond hpart hr' (show q' * ctx.bytesPClus + r' ≠ 0 by omega)
      rw [hmod, ← hn'] at htaken
      rw [htaken, hsum, clustersOf_eq hr', clustersOf_eq hr, if_neg hzero]
      split <;> omega

/-! ## A sequence of calls -/

/-- The chain of the file has as many clusters as its bytes take up. -/
def ExactClusters (ctx : FatContext) (file : FatFile) (d : Disk) : Prop :=
  ∃ cs, FatChain ctx d (file.startingClus :: cs) ∧
    (file.startingClus :: cs).length = clustersOf ctx file.size

/-- Each call of `FAT_write` returns, with a chain that has the right number of clusters. -/
def StaysExact (v : FatDevice) : FatFile → List (List Byte) → Disk → Prop
  | _, [], _ => True
  | file, data :: datas, d => ∃ res, v.fatWrite file data d = some res ∧
      ExactClusters v.toFatContext res.2.1 res.2.2 ∧ StaysExact v res.2.1 datas res.2.2

/-- Each call begins within a cluster, or with an empty file that it leaves smaller than one. -/
def ExactCalls (ctx : FatContext) : ℕ → List (List Byte) → Prop
  | _, [] => True
  | size, data :: datas => ExactCall ctx size data.length ∧
      ExactCalls ctx (size + data.length) datas

/-- INTERNAL: there is one chain of a file. -/
theorem exactClusters_iff (hchain : FatChain ctx d (file.startingClus :: cs)) :
    ExactClusters ctx file d ↔
      (file.startingClus :: cs).length = clustersOf ctx file.size := by
  constructor
  · rintro ⟨cs', hchain', hlen⟩
    rw [hchain.1.unique hchain'.1]
    exact hlen
  · intro hlen
    exact ⟨cs, hchain, hlen⟩

/-- INTERNAL: a call and the calls behind it. -/
theorem staysExact_iff_of_appended (h : DeviceLayout v)
    (hwrites : hasFlag file.flags fatFileWrite) (ha : Appended v.toFatContext d₀ file d cs old)
    (hexact : (file.startingClus :: cs).length = clustersOf v.toFatContext file.size)
    {datas : List (List Byte)} (ht : TakesInside v d (file.startingClus :: cs)
      (clustersTakenBy v.toFatContext file.size datas)) :
    StaysExact v file datas d ↔ ExactCalls v.toFatContext file.size datas := by
  induction datas generalizing file d cs old with
  | nil => exact Iff.rfl
  | cons data datas ih =>
    rw [clustersTakenBy] at ht
    obtain ⟨data', hlength, hsame, hnext⟩ :=
      FatDevice.fatWrite_eq h hwrites ha data ht
    obtain ⟨d', cs', hrun, ha', hcount, -⟩ := fatWrite_append h.toFatLayout hwrites ha data'
      (by rw [hlength]; exact fun hne => ht.fields (by omega)) (by rw [hlength]; exact (Nat.le_add_right _ _).trans ht.card_le)
    have ht' := hnext _ cs' hrun ha'.chain
    rw [hlength] at hrun ha' hcount
    have hcall := clustersTaken_iff h.bytesPClus_pos file.size data.length
    rw [StaysExact, ExactCalls, hsame, hrun]
    simp only [Option.some.injEq, exists_eq_left']
    rw [exactClusters_iff ha'.chain, List.length_cons, hcount, ← hcall, ← hexact,
      List.length_cons]
    have heq : cs.length + clustersTaken v.toFatContext file.size data.length + 1 =
        cs.length + 1 + clustersTaken v.toFatContext file.size data.length := by omega
    rw [heq]
    -- the calls behind a call that leaks begin with too many clusters
    apply and_congr_right
    intro hright
    refine ih hwrites ha' ?_ ht'
    rw [List.length_cons, hcount, heq]
    exact hright

/-- A file of one cluster that is full. -/
def fullFile : FatFile := ⟨2, 0, 0, 512, 3⟩

end LakeOS.Analysis
