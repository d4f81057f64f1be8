import LakeOS.Analysis.FatContents

/-!
# Reading inside a FAT file

`FAT_read` goes along the chain of the file, from the position on, in pieces that stay in a
cluster.  Inside the file it gives the bytes of the chain.
-/

set_option autoImplicit false

namespace LakeOS.Analysis

open LakeOS.Library LakeOS.Model

variable {ctx : FatContext} {d d' : Disk} {file : FatFile}

/-! ## `FAT_read` inside the file -/

theorem length_get (r : FatReading) (off n : ℕ) :
    (r.get d off n).data.length = r.data.length + n := by
  simp [FatReading.get]

/-- INTERNAL: an address is always found. -/
theorem fatAbsoluteOffset_isSome (h : FatLayout ctx) {c : ℕ} {cs : List ℕ}
    (hchain : FatChain ctx d (c :: cs)) (offset : ℕ) :
    ∃ off, fatAbsoluteOffset ctx c offset d = some off := by
  by_cases hin : offset < (c :: cs).length * ctx.bytesPClus
  · exact ⟨_, fatAbsoluteOffset_inside h hchain hin⟩
  · obtain ⟨last, -, hpast⟩ := fatAbsoluteOffset_past h hchain (not_lt.mp hin)
    exact ⟨_, hpast⟩

/-- The first `k` bytes from the position on have been read. -/
structure ReadSoFar (ctx : FatContext) (d : Disk) (file : FatFile) (cs : List ℕ) (k : ℕ)
    (r : FatReading) : Prop where
  moved : r.file = { file with position := file.position + k }
  bytes : r.data = ((chainBytes ctx d cs).drop file.position).take k

section

variable {cs : List ℕ} {k n : ℕ} {r : FatReading}

theorem ReadSoFar.length (hsofar : ReadSoFar ctx d file cs k r)
    (hk : file.position + k ≤ cs.length * ctx.bytesPClus) : r.data.length = k := by
  rw [hsofar.bytes, List.length_take, List.length_drop, length_chainBytes]
  omega

/-- **Bytes of one cluster are added to what has been read.** -/
theorem ReadSoFar.get {m : ℕ} (h : FatLayout ctx)
    (hchain : FatChain ctx d (file.startingClus :: cs))
    (hsofar : ReadSoFar ctx d file (file.startingClus :: cs) k r)
    (hin : file.position + k < (file.startingClus :: cs).length * ctx.bytesPClus)
    (hfit : (file.position + k) % ctx.bytesPClus + m ≤ ctx.bytesPClus)
    (hsmall : file.position + k + m < 2 ^ 32) :
    ∃ off, fatAbsoluteOffset ctx r.file.startingClus r.file.position d = some off ∧
      ReadSoFar ctx d file (file.startingClus :: cs) (k + m) (r.get d off.1 m) := by
  have hdiv : (file.position + k) / ctx.bytesPClus < (file.startingClus :: cs).length :=
    (Nat.div_lt_iff_lt_mul h.bytesPClus_pos).mpr hin
  rw [hsofar.moved]
  refine ⟨_, fatAbsoluteOffset_inside h hchain hin, ?_, ?_⟩
  · rw [FatReading.get, hsofar.moved]
    dsimp only
    rw [add32_eq hsmall, Nat.add_assoc]
  · rw [FatReading.get, hsofar.bytes, List.take_add, List.drop_drop,
      chainBytes_piece hdiv hfit]

/-- **The loop of `FAT_read`.**  It goes from cluster to cluster.
SRCLINE: fat.c:963-978 -/
theorem fatReadClusters_spec {fuel : ℕ} (h : FatLayout ctx)
    (hchain : FatChain ctx d (file.startingClus :: cs))
    (hsize : file.size ≤ (file.startingClus :: cs).length * ctx.bytesPClus)
    (hsmall : file.size < 2 ^ 32) (hn : file.position + n ≤ file.size) (hk : k ≤ n)
    (hstart : (file.position + k) % ctx.bytesPClus = 0 ∨ k = n)
    (hsofar : ReadSoFar ctx d file (file.startingClus :: cs) k r) (hfuel : n - k < fuel) :
    ∃ r', fatReadClusters ctx n d fuel r = some r' ∧
      ReadSoFar ctx d file (file.startingClus :: cs) n r' := by
  induction fuel generalizing k r with
  | zero => exact absurd hfuel (Nat.not_lt_zero _)
  | succ fuel ih =>
      have hbpc := h.bytesPClus_pos
      have hlength := hsofar.length (by omega)
      rw [fatReadClusters, hlength]
      split
      next hmore =>
        have hstart' : (file.position + k) % ctx.bytesPClus = 0 := by omega
        obtain ⟨off, hoff, hget⟩ :=
          hsofar.get (m := ctx.bytesPClus) h hchain (by omega) (by omega) (by omega)
        have hlength' := hget.length (by omega)
        have hnext : (file.position + (k + ctx.bytesPClus)) % ctx.bytesPClus = 0 := by
          rw [← Nat.add_assoc, Nat.add_mod_right, hstart']
        rw [hoff, Option.bind_eq_bind, Option.bind_some, FatReading.unlessPast,
          if_neg (by rw [hlength', hget.moved]; dsimp only; omega)]
        exact ih (by omega) (.inl hnext) hget (by omega)
      next hfew =>
        rw [fatReadTail, hlength]
        split
        next hmore =>
          have hstart' : (file.position + k) % ctx.bytesPClus = 0 := by omega
          obtain ⟨off, hoff, hget⟩ :=
            hsofar.get (m := n - k) h hchain (by omega) (by omega) (by omega)
          rw [Nat.add_sub_of_le hk] at hget
          rw [hoff]
          exact ⟨_, rfl, hget⟩
        next hdone =>
          obtain rfl : k = n := by omega
          exact ⟨r, rfl, hsofar⟩

/-- **`FAT_read` inside the file.**
SRCLINE: fat.c:945-981 -/
theorem fatRead_inside (h : FatLayout ctx) (hreads : hasFlag file.flags fatFileRead)
    (hchain : FatChain ctx d (file.startingClus :: cs))
    (hsize : file.size ≤ (file.startingClus :: cs).length * ctx.bytesPClus)
    (hsmall : file.size < 2 ^ 32) (hn : file.position + n ≤ file.size) :
    fatRead ctx file n d =
      some (((chainBytes ctx d (file.startingClus :: cs)).drop file.position).take n,
        { file with position := file.position + n }) := by
  have hbpc := h.bytesPClus_pos
  have hempty : ReadSoFar ctx d file (file.startingClus :: cs) 0 ⟨file, []⟩ := ⟨rfl, rfl⟩
  unfold fatRead
  rw [if_neg (by rw [hreads]; decide)]
  split
  next hoffset =>
    have hin : file.position < (file.startingClus :: cs).length * ctx.bytesPClus := by
      refine Nat.lt_of_le_of_ne (by omega) fun heq => hoffset ?_
      rw [heq, Nat.mul_mod_left]
    have hmod := Nat.mod_lt file.position hbpc
    generalize hm : (if n ≤ ctx.bytesPClus - file.position % ctx.bytesPClus then n
      else ctx.bytesPClus - file.position % ctx.bytesPClus) = m
    have hle : m ≤ n ∧ m ≤ ctx.bytesPClus - file.position % ctx.bytesPClus ∧
        (m = n ∨ m = ctx.bytesPClus - file.position % ctx.bytesPClus) := by
      split at hm <;> omega
    obtain ⟨off, hoff, hget⟩ :=
      hempty.get (m := m) h hchain hin (by rw [Nat.add_zero]; omega) (by omega)
    rw [Nat.zero_add] at hget
    have hlength := hget.length (by omega)
    have hstart : (file.position + m) % ctx.bytesPClus = 0 ∨ m = n := by
      obtain heq | heq := hle.2.2
      · exact .inr heq
      · refine .inl ?_
        have hdiv := Nat.div_add_mod file.position ctx.bytesPClus
        have hsum : file.position + m =
            ctx.bytesPClus * (file.position / ctx.bytesPClus) + ctx.bytesPClus := by omega
        rw [hsum, Nat.add_mod_right, Nat.mul_mod_right]
    obtain ⟨r', hloop, hdone⟩ := fatReadClusters_spec h hchain hsize hsmall hn hle.1 hstart hget
      (show n - m < fatFuel by unfold fatFuel; omega)
    have hoff' : fatAbsoluteOffset ctx file.startingClus file.position d = some off := hoff
    have hrest : (FatReading.get ⟨file, []⟩ d off.1 m).unlessPast
        (fatReadClusters ctx n d fatFuel) = some r' := by
      rw [FatReading.unlessPast, if_neg (by rw [hlength, hget.moved]; dsimp only; omega), hloop]
    rw [hoff', Option.bind_eq_bind, Option.bind_some]
    dsimp only
    rw [hm, hrest, ← hdone.moved, ← hdone.bytes]
    rfl
  next haligned =>
    obtain ⟨off, hoff⟩ := fatAbsoluteOffset_isSome h hchain file.position
    obtain ⟨r', hloop, hdone⟩ := fatReadClusters_spec h hchain hsize hsmall hn (Nat.zero_le n)
      (.inl (not_not.mp haligned)) hempty (show n - 0 < fatFuel by unfold fatFuel; omega)
    rw [hoff, Option.bind_eq_bind, Option.bind_some, hloop, ← hdone.moved, ← hdone.bytes]
    rfl

end

/-! ## Bytes outside the tables -/

/-- INTERNAL: the bytes of data clusters lie outside the tables. -/
theorem chainBytes_of_tables (h : FatLayout ctx) {cs : List ℕ}
    (hout : ∀ x, ¬ InTables ctx x → d' x = d x) : chainBytes ctx d' cs = chainBytes ctx d cs := by
  refine chainBytes_congr fun c _ x hx _ => hout x fun hin => ?_
  have htables := h.tables
  have hend := hin.2
  unfold clusterStart at hx
  omega

/-! A floppy disk with a file of three bytes. -/

def oneCluster : Disk := fun x => if x = 515 then 0xFF else if x = 516 then 0x0F else 0

def shortFile : FatFile := ⟨2, 0, 0, 3, 3⟩

theorem floppy_dataCluster {c : ℕ} (hlow : 2 ≤ c) (hhigh : c < 2849) :
    DataCluster floppy c := ⟨hlow, hhigh⟩

/-- INTERNAL: the chain of one cluster on that disk. -/
theorem oneCluster_chain : FatChain floppy oneCluster [2] := by
  refine ⟨?_, fun c hc => ?_⟩
  · show fatIsEoc floppy (fatGetEntry floppy 0 2 oneCluster) = true
    decide
  · rw [List.mem_singleton.mp hc]
    exact floppy_dataCluster (Nat.le_refl 2) (by decide)

theorem oneCluster_free : 2 ≤ (freeClusters floppy oneCluster).card := by
  have hsub : ({3, 4} : Finset ℕ) ⊆ freeClusters floppy oneCluster := by
    intro c hc
    refine mem_freeClusters.mpr ?_
    obtain rfl | rfl : c = 3 ∨ c = 4 := by simpa using hc
    · exact ⟨floppy_dataCluster (by decide) (by decide), by decide⟩
    · exact ⟨floppy_dataCluster (by decide) (by decide), by decide⟩
  exact Finset.card_le_card hsub

end LakeOS.Analysis
