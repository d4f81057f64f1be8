import LakeOS.Analysis.FatCursor
import LakeOS.Analysis.DirChanges

/-!
# FAT files that are appended to

`Appended` says that the chain of a file begins with the bytes written so far, and that
outside the tables and the clusters of the chain the disk is as it was.  A store inside the
chain at the size of the file and a new cluster behind the chain keep it; the three phases of
`FAT_write` are made of these two.
-/

set_option autoImplicit false

namespace LakeOS.Analysis

open LakeOS.Library LakeOS.Model

variable {ctx : FatContext} {d d' d₀ : Disk} {file : FatFile} {cs : List ℕ} {pos : ℕ}
  {bs old data : List Byte}

/-! ## The bytes of a chain that is written -/

/-- One byte of a chain. -/
theorem getElem_chainBytes {j : ℕ} (hbpc : 0 < ctx.bytesPClus)
    (hj : j < (chainBytes ctx d cs).length) :
    (chainBytes ctx d cs)[j] =
      d (clusterStart ctx (cs.getD (j / ctx.bytesPClus) 0) + j % ctx.bytesPClus) := by
  have hin : j / ctx.bytesPClus < cs.length := by
    rw [length_chainBytes] at hj
    exact (Nat.div_lt_iff_lt_mul hbpc).mpr hj
  have hmod := Nat.mod_lt j hbpc
  have hpiece := chainBytes_piece (d := d) (n := 1) hin (by omega)
  rw [List.take_one_drop_eq_of_lt_length hj] at hpiece
  simpa [Store.read] using hpiece

/-- INTERNAL: a byte of a chain that lies before another one has another address. -/
theorem chain_address_ne (hnodup : cs.Nodup) (hlow : ∀ c ∈ cs, 2 ≤ c) {i j : ℕ}
    (hbpc : 0 < ctx.bytesPClus) (hij : i < j) (hj : j / ctx.bytesPClus < cs.length) {x : ℕ}
    (hx : clusterStart ctx (cs.getD (j / ctx.bytesPClus) 0) + j % ctx.bytesPClus ≤ x)
    (hx' : x < clusterStart ctx (cs.getD (j / ctx.bytesPClus) 0) + ctx.bytesPClus) :
    clusterStart ctx (cs.getD (i / ctx.bytesPClus) 0) + i % ctx.bytesPClus ≠ x := by
  have hle : i / ctx.bytesPClus ≤ j / ctx.bytesPClus := Nat.div_le_div_right hij.le
  have hmod := Nat.mod_lt i hbpc
  by_cases hsame : i / ctx.bytesPClus = j / ctx.bytesPClus
  · have hi := Nat.div_add_mod i ctx.bytesPClus
    have hj := Nat.div_add_mod j ctx.bytesPClus
    rw [hsame] at hi ⊢
    omega
  · have hi : i / ctx.bytesPClus < cs.length := by omega
    rw [List.getD_eq_getElem _ _ hj] at hx hx'
    rw [List.getD_eq_getElem _ _ hi]
    have hne : cs[i / ctx.bytesPClus] ≠ cs[j / ctx.bytesPClus] := by
      intro heq
      exact hsame ((hnodup.getElem_inj_iff).mp heq)
    have hapart := clusterStart_apart ctx (hlow _ (List.getElem_mem hi))
      (hlow _ (List.getElem_mem hj)) hne
    omega

/-- **A store behind the first `pos` bytes of a chain** keeps these and puts its own behind
them. -/
theorem chainBytes_store (hnodup : cs.Nodup) (hlow : ∀ c ∈ cs, 2 ≤ c)
    (hbpc : 0 < ctx.bytesPClus) (hin : pos / ctx.bytesPClus < cs.length)
    (hfit : pos % ctx.bytesPClus + bs.length ≤ ctx.bytesPClus) :
    (chainBytes ctx (d.write (clusterStart ctx (cs.getD (pos / ctx.bytesPClus) 0) +
      pos % ctx.bytesPClus) bs) cs).take (pos + bs.length) =
      (chainBytes ctx d cs).take pos ++ bs := by
  rw [List.take_add, chainBytes_piece hin hfit, Store.read_write_self]
  congr 1
  apply List.ext_getElem
  · simp only [List.length_take, length_chainBytes]
  · intro i hi hi'
    rw [List.length_take] at hi
    have hpos : i < pos := by omega
    rw [List.getElem_take, List.getElem_take, getElem_chainBytes hbpc, getElem_chainBytes hbpc,
      Store.write_of_notMem]
    by_contra hcon
    exact chain_address_ne hnodup hlow hbpc hpos hin (by omega) (by omega) rfl

/-! ## A file that has been appended to -/

/-- An address of a cluster of the list. -/
def InClusters (ctx : FatContext) (cs : List ℕ) (x : ℕ) : Prop :=
  ∃ c ∈ cs, clusterStart ctx c ≤ x ∧ x < clusterStart ctx c + ctx.bytesPClus

/-- The chain of the file begins with `bytes`, its contents, and outside of the tables and
the chain the disk is as in `d₀`. -/
structure Appended (ctx : FatContext) (d₀ : Disk) (file : FatFile) (d : Disk) (cs : List ℕ)
    (bytes : List Byte) : Prop where
  chain : FatChain ctx d (file.startingClus :: cs)
  fits : file.size ≤ (file.startingClus :: cs).length * ctx.bytesPClus
  contents : (chainBytes ctx d (file.startingClus :: cs)).take file.size = bytes
  frame : ∀ x, ¬ InTables ctx x → ¬ InClusters ctx (file.startingClus :: cs) x → d x = d₀ x

namespace Appended

theorem capacity_lt (h : FatLayout ctx) (ha : Appended ctx d₀ file d cs old) :
    (file.startingClus :: cs).length * ctx.bytesPClus < 2 ^ 32 := by
  have hbytes := ha.chain.bytes_le
  have hvolume := h.volume
  omega

/-- INTERNAL: a chain that is one cluster longer has room behind the size. -/
theorem room (h : FatLayout ctx) (ha : Appended ctx d₀ file d cs old) (new : ℕ) :
    file.size < (file.startingClus :: (cs ++ [new])).length * ctx.bytesPClus := by
  have hfits := ha.fits
  have hbpc := h.bytesPClus_pos
  rw [List.length_cons] at hfits
  rw [List.length_cons, List.length_append, List.length_singleton, Nat.succ_mul]
  omega

/-- INTERNAL: **the bytes of one store.** -/
theorem store (h : FatLayout ctx) (ha : Appended ctx d₀ file d cs old) (bs : List Byte)
    (hroom : file.size < (file.startingClus :: cs).length * ctx.bytesPClus)
    (hfit : file.size % ctx.bytesPClus + bs.length ≤ ctx.bytesPClus) :
    ∃ off, fatAbsoluteOffset ctx file.startingClus file.size d = some off ∧
      add32 file.size bs.length = file.size + bs.length ∧
      Appended ctx d₀ { file with size := file.size + bs.length } (d.write off.1 bs) cs
        (old ++ bs) ∧ freeClusters ctx (d.write off.1 bs) = freeClusters ctx d := by
  have hbpc := h.bytesPClus_pos
  have hin : file.size / ctx.bytesPClus < (file.startingClus :: cs).length :=
    (Nat.div_lt_iff_lt_mul hbpc).mpr hroom
  have hcapacity := ha.capacity_lt h
  -- the store stays in the cluster it begins in
  have hfits : file.size + bs.length ≤ (file.startingClus :: cs).length * ctx.bytesPClus := by
    have hmul := Nat.mul_le_mul_right ctx.bytesPClus hin
    have hdiv := Nat.div_add_mod file.size ctx.bytesPClus
    rw [Nat.succ_mul, Nat.mul_comm] at hmul
    omega
  refine ⟨_, fatAbsoluteOffset_inside h ha.chain hroom, add32_eq (by omega), ?_, ?_⟩
  all_goals
    dsimp only
    generalize hc : (file.startingClus :: cs).getD (file.size / ctx.bytesPClus) 0 = c
    have hmem : c ∈ file.startingClus :: cs := by
      rw [← hc, List.getD_eq_getElem _ _ hin]
      exact List.getElem_mem hin
    have hsame : ∀ x, ¬ (clusterStart ctx c ≤ x ∧ x < clusterStart ctx c + ctx.bytesPClus) →
        d.write (clusterStart ctx c + file.size % ctx.bytesPClus) bs x = d x := by
      intro x hx
      exact Store.write_of_notMem d bs (by omega)
    have hentry : ∀ e, DataCluster ctx e → fatGetEntry ctx 0 e
        (d.write (clusterStart ctx c + file.size % ctx.bytesPClus) bs) = fatGetEntry ctx 0 e d :=
      fun e he => fatGetEntry_of_tables h
        (fun x hx => hsame x fun hcluster => h.not_inTables hcluster.1 hx) he
  · refine ⟨ha.chain.congr fun e he => hentry e (ha.chain.2 e he), hfits, ?_, ?_⟩
    · rw [← hc, ← ha.contents]
      exact chainBytes_store ha.chain.1.nodup (fun e he => (ha.chain.2 e he).1) hbpc hin hfit
    · intro x hx hout
      exact (hsame x fun hcluster => hout ⟨c, hmem, hcluster⟩).trans (ha.frame x hx hout)
  · ext e
    rw [mem_freeClusters, mem_freeClusters]
    exact and_congr_right fun he => by rw [hentry e he]

/-- INTERNAL: **a new cluster behind the chain.** -/
theorem allocate (h : FatLayout ctx) (hfields : FieldsFit ctx)
    (ha : Appended ctx d₀ file d cs old) (hfree : 1 ≤ (freeClusters ctx d).card) :
    ∃ d' new, fatAllocateCluster ctx file.startingClus d = some d' ∧
      Appended ctx d₀ file d' (cs ++ [new]) old ∧
      (freeClusters ctx d).card ≤ (freeClusters ctx d').card + 1 := by
  obtain ⟨d', new, hrun, hchain, hout, hcard⟩ :=
    fatAllocateCluster_spec h hfields ha.chain (Finset.card_pos.mp hfree)
  refine ⟨d', new, hrun, ⟨hchain, ?_, ?_, fun x hx hcluster => ?_⟩, hcard⟩
  · refine ha.fits.trans (Nat.mul_le_mul_right _ ?_)
    simp
  · rw [← List.cons_append, chainBytes_append, chainBytes_of_tables h hout,
      List.take_append_of_le_length, ha.contents]
    rw [length_chainBytes]
    exact ha.fits
  · rw [hout x hx]
    apply ha.frame x hx
    rintro ⟨c, hc, hin⟩
    apply hcluster
    exact ⟨c, List.mem_append_left [new] hc, hin⟩

end Appended

/-! ## The phases of `FAT_write` -/

/-- The bytes up to the next cluster. -/
def fatHeadLength (ctx : FatContext) (size n : ℕ) : ℕ :=
  if size % ctx.bytesPClus ≠ 0 then
    if n ≤ ctx.bytesPClus - size % ctx.bytesPClus then n
    else ctx.bytesPClus - size % ctx.bytesPClus
  else 0

/-- INTERNAL: bytes that are stored make the file longer. -/
theorem fatWriting_put {w : FatWriting} {off n : ℕ}
    (hadd : add32 w.file.size n = w.file.size + n) :
    w.put off n = ⟨{ w.file with size := w.file.size + n }, w.data.drop n,
      w.disk.write off (w.data.take n)⟩ := by
  rw [FatWriting.put, hadd]

section

variable (h : FatLayout ctx)
include h

/-- INTERNAL: behind the head the file ends at a cluster boundary, or nothing is left.
SRCLINE: fat.c:915-922 -/
theorem fatWriteHead_append (ha : Appended ctx d₀ file d cs old) (data : List Byte)
    (off : ℕ × Option ℕ) (hoff : file.size % ctx.bytesPClus ≠ 0 →
      fatAbsoluteOffset ctx file.startingClus file.size d = some off) :
    let n := fatHeadLength ctx file.size data.length
    let w := fatWriteHead ctx off.1 ⟨file, data, d⟩
    w.file = { file with size := file.size + n } ∧ w.data = data.drop n ∧
      Appended ctx d₀ w.file w.disk cs (old ++ data.take n) ∧
      freeClusters ctx w.disk = freeClusters ctx d ∧
      (w.file.size % ctx.bytesPClus = 0 ∨ w.data = []) := by
  intro n w
  have hbpc := h.bytesPClus_pos
  by_cases hoffset : file.size % ctx.bytesPClus ≠ 0
  · have hn : n = if data.length ≤ ctx.bytesPClus - file.size % ctx.bytesPClus then data.length
        else ctx.bytesPClus - file.size % ctx.bytesPClus := if_pos hoffset
    have hw : w = FatWriting.put ⟨file, data, d⟩ off.1 n := by
      rw [hn]
      exact if_pos hoffset
    have hmod := Nat.mod_lt file.size hbpc
    have hle : n ≤ data.length ∧ n ≤ ctx.bytesPClus - file.size % ctx.bytesPClus ∧
        (n = data.length ∨ n = ctx.bytesPClus - file.size % ctx.bytesPClus) := by
      rw [hn]
      split <;> omega
    have hlength : (data.take n).length = n := by
      rw [List.length_take]
      omega
    have hroom : file.size < (file.startingClus :: cs).length * ctx.bytesPClus := by
      refine Nat.lt_of_le_of_ne ha.fits fun heq => hoffset ?_
      rw [heq, Nat.mul_mod_left]
    obtain ⟨off', hoff', hadd, hstore, hfree⟩ :=
      ha.store h (data.take n) hroom (by rw [hlength]; omega)
    obtain rfl := Option.some.inj ((hoff hoffset).symm.trans hoff')
    rw [hlength] at hadd hstore
    rw [hw, fatWriting_put hadd]
    refine ⟨rfl, rfl, hstore, hfree, ?_⟩
    obtain hall | hrest := hle.2.2
    · right
      rw [hall, List.drop_length]
    · left
      have hdiv := Nat.div_add_mod file.size ctx.bytesPClus
      have hsum : file.size + n =
          ctx.bytesPClus * (file.size / ctx.bytesPClus) + ctx.bytesPClus := by omega
      rw [hsum, Nat.add_mod_right, Nat.mul_mod_right]
  · have hn : n = 0 := if_neg hoffset
    have hw : w = ⟨file, data, d⟩ := if_neg hoffset
    rw [hw, hn, List.take_zero, List.append_nil]
    exact ⟨rfl, rfl, ha, rfl, .inl (not_not.mp hoffset)⟩

/-- INTERNAL: each round takes a cluster and fills one.
SRCLINE: fat.c:924-930 -/
theorem fatWriteClusters_append (fuel : ℕ) {w : FatWriting}
    (ha : Appended ctx d₀ w.file w.disk cs old)
    (halign : w.file.size % ctx.bytesPClus = 0 ∨ w.data.length < ctx.bytesPClus)
    (hfields : w.data.length / ctx.bytesPClus ≠ 0 → FieldsFit ctx)
    (hfree : w.data.length / ctx.bytesPClus ≤ (freeClusters ctx w.disk).card)
    (hfuel : w.data.length / ctx.bytesPClus < fuel) :
    ∃ w' cs', fatWriteClusters ctx fuel w = some w' ∧
      w'.file = { w.file with
        size := w.file.size + w.data.length / ctx.bytesPClus * ctx.bytesPClus } ∧
      w'.data = w.data.drop (w.data.length / ctx.bytesPClus * ctx.bytesPClus) ∧
      Appended ctx d₀ w'.file w'.disk cs'
        (old ++ w.data.take (w.data.length / ctx.bytesPClus * ctx.bytesPClus)) ∧
      cs'.length = cs.length + w.data.length / ctx.bytesPClus ∧
      (freeClusters ctx w.disk).card ≤
        (freeClusters ctx w'.disk).card + w.data.length / ctx.bytesPClus := by
  have hbpc := h.bytesPClus_pos
  induction fuel generalizing w cs old with
  | zero => exact absurd hfuel (Nat.not_lt_zero _)
  | succ fuel ih =>
      rw [fatWriteClusters]
      by_cases hmore : ctx.bytesPClus ≤ w.data.length
      · have hdiv := Nat.div_eq_sub_div hbpc hmore
        generalize hq : (w.data.length - ctx.bytesPClus) / ctx.bytesPClus = q at hdiv
        rw [hdiv] at hfields hfree hfuel ⊢
        have hfit := hfields (Nat.succ_ne_zero q)
        obtain ⟨d', new, hallocate, ha', hcard⟩ := ha.allocate h hfit (by omega)
        have hfirst : (w.data.take ctx.bytesPClus).length = ctx.bytesPClus := by
          rw [List.length_take]
          exact Nat.min_eq_left hmore
        have haligned : w.file.size % ctx.bytesPClus = 0 := halign.resolve_right (by omega)
        obtain ⟨off, hoff, hadd, hstore, hkept⟩ := ha'.store h (w.data.take ctx.bytesPClus)
          (ha.room h new) (by rw [hfirst, haligned]; omega)
        rw [hfirst] at hadd hstore
        have hlength : (w.data.drop ctx.bytesPClus).length = w.data.length - ctx.bytesPClus :=
          List.length_drop
        have hnext : (w.file.size + ctx.bytesPClus) % ctx.bytesPClus = 0 := by
          rw [Nat.add_mod_right]
          exact haligned
        obtain ⟨w', cs', hrun, hfile, hdata, hdone, hcount, hcard'⟩ := ih
          (w := ⟨{ w.file with size := w.file.size + ctx.bytesPClus }, w.data.drop ctx.bytesPClus,
            d'.write off.1 (w.data.take ctx.bytesPClus)⟩) hstore (.inl hnext)
          (fun _ => hfit) (by rw [hkept, hlength, hq]; omega) (by rw [hlength, hq]; omega)
        dsimp only at hfile hdata hdone hcount hcard'
        rw [hlength, hq] at hfile hdata hdone hcount hcard'
        rw [hkept] at hcard'
        rw [List.length_append, List.length_singleton] at hcount
        refine ⟨w', cs', ?_, ?_, ?_, ?_, by omega, by omega⟩
        · rw [if_pos hmore, hallocate, Option.bind_eq_bind, Option.bind_some, hoff,
            Option.bind_eq_bind, Option.bind_some,
            fatWriting_put (w := { w with disk := d' }) hadd]
          exact hrun
        · rw [hfile, Nat.succ_mul, Nat.add_assoc, Nat.add_comm ctx.bytesPClus]
        · rw [hdata, List.drop_drop, Nat.succ_mul, Nat.add_comm ctx.bytesPClus]
        · rw [Nat.succ_mul, Nat.add_comm _ ctx.bytesPClus, List.take_add, ← List.append_assoc]
          exact hdone
      · have hzero : w.data.length / ctx.bytesPClus = 0 := Nat.div_eq_of_lt (not_le.mp hmore)
        rw [if_neg hmore, hzero, Nat.zero_mul, List.take_zero, List.append_nil]
        exact ⟨w, cs, rfl, rfl, rfl, ha, rfl, Nat.le_refl _⟩

omit h in
/-- INTERNAL: the rest is stored in one cluster.
SRCLINE: fat.c:932-940 -/
theorem fatWriteTail_eq {w : FatWriting} (hmore : w.data.length ≠ 0) :
    fatWriteTail ctx w =
      (if w.file.size ≠ 0 then fatAllocateCluster ctx w.file.startingClus w.disk
        else some w.disk).bind fun d =>
          (fatAbsoluteOffset ctx w.file.startingClus w.file.size d).bind fun off =>
            some (FatWriting.put { w with disk := d } off.1 w.data.length) := by
  unfold fatWriteTail
  rw [if_pos hmore]
  split
  next => rfl
  next => rfl

/-- INTERNAL: the rest goes into a new cluster, or into the first one.
SRCLINE: fat.c:932-940 -/
theorem fatWriteTail_append {w : FatWriting} (ha : Appended ctx d₀ w.file w.disk cs old)
    (halign : w.file.size % ctx.bytesPClus = 0 ∨ w.data = [])
    (hlt : w.data.length < ctx.bytesPClus)
    (hfields : w.data.length ≠ 0 ∧ w.file.size ≠ 0 → FieldsFit ctx)
    (hfree : (if w.data.length ≠ 0 ∧ w.file.size ≠ 0 then 1 else 0) ≤
      (freeClusters ctx w.disk).card) :
    ∃ w' cs', fatWriteTail ctx w = some w' ∧
      w'.file = { w.file with size := w.file.size + w.data.length } ∧ w'.data = [] ∧
      Appended ctx d₀ w'.file w'.disk cs' (old ++ w.data) ∧
      (cs'.length = cs.length + if w.data.length ≠ 0 ∧ w.file.size ≠ 0 then 1 else 0) ∧
      (freeClusters ctx w.disk).card ≤ (freeClusters ctx w'.disk).card +
        if w.data.length ≠ 0 ∧ w.file.size ≠ 0 then 1 else 0 := by
  have hbpc := h.bytesPClus_pos
  by_cases hmore : w.data.length ≠ 0
  · rw [fatWriteTail_eq hmore]
    have haligned : w.file.size % ctx.bytesPClus = 0 :=
      halign.resolve_right fun hnil => hmore (by rw [hnil]; rfl)
    -- a cluster for the rest
    obtain ⟨d', cs', hdisk, ha', hroom, hcount, hcard⟩ : ∃ d' cs',
        (if w.file.size ≠ 0 then fatAllocateCluster ctx w.file.startingClus w.disk
          else some w.disk) = some d' ∧ Appended ctx d₀ w.file d' cs' old ∧
        w.file.size < (w.file.startingClus :: cs').length * ctx.bytesPClus ∧
        (cs'.length = cs.length + if w.data.length ≠ 0 ∧ w.file.size ≠ 0 then 1 else 0) ∧
        (freeClusters ctx w.disk).card ≤ (freeClusters ctx d').card +
          if w.data.length ≠ 0 ∧ w.file.size ≠ 0 then 1 else 0 := by
      by_cases hsize : w.file.size ≠ 0
      · have hboth : w.data.length ≠ 0 ∧ w.file.size ≠ 0 := ⟨hmore, hsize⟩
        rw [if_pos hboth] at hfree
        obtain ⟨d', new, hallocate, ha', hcard⟩ := ha.allocate h (hfields hboth) hfree
        refine ⟨d', _, by rw [if_pos hsize]; exact hallocate, ha', ha.room h new, ?_,
          by rwa [if_pos hboth]⟩
        rw [if_pos hboth, List.length_append, List.length_singleton]
      · refine ⟨w.disk, cs, if_neg hsize, ha, ?_, ?_, Nat.le_add_right _ _⟩
        · rw [not_not.mp hsize, List.length_cons]
          exact Nat.mul_pos (Nat.succ_pos _) hbpc
        · rw [if_neg fun hboth => hsize hboth.2, Nat.add_zero]
    obtain ⟨off, hoff, hadd, hstore, hkept⟩ :=
      ha'.store h w.data hroom (by rw [haligned]; omega)
    rw [hdisk, Option.bind_some, hoff, Option.bind_some]
    rw [fatWriting_put (w := { w with disk := d' }) hadd]
    refine ⟨_, cs', rfl, rfl, List.drop_length, ?_, hcount, ?_⟩
    · dsimp only
      rw [List.take_length]
      exact hstore
    · dsimp only
      rw [List.take_length, hkept]
      exact hcard
  · have hnil : w.data = [] := List.length_eq_zero_iff.mp (not_not.mp hmore)
    refine ⟨w, cs, if_neg hmore, ?_, hnil, ?_, ?_, Nat.le_add_right _ _⟩
    · rw [not_not.mp hmore]
      rfl
    · rw [hnil, List.append_nil]
      exact ha
    · rw [if_neg fun hboth => hmore hboth.1, Nat.add_zero]

/-! ## One call of `FAT_write` -/

omit h in
/-- The clusters that `FAT_write` of `n` bytes allocates: one in front of the head, one for
each whole cluster, one for the rest. -/
def clustersTaken (ctx : FatContext) (size n : ℕ) : ℕ :=
  let head := fatHeadLength ctx size n
  let whole := (n - head) / ctx.bytesPClus
  (if size ≠ 0 ∧ size % ctx.bytesPClus = 0 then 1 else 0) + whole +
    if n - head - whole * ctx.bytesPClus ≠ 0 ∧ size + head + whole * ctx.bytesPClus ≠ 0 then 1
    else 0

/-- INTERNAL: where the file ends at a cluster boundary a cluster is allocated first.
SRCLINE: fat.c:911-912 -/
theorem fatWriteFirst_append (ha : Appended ctx d₀ file d cs old)
    (hfields : file.size ≠ 0 ∧ file.size % ctx.bytesPClus = 0 → FieldsFit ctx)
    (hfree : (if file.size ≠ 0 ∧ file.size % ctx.bytesPClus = 0 then 1 else 0) ≤
      (freeClusters ctx d).card) :
    ∃ d' cs', (if file.size ≠ 0 ∧ file.size % ctx.bytesPClus = 0 then
        fatAllocateCluster ctx file.startingClus d else some d) = some d' ∧
      Appended ctx d₀ file d' cs' old ∧ (file.size % ctx.bytesPClus ≠ 0 → d' = d) ∧
      (cs'.length = cs.length +
        if file.size ≠ 0 ∧ file.size % ctx.bytesPClus = 0 then 1 else 0) ∧
      (freeClusters ctx d).card ≤ (freeClusters ctx d').card +
        if file.size ≠ 0 ∧ file.size % ctx.bytesPClus = 0 then 1 else 0 := by
  by_cases hfirst : file.size ≠ 0 ∧ file.size % ctx.bytesPClus = 0
  · rw [if_pos hfirst] at hfree
    obtain ⟨d', new, hallocate, ha', hcard⟩ := ha.allocate h (hfields hfirst) hfree
    refine ⟨d', _, by rw [if_pos hfirst]; exact hallocate, ha', fun hne => ?_, ?_, ?_⟩
    · exact absurd hfirst.2 hne
    · rw [if_pos hfirst, List.length_append, List.length_singleton]
    · rwa [if_pos hfirst]
  · exact ⟨d, cs, if_neg hfirst, ha, fun _ => rfl, (by rw [if_neg hfirst, Nat.add_zero]),
      Nat.le_add_right _ _⟩

omit h in
/-- INTERNAL: the phases one after the other.
SRCLINE: fat.c:905-943 -/
theorem fatWrite_eq (hwrites : hasFlag file.flags fatFileWrite) {off : ℕ × Option ℕ}
    (hoff : fatAbsoluteOffset ctx file.startingClus file.size d = some off) :
    fatWrite ctx file data d =
      (if file.size ≠ 0 ∧ file.size % ctx.bytesPClus = 0 then
        fatAllocateCluster ctx file.startingClus d else some d).bind fun d =>
          (fatWriteClusters ctx fatFuel (fatWriteHead ctx off.1 ⟨file, data, d⟩)).bind fun w =>
            (fatWriteTail ctx w).bind fun w =>
              some (data.length - w.data.length, w.file, w.disk) := by
  unfold fatWrite
  rw [if_neg (by rw [hwrites]; decide), hoff, Option.bind_eq_bind, Option.bind_some]
  split
  next => rfl
  next => rfl

omit h in
theorem fatHeadLength_le (ctx : FatContext) (size n : ℕ) : fatHeadLength ctx size n ≤ n := by
  unfold fatHeadLength
  split
  next => split <;> omega
  next => exact Nat.zero_le n

theorem freeClusters_card_lt (d : Disk) : (freeClusters ctx d).card < fatFuel := by
  have hle : (freeClusters ctx d).card ≤ (Finset.Ico 2 (dataClusters ctx + 2)).card :=
    Finset.card_filter_le _ _
  have hcount := h.dataClusters_lt
  rw [Nat.card_Ico] at hle
  unfold fatFuel
  omega

/-- **`FAT_write` appends.**
SRCLINE: fat.c:905-943 -/
theorem fatWrite_append (hwrites : hasFlag file.flags fatFileWrite)
    (ha : Appended ctx d₀ file d cs old) (data : List Byte)
    (hfields : clustersTaken ctx file.size data.length ≠ 0 → FieldsFit ctx)
    (hfree : clustersTaken ctx file.size data.length ≤ (freeClusters ctx d).card) :
    ∃ d' cs', fatWrite ctx file data d =
        some (data.length, { file with size := file.size + data.length }, d') ∧
      Appended ctx d₀ { file with size := file.size + data.length } d' cs' (old ++ data) ∧
      cs'.length = cs.length + clustersTaken ctx file.size data.length ∧
      (freeClusters ctx d).card ≤
        (freeClusters ctx d').card + clustersTaken ctx file.size data.length := by
  have hbpc := h.bytesPClus_pos
  obtain ⟨off, hoff⟩ := fatAbsoluteOffset_isSome h ha.chain file.size
  unfold clustersTaken at hfields hfree ⊢
  dsimp only at hfields hfree ⊢
  have hfree₁ := ((Nat.le_add_right _ _).trans (Nat.le_add_right _ _)).trans hfree
  obtain ⟨d₁, cs₁, hfirst, ha₁, hsame, hcount₁, hcard₁⟩ :=
    fatWriteFirst_append h ha
      (fun hfirst => hfields (by
        rw [if_pos hfirst, Nat.add_assoc, Nat.one_add]
        exact Nat.succ_ne_zero _)) hfree₁
  generalize (if file.size ≠ 0 ∧ file.size % ctx.bytesPClus = 0 then (1 : ℕ) else 0) = first
    at hfields hfree hcount₁ hcard₁ ⊢
  -- the head
  obtain ⟨hfile₂, hdata₂, ha₂, hkept₂, halign₂⟩ :=
    fatWriteHead_append h ha₁ data off fun hne => by rw [hsame hne]; exact hoff
  have hhead := fatHeadLength_le ctx file.size data.length
  generalize hw : fatWriteHead ctx off.1 ⟨file, data, d₁⟩ = w at hfile₂ hdata₂ ha₂ hkept₂ halign₂
  generalize fatHeadLength ctx file.size data.length = head at *
  have hlength₂ : w.data.length = data.length - head := by rw [hdata₂, List.length_drop]
  have hwhole := Nat.div_mul_le_self (data.length - head) ctx.bytesPClus
  have hrest : data.length - head - (data.length - head) / ctx.bytesPClus * ctx.bytesPClus <
      ctx.bytesPClus := by
    have hmod := Nat.mod_lt (data.length - head) hbpc
    have hdiv := Nat.div_add_mod (data.length - head) ctx.bytesPClus
    rw [Nat.mul_comm] at hdiv
    omega
  -- the whole clusters
  have hcount : w.data.length / ctx.bytesPClus = (data.length - head) / ctx.bytesPClus := by
    rw [hlength₂]
  generalize (data.length - head) / ctx.bytesPClus = q at *
  have hlt := freeClusters_card_lt h d
  obtain ⟨w₃, cs₃, hrun₃, hfile₃, hdata₃, ha₃, hcount₃, hcard₃⟩ :=
    fatWriteClusters_append h fatFuel ha₂
      (halign₂.imp_right fun hnil => by rw [hnil]; exact hbpc)
      (by rw [hcount]; exact fun hne => hfields (by omega)) (by rw [hcount, hkept₂]; omega)
      (by rw [hcount]; omega)
  rw [hcount] at hfile₃ hdata₃ ha₃ hcount₃ hcard₃
  rw [hkept₂] at hcard₃
  have hlength₃ : w₃.data.length = data.length - head - q * ctx.bytesPClus := by
    rw [hdata₃, List.length_drop, hlength₂]
  have hsize₃ : w₃.file.size = file.size + head + q * ctx.bytesPClus := by
    rw [hfile₃, hfile₂]
  -- the rest
  have halign₃ : w₃.file.size % ctx.bytesPClus = 0 ∨ w₃.data = [] := by
    rw [hfile₃, hdata₃]
    refine halign₂.imp (fun haligned => ?_) fun hnil => ?_
    · exact (Nat.add_mul_mod_self_right _ _ _).trans haligned
    · rw [hnil, List.drop_nil]
  rw [← hlength₃, ← hsize₃] at hfields hfree ⊢
  obtain ⟨w₄, cs₄, hrun₄, hfile₄, hdata₄, ha₄, hcount₄, hcard₄⟩ :=
    fatWriteTail_append h ha₃ halign₃ (by omega)
      (fun hboth => hfields (by rw [if_pos hboth]; omega)) (by omega)
  have hfile : w₄.file = { file with size := file.size + data.length } := by
    have hsum : file.size + head + q * ctx.bytesPClus + w₃.data.length =
        file.size + data.length := by omega
    rw [hfile₄, hsize₃, hsum, hfile₃, hfile₂]
  have hcontents : old ++ data.take head ++ w.data.take (q * ctx.bytesPClus) ++ w₃.data =
      old ++ data := by
    rw [hdata₃, List.append_assoc _ (w.data.take _), List.take_append_drop, hdata₂,
      List.append_assoc, List.take_append_drop]
  rw [hcontents, hfile] at ha₄
  refine ⟨w₄.disk, cs₄, ?_, ha₄, by omega, by omega⟩
  rw [fatWrite_eq hwrites hoff, hfirst, Option.bind_some, hw, hrun₃, Option.bind_some, hrun₄,
    Option.bind_some, hdata₄, hfile]
  rfl

/-! ## Writing, and reading from the beginning -/

omit h in
/-- `FAT_write` of one list of bytes after the other: the numbers returned, the file and the
disk. -/
def fatWrites (ctx : FatContext) :
    FatFile → List (List Byte) → Disk → Option (List ℕ × FatFile × Disk)
  | file, [], d => some ([], file, d)
  | file, data :: datas, d =>
      (fatWrite ctx file data d).bind fun res =>
        (fatWrites ctx res.2.1 datas res.2.2).map fun rest => (res.1 :: rest.1, rest.2)

omit h in
/-- `FAT_read` of one length after the other: all bytes that are read. -/
def fatReads (ctx : FatContext) : FatFile → List ℕ → Disk → Option (List Byte)
  | _, [], _ => some []
  | file, len :: lens, d =>
      (fatRead ctx file len d).bind fun res =>
        (fatReads ctx res.2 lens d).map fun rest => res.1 ++ rest

omit h in
/-- The clusters that the writes allocate. -/
def clustersTakenBy (ctx : FatContext) : ℕ → List (List Byte) → ℕ
  | _, [] => 0
  | size, data :: datas =>
      clustersTaken ctx size data.length + clustersTakenBy ctx (size + data.length) datas

/-- INTERNAL: a sequence of writes. -/
theorem fatWrites_append {datas : List (List Byte)} (hwrites : hasFlag file.flags fatFileWrite)
    (ha : Appended ctx d₀ file d cs old)
    (hfields : clustersTakenBy ctx file.size datas ≠ 0 → FieldsFit ctx)
    (hfree : clustersTakenBy ctx file.size datas ≤ (freeClusters ctx d).card) :
    ∃ d' cs', fatWrites ctx file datas d =
        some (datas.map List.length, { file with size := file.size + datas.flatten.length }, d') ∧
      Appended ctx d₀ { file with size := file.size + datas.flatten.length } d' cs'
        (old ++ datas.flatten) := by
  induction datas generalizing file d cs old with
  | nil =>
      rw [List.flatten_nil, List.append_nil]
      exact ⟨d, cs, rfl, ha⟩
  | cons data datas ih =>
      rw [clustersTakenBy] at hfields hfree
      obtain ⟨d₁, cs₁, hrun, ha₁, -, hcard⟩ :=
        fatWrite_append h hwrites ha data (fun hne => hfields (by omega)) (by omega)
      obtain ⟨d', cs', hruns, ha'⟩ := ih (by exact hwrites) ha₁
        (fun hne => hfields (by dsimp only at hne; omega)) (by dsimp only; omega)
      dsimp only at hruns ha'
      rw [Nat.add_assoc, ← List.length_append, ← List.flatten_cons] at hruns ha'
      rw [List.append_assoc, ← List.flatten_cons] at ha'
      refine ⟨d', cs', ?_, ha'⟩
      rw [fatWrites, hrun, Option.bind_some, hruns]
      rfl

/-- INTERNAL: a sequence of reads inside the file. -/
theorem fatReads_inside {lens : List ℕ} (hreads : hasFlag file.flags fatFileRead)
    (ha : Appended ctx d₀ file d cs old) (hlens : file.position + lens.sum ≤ file.size) :
    fatReads ctx file lens d = some ((old.drop file.position).take lens.sum) := by
  induction lens generalizing file with
  | nil =>
      rw [List.sum_nil, List.take_zero]
      rfl
  | cons len lens ih =>
      rw [List.sum_cons] at hlens ⊢
      have hcapacity := ha.capacity_lt h
      have hfits := ha.fits
      have hread := fatRead_inside (n := len) h hreads ha.chain hfits (by omega) (by omega)
      have ha' : Appended ctx d₀ { file with position := file.position + len } d cs old :=
        ⟨ha.chain, ha.fits, ha.contents, ha.frame⟩
      have hrest := ih (by exact hreads) ha' (by dsimp only; omega)
      -- the file is shorter than its chain
      have hbytes : ((chainBytes ctx d (file.startingClus :: cs)).drop file.position).take len =
          (old.drop file.position).take len := by
        rw [← ha.contents, List.drop_take, List.take_take, Nat.min_eq_left (by omega)]
      rw [fatReads, hread, Option.bind_some, hrest, hbytes, List.take_add, List.drop_drop]
      rfl

end

/-- What is written to an empty file is read back from the beginning, whatever the lengths,
and outside the tables and the chain of the file nothing changes on the disk. -/
structure RoundTrip (ctx : FatContext) (file : FatFile) (d : Disk) (datas : List (List Byte))
    (file' : FatFile) (d' : Disk) : Prop where
  written : fatWrites ctx file datas d = some (datas.map List.length, file', d')
  size : file'.size = (datas.map List.length).sum
  read : ∀ flags lens, hasFlag flags fatFileRead → lens.sum ≤ file'.size →
    fatReads ctx { file' with position := 0, flags := flags } lens d' =
      some (datas.flatten.take lens.sum)
  kept : ∃ cs, FatChain ctx d' (file.startingClus :: cs) ∧ ∀ x, ¬ InTables ctx x →
    ¬ InClusters ctx (file.startingClus :: cs) x → d' x = d x

/-- **What is written is read back.**
SRCLINE: fat.c:905-981 -/
theorem fat_file_round_trip (h : FatLayout ctx) (hfields : FieldsFit ctx)
    (hwrites : hasFlag file.flags fatFileWrite) (hempty : file.size = 0)
    (hchain : FatChain ctx d [file.startingClus]) (datas : List (List Byte))
    (hfree : clustersTakenBy ctx 0 datas ≤ (freeClusters ctx d).card) :
    ∃ file' d', RoundTrip ctx file d datas file' d' := by
  have ha : Appended ctx d file d [] [] := by
    refine ⟨hchain, ?_, ?_, fun _ _ _ => rfl⟩
    · rw [hempty]
      exact Nat.zero_le _
    · rw [hempty, List.take_zero]
  obtain ⟨d', cs, hrun, ha'⟩ := fatWrites_append h hwrites ha (fun _ => hfields)
    (by rw [hempty]; exact hfree)
  rw [hempty, Nat.zero_add] at hrun ha'
  rw [List.nil_append] at ha'
  refine ⟨_, d', hrun, List.length_flatten, fun flags lens hreads hlens => ?_,
    cs, ha'.chain, ha'.frame⟩
  have hopened : Appended ctx d
      { file with size := datas.flatten.length, position := 0, flags := flags } d' cs
      datas.flatten := ⟨ha'.chain, ha'.fits, ha'.contents, ha'.frame⟩
  have hread := fatReads_inside h (by exact hreads) hopened
    (show 0 + lens.sum ≤ datas.flatten.length by rw [Nat.zero_add]; exact hlens)
  rw [List.drop_zero] at hread
  exact hread

/-! A file on a floppy disk. -/

theorem floppy_fields : FieldsFit floppy := by
  unfold FieldsFit
  decide

/-- A whole cluster and a few bytes are written, then one byte more. -/
theorem fat_file_round_trip_floppy :
    ∃ file' d', RoundTrip floppy ⟨2, 0, 0, 0, 3⟩ oneCluster
      [List.replicate 600 0x41, [0x42]] file' d' := by
  apply fat_file_round_trip floppy_layout floppy_fields rfl rfl oneCluster_chain
  · refine Nat.le_trans ?_ oneCluster_free
    simp only [clustersTakenBy, List.length_replicate, List.length_singleton]
    decide

end LakeOS.Analysis
