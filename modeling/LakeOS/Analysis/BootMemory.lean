import Mathlib.Data.List.Pairwise
import LakeOS.Library.Extent
import LakeOS.Model.PmmInit

/-!
# The memory map at boot

After `PMM_init` a free block should be memory that nobody else uses, and the bitmap
should be written inside its own bytes only.  Both depend on the run of blocks that each
region marks: its number of blocks is the length of the region rounded down, its first
block is the address rounded up, and the bitmap has one bit for each block of the summed
lengths.

`RunFits` is what a region has to meet for its run to end inside it and inside the
bitmap.  `bootMemory_sound` is the statement about a whole map.
-/

set_option autoImplicit false

namespace LakeOS.Analysis

open LakeOS.Library LakeOS.Model

/-! ## What the result should be -/

/-- The bytes of a region. -/
def regionExtent (x : MmapEntry) : Extent := ⟨x.addressLow, x.lengthLow⟩

/-- The bytes of a block. -/
def blockExtent (b : ℕ) : Extent := ⟨memoryBlockSize * b, memoryBlockSize⟩

/-- The bytes of the kernel, `_end` included. -/
def kernelExtent (k : KernelImage) : Extent := ⟨k.imageBegin, k.imageEnd + 1 - k.imageBegin⟩

/-- The region is memory that may be used. -/
def Available (x : MmapEntry) : Prop := x.type = multibootMemoryAvailable

instance (x : MmapEntry) : Decidable (Available x) := inferInstanceAs (Decidable (_ = _))

/-- Nothing outside the bitmap is written, and a free block is available memory that
belongs to neither the kernel, nor the bitmap, nor a reserved region. -/
structure PmmInitSound (k : KernelImage) (regions : List MmapEntry) (init : PmmInit) : Prop where
  writes : ∀ b ∈ init.marked, b / 8 < init.bitmapSize
  contained : ∀ b < 8 * init.bitmapSize, ¬ init.pmm.used b → ∃ x ∈ regions, Available x ∧
    (regionExtent x).start ≤ (blockExtent b).start ∧ (blockExtent b).stop ≤ (regionExtent x).stop
  kernel : ∀ b < 8 * init.bitmapSize, ¬ init.pmm.used b → (blockExtent b).Apart (kernelExtent k)
  bitmap : ∀ b < 8 * init.bitmapSize, ¬ init.pmm.used b →
    (blockExtent b).Apart ⟨init.bitmap, init.bitmapSize⟩
  reserved : ∀ b < 8 * init.bitmapSize, ¬ init.pmm.used b → ∀ x ∈ regions, ¬ Available x →
    (blockExtent b).Apart (regionExtent x)

/-! ## The run of one region -/

variable {k : KernelImage} {size b : ℕ} {x y r : MmapEntry}

theorem divRoundUp_block (a : ℕ) :
    a ≤ memoryBlockSize * divRoundUp a memoryBlockSize ∧
      memoryBlockSize * divRoundUp a memoryBlockSize < a + memoryBlockSize := by
  unfold divRoundUp memoryBlockSize
  split <;> omega

/-- The loop over a free region marks the length rounded down. -/
theorem mem_markFreeLoop {fuel len first : ℕ} (h : len ≤ fuel) :
    b ∈ markFreeLoop fuel len first ↔ first ≤ b ∧ b < first + len / memoryBlockSize := by
  unfold memoryBlockSize
  induction fuel generalizing len first with
  | zero =>
      have : len = 0 := by omega
      subst this
      simp only [markFreeLoop, List.not_mem_nil, false_iff]
      omega
  | succ fuel ih =>
      unfold markFreeLoop memoryBlockSize
      split
      next hlen =>
        rw [List.mem_cons, ih (by omega)]
        omega
      next hlen =>
        simp only [List.not_mem_nil, false_iff]
        omega

/-- The end of the region is an address, or the region lies behind the kernel. -/
def Located (k : KernelImage) (x : MmapEntry) : Prop :=
  x.addressLow + x.lengthLow < 2 ^ 32 ∨ k.imageEnd < x.addressLow

/-- INTERNAL: a region that is outside the kernel lies on one side of it. -/
theorem regionInKernel_false (hx : Located k x) :
    regionInKernel k x = false ↔
      k.imageEnd < x.addressLow ∨ x.addressLow + x.lengthLow < k.imageBegin := by
  have hend := k.end_lt
  have hbegin := k.begin_le
  unfold Located at hx
  unfold regionInKernel add32
  simp only [Bool.not_eq_false', Bool.or_eq_true, decide_eq_true_eq]
  omega

/-- INTERNAL: a region keeps its bytes, loses those from the kernel on, or is moved
behind the kernel. -/
theorem cutRegion_cases (hx : Located k x) :
    cutRegion k x = x ∨
      ((x.addressLow < k.imageBegin ∧ k.imageBegin ≤ x.addressLow + x.lengthLow) ∧
        cutRegion k x = { x with lengthLow := k.imageBegin - 1 - x.addressLow }) ∨
      ((x.addressLow ≤ k.imageEnd ∧ k.imageEnd < x.addressLow + x.lengthLow) ∧
        cutRegion k x = { x with addressLow := k.imageEnd + 1 }) := by
  have hend := k.end_lt
  have hbegin := k.begin_le
  unfold cutRegion
  split
  next hin =>
    have hout := (regionInKernel_false hx).not
    rw [hin] at hout
    simp only [Bool.true_eq_false, not_false_eq_true, true_iff, not_or, not_lt] at hout
    unfold Located at hx
    have hstop : add32 x.addressLow x.lengthLow = x.addressLow + x.lengthLow :=
      add32_eq (by omega)
    unfold shrinkRegionAroundKernel
    dsimp only
    rw [hstop]
    split
    next => exact .inl rfl
    next =>
      split
      next htail =>
        have hlen : sub32 x.lengthLow
            (add32 (sub32 (x.addressLow + x.lengthLow) k.imageBegin) 1) =
              k.imageBegin - 1 - x.addressLow := by
          unfold sub32 add32
          omega
        exact .inr (.inl ⟨⟨htail.1, hout.2⟩, by rw [hlen]⟩)
      next =>
        split
        next hhead =>
          have hnext : add32 k.imageEnd 1 = k.imageEnd + 1 := add32_eq (by omega)
          exact .inr (.inr ⟨⟨hout.1, hhead.2⟩, by rw [hnext]⟩)
        next => exact .inl rfl
  next => exact .inl rfl

@[simp] theorem cutRegion_type (x : MmapEntry) : (cutRegion k x).type = x.type := by
  unfold cutRegion shrinkRegionAroundKernel
  dsimp only
  repeat' split
  all_goals rfl

/-- Only available regions mark blocks. -/
theorem available_of_mem (hb : b ∈ markRegion k x) : Available x := by
  unfold markRegion at hb
  dsimp only at hb
  split at hb
  next => cases hb
  next =>
    split at hb
    next htype => exact (cutRegion_type x).symm.trans htype
    next => cases hb

theorem cutRegion_located (hx : Located k x) : Located k (cutRegion k x) := by
  have hend := k.end_lt
  have hbegin := k.begin_le
  rcases cutRegion_cases hx with h | ⟨ha, h⟩ | ⟨-, h⟩
  · rw [h]
    exact hx
  · rw [h]
    left
    dsimp only
    omega
  · rw [h]
    right
    exact Nat.lt_succ_self _

theorem addressLow_le_cutRegion (hx : Located k x) :
    x.addressLow ≤ (cutRegion k x).addressLow := by
  rcases cutRegion_cases hx with h | ⟨-, h⟩ | ⟨ha, h⟩
  · rw [h]
  · rw [h]
  · rw [h]
    dsimp only
    omega

theorem cutRegion_outside (h : regionInKernel k x = false) : cutRegion k x = x := by
  unfold cutRegion
  rw [h]
  rfl

/-- INTERNAL: the second cut of a region does nothing. -/
theorem cutRegion_cutRegion (hx : Located k x) : cutRegion k (cutRegion k x) = cutRegion k x := by
  have hcut := regionInKernel_false (cutRegion_located hx)
  rcases cutRegion_cases hx with h | ⟨ha, h⟩ | ⟨-, h⟩
  · rw [h, h]
  · apply cutRegion_outside
    rw [hcut, h]
    dsimp only
    omega
  · apply cutRegion_outside
    rw [hcut, h]
    exact .inl (Nat.lt_succ_self _)

theorem markRegion_cutRegion (hx : Located k x) :
    markRegion k (cutRegion k x) = markRegion k x := by
  unfold markRegion
  rw [cutRegion_cutRegion hx]

/-- What a region has to meet for the blocks it marks to end before `stop`, before the
kernel and inside the bitmap. -/
def RunFits (k : KernelImage) (size stop : ℕ) (x : MmapEntry) : Prop :=
  let cut := cutRegion k x
  let first := divRoundUp cut.addressLow memoryBlockSize
  let count := cut.lengthLow / memoryBlockSize
  regionInKernel k cut = false → cut.lengthLow < memoryBlockSize ∨
    (first + count ≤ 8 * size ∧ memoryBlockSize * (first + count) ≤ stop ∧
      (cut.addressLow + cut.lengthLow < k.imageBegin →
        memoryBlockSize * (first + count) ≤ k.imageBegin))

instance (k : KernelImage) (size stop : ℕ) (x : MmapEntry) : Decidable (RunFits k size stop x) := by
  unfold RunFits
  infer_instance

/-- A block of a run that fits. -/
theorem mem_markRegion {stop : ℕ} (hx : Located k x) (hfits : RunFits k size stop x)
    (hb : b ∈ markRegion k x) :
    b / 8 < size ∧ x.addressLow ≤ (blockExtent b).start ∧
      (blockExtent b).stop ≤ stop ∧ (blockExtent b).Apart (kernelExtent k) := by
  have hbegin := k.begin_le
  unfold markRegion at hb
  dsimp only at hb
  split at hb
  next => cases hb
  next hin =>
    rw [Bool.not_eq_true] at hin
    split at hb
    next htype =>
      rw [mem_markFreeLoop le_rfl] at hb
      have hmove := addressLow_le_cutRegion hx
      have hside := (regionInKernel_false (cutRegion_located hx)).mp hin
      have hround := divRoundUp_block (cutRegion k x).addressLow
      unfold blockExtent Extent.Apart kernelExtent Extent.stop
      dsimp only
      unfold memoryBlockSize at *
      rcases hfits hin with hlen | ⟨hnum, hstop, hkernel⟩
      · unfold memoryBlockSize at hlen
        omega
      · unfold memoryBlockSize at hstop hkernel hnum
        omega
    next => cases hb

/-! ## The region that gives the bitmap -/

/-- The region can hold the bitmap.
SRCLINE: pmm.c:56-64 -/
def HoldsBitmap (k : KernelImage) (size : ℕ) (x : MmapEntry) : Prop :=
  Available x ∧ size ≤ x.lengthLow ∧
    ¬ (regionInKernel k x = true ∧ (cutRegion k x).lengthLow < size)

instance (k : KernelImage) (size : ℕ) (x : MmapEntry) : Decidable (HoldsBitmap k size x) :=
  inferInstanceAs (Decidable (_ ∧ _ ∧ _))

/-- What is left of a region behind the bitmap.
SRCLINE: pmm.c:67-68 -/
def carved (k : KernelImage) (size : ℕ) (x : MmapEntry) : MmapEntry :=
  { cutRegion k x with
    addressLow := add32 (cutRegion k x).addressLow size
    lengthLow := sub32 (cutRegion k x).lengthLow size }

theorem chooseBitmap_holds {after : List MmapEntry} (hr : HoldsBitmap k size r) :
    chooseBitmap k size (r :: after) =
      ((cutRegion k r).addressLow, carved k size r :: after) := by
  obtain ⟨htype, hlen, hcut⟩ := hr
  have hable : r.type = multibootMemoryAvailable ∧ size ≤ r.lengthLow := ⟨htype, hlen⟩
  simp only [chooseBitmap, if_pos hable, if_neg hcut, carved]

theorem chooseBitmap_skip (after : List MmapEntry) (hx : ¬ HoldsBitmap k size x) :
    (chooseBitmap k size (x :: after)).1 = (chooseBitmap k size after).1 ∧
      ((chooseBitmap k size (x :: after)).2 = x :: (chooseBitmap k size after).2 ∨
        (Available x ∧
          (chooseBitmap k size (x :: after)).2 =
            cutRegion k x :: (chooseBitmap k size after).2)) := by
  by_cases hable : x.type = multibootMemoryAvailable ∧ size ≤ x.lengthLow
  · have hskip : regionInKernel k x = true ∧ (cutRegion k x).lengthLow < size := by
      by_contra hno
      exact hx ⟨hable.1, hable.2, hno⟩
    have hval : chooseBitmap k size (x :: after) =
        ((chooseBitmap k size after).1, cutRegion k x :: (chooseBitmap k size after).2) := by
      simp only [chooseBitmap, if_pos hable, if_pos hskip]
    rw [hval]
    exact ⟨rfl, .inr ⟨hable.1, rfl⟩⟩
  · have hval : chooseBitmap k size (x :: after) =
        ((chooseBitmap k size after).1, x :: (chooseBitmap k size after).2) := by
      simp only [chooseBitmap, if_neg hable]
    rw [hval]
    exact ⟨rfl, .inl rfl⟩

/-- INTERNAL: the search stops at the first region that can hold the bitmap.  Those
before it are cut at most, which changes nothing of the blocks they mark. -/
theorem chooseBitmap_spec {before : List MmapEntry} (after : List MmapEntry)
    (hbefore : ∀ x ∈ before, ¬ HoldsBitmap k size x) (hr : HoldsBitmap k size r)
    (hloc : ∀ x ∈ before, Available x → Located k x) :
    (chooseBitmap k size (before ++ r :: after)).1 = (cutRegion k r).addressLow ∧
      (chooseBitmap k size (before ++ r :: after)).2.flatMap (markRegion k) =
        before.flatMap (markRegion k) ++
          (markRegion k (carved k size r) ++ after.flatMap (markRegion k)) := by
  induction before with
  | nil =>
      rw [List.nil_append, chooseBitmap_holds hr, List.flatMap_nil, List.nil_append,
        List.flatMap_cons]
      exact ⟨rfl, rfl⟩
  | cons x before ih =>
      have ih := ih (fun z hz => hbefore z (List.mem_cons_of_mem x hz))
        (fun z hz => hloc z (List.mem_cons_of_mem x hz))
      have hskip := chooseBitmap_skip (before ++ r :: after)
        (hbefore x List.mem_cons_self)
      rw [List.cons_append]
      refine ⟨hskip.1.trans ih.1, ?_⟩
      rcases hskip.2 with hsame | ⟨havail, hcut⟩
      · rw [hsame, List.flatMap_cons, List.flatMap_cons, ih.2, List.append_assoc]
      · have hmark := markRegion_cutRegion (hloc x List.mem_cons_self havail)
        rw [hcut, List.flatMap_cons, List.flatMap_cons, ih.2, hmark, List.append_assoc]

theorem HoldsBitmap.le_cut (hr : HoldsBitmap k size r) :
    size ≤ (cutRegion k r).lengthLow := by
  obtain ⟨-, hlen, hcut⟩ := hr
  by_cases hin : regionInKernel k r = true
  · by_contra hlt
    exact hcut ⟨hin, not_le.mp hlt⟩
  · rw [cutRegion_outside (Bool.not_eq_true _ ▸ hin)]
    exact hlen

/-- INTERNAL: what is left lies behind the bitmap.  If it would begin behind the last
address, it is empty. -/
theorem carved_spec (hr : HoldsBitmap k size r)
    (hloc : r.addressLow + r.lengthLow < 2 ^ 32 ∨
      (r.addressLow + r.lengthLow = 2 ^ 32 ∧ k.imageEnd < r.addressLow))
    (hroom : (cutRegion k r).addressLow + size ≤ r.addressLow + r.lengthLow) :
    Located k (carved k size r) ∧
      (carved k size r).addressLow + (carved k size r).lengthLow ≤
        (cutRegion k r).addressLow + (cutRegion k r).lengthLow ∧
      ((cutRegion k r).addressLow + size ≤ (carved k size r).addressLow ∨
        ((carved k size r).addressLow + (carved k size r).lengthLow = 0 ∧
          markRegion k (carved k size r) = [])) := by
  have hx : Located k r := hloc.imp_right And.right
  have hle := hr.le_cut
  have hcut := cutRegion_located hx
  have hlen : (cutRegion k r).lengthLow < 2 ^ 32 := by
    have hbegin := k.begin_le
    have hend := k.end_lt
    rcases cutRegion_cases hx with h | ⟨-, h⟩ | ⟨-, h⟩ <;> simp only [h] <;> omega
  have hrest : (carved k size r).lengthLow = (cutRegion k r).lengthLow - size :=
    sub32_eq hle hlen
  rcases Nat.lt_or_ge ((cutRegion k r).addressLow + size) (2 ^ 32) with hlt | hge
  · have haddr : (carved k size r).addressLow = (cutRegion k r).addressLow + size :=
      add32_eq hlt
    refine ⟨?_, by omega, .inl (by rw [haddr])⟩
    unfold Located at hcut ⊢
    rw [haddr, hrest]
    omega
  · -- only a region that ends with the last address gets here, and it is not cut
    have hout : cutRegion k r = r :=
      cutRegion_outside ((regionInKernel_false hx).mpr (by omega))
    rw [hout] at hge hle hroom hrest
    have haddr : (carved k size r).addressLow = 0 := by
      unfold carved add32
      rw [hout]
      dsimp only
      omega
    have hnone : (carved k size r).lengthLow = 0 := by omega
    have hloc' : Located k (carved k size r) := .inl (by rw [haddr, hnone]; decide)
    refine ⟨hloc', by omega, .inr ⟨by omega, ?_⟩⟩
    have hzero : (cutRegion k (carved k size r)).lengthLow = 0 := by
      rcases cutRegion_cases hloc' with h | ⟨ha, h⟩ | ⟨-, h⟩
      · rw [h, hnone]
      · omega
      · rw [h]
        exact hnone
    unfold markRegion
    dsimp only
    rw [hzero]
    simp only [markFreeLoop, ite_self]

/-! ## The whole map -/

/-- INTERNAL: a marked block is free, the others keep their state. -/
theorem used_markFree (s : Pmm) (marked : List ℕ) (b : ℕ) :
    (marked.foldl (fun s b => s.bitmapSetblockstate b bitmapBlockFree) s).used b ↔
      b ∉ marked ∧ s.used b := by
  induction marked generalizing s with
  | nil => simp
  | cons c marked ih =>
      rw [List.foldl_cons, ih, Pmm.used_setFree, List.mem_cons, not_or]
      tauto

/-- INTERNAL: after `memset` every block of the bitmap is used. -/
theorem used_reserved {s : Pmm} {memory : Store Byte} {bitmap : ℕ}
    (hs : s.bitmap = reservedBitmap memory bitmap size) (hb : b < 8 * size) : s.used b := by
  have hbyte : s.bitmap (b / 8) = 0xFF := by
    rw [hs]
    unfold reservedBitmap
    rw [if_pos (by omega)]
  rw [Pmm.used_iff, hbyte]
  have hbit : b % 8 < 8 := Nat.mod_lt b (by decide)
  generalize b % 8 = i at hbit
  have hall : ∀ i < 8, (0xFF : Byte).getLsbD i = true := by decide
  exact hall i hbit

/-- The memory map suits the start: available regions lie in the address space, the
first region that can hold the bitmap has it behind what is cut off, and the blocks of
each region, for that one those behind the bitmap, end inside the region and have a bit
in the bitmap. -/
structure BootMapFits (k : KernelImage) (size : ℕ) (before : List MmapEntry) (r : MmapEntry)
    (after : List MmapEntry) : Prop where
  first : ∀ x ∈ before, ¬ HoldsBitmap k size x
  holds : HoldsBitmap k size r
  located : ∀ x ∈ before ++ r :: after, Available x →
    x.addressLow + x.lengthLow < 2 ^ 32 ∨
      (x.addressLow + x.lengthLow = 2 ^ 32 ∧ k.imageEnd < x.addressLow)
  room : (cutRegion k r).addressLow + size ≤ r.addressLow + r.lengthLow
  runs : ∀ x ∈ before ++ after, Available x →
    RunFits k size (x.addressLow + x.lengthLow) x
  rest : RunFits k size (r.addressLow + r.lengthLow) (carved k size r)

/-- INTERNAL: where a marked block of a map that fits comes from. -/
theorem mem_marked {before after : List MmapEntry} (hfits : BootMapFits k size before r after)
    (hb : b ∈ (chooseBitmap k size (before ++ r :: after)).2.flatMap (markRegion k)) :
    b / 8 < size ∧ (blockExtent b).Apart (kernelExtent k) ∧
      ((∃ x ∈ before ++ after, Available x ∧ x.addressLow ≤ (blockExtent b).start ∧
          (blockExtent b).stop ≤ x.addressLow + x.lengthLow) ∨
        ((cutRegion k r).addressLow + size ≤ (blockExtent b).start ∧
          (blockExtent b).stop ≤ r.addressLow + r.lengthLow)) := by
  have hloc : ∀ x ∈ before ++ r :: after, Available x → Located k x :=
    fun x hx havail => (hfits.located x hx havail).imp_right And.right
  have hother : ∀ x ∈ before ++ after, b ∈ markRegion k x →
      b / 8 < size ∧ (blockExtent b).Apart (kernelExtent k) ∧
      ∃ x ∈ before ++ after, Available x ∧ x.addressLow ≤ (blockExtent b).start ∧
          (blockExtent b).stop ≤ x.addressLow + x.lengthLow := by
    intro x hx hbx
    have havail := available_of_mem hbx
    have hmem : x ∈ before ++ r :: after := by
      rw [List.mem_append, List.mem_cons]
      exact (List.mem_append.mp hx).imp_right .inr
    obtain ⟨hbit, hstart, hstop, hkernel⟩ :=
      mem_markRegion (hloc x hmem havail) (hfits.runs x hx havail) hbx
    exact ⟨hbit, hkernel, x, hx, havail, hstart, hstop⟩
  have hspec := (chooseBitmap_spec after hfits.first hfits.holds
    (fun x hx => hloc x (List.mem_append_left _ hx))).2
  rw [hspec, List.mem_append, List.mem_append, List.mem_flatMap, List.mem_flatMap] at hb
  rcases hb with ⟨x, hx, hbx⟩ | hbr | ⟨x, hx, hbx⟩
  · obtain ⟨hbit, hkernel, hfrom⟩ := hother x (List.mem_append_left _ hx) hbx
    exact ⟨hbit, hkernel, .inl hfrom⟩
  · have hr : r ∈ before ++ r :: after := List.mem_append_right _ List.mem_cons_self
    obtain ⟨hcarved, -, hplace⟩ :=
      carved_spec hfits.holds (hfits.located r hr hfits.holds.1) hfits.room
    obtain ⟨hbit, hstart, hstop, hkernel⟩ := mem_markRegion hcarved hfits.rest hbr
    refine ⟨hbit, hkernel, .inr ⟨?_, hstop⟩⟩
    rcases hplace with hle | ⟨-, hnone⟩
    · exact hle.trans hstart
    · rw [hnone] at hbr
      cases hbr
  · obtain ⟨hbit, hkernel, hfrom⟩ := hother x (List.mem_append_right _ hx) hbx
    exact ⟨hbit, hkernel, .inl hfrom⟩

/-- INTERNAL: a block of the bitmap is free exactly when a region marks it. -/
theorem free_iff {regions : List MmapEntry} {memory : Store Byte}
    (hb : b < 8 * (pmmInit k regions memory).bitmapSize) :
    ¬ (pmmInit k regions memory).pmm.used b ↔ b ∈ (pmmInit k regions memory).marked := by
  have hreserved : Pmm.used ⟨reservedBitmap memory (pmmInit k regions memory).bitmap
      (pmmInit k regions memory).bitmapSize, bitmapLenOf regions, 0, bitmapLenOf_lt regions⟩ b :=
    used_reserved rfl hb
  have hfold := used_markFree ⟨reservedBitmap memory (pmmInit k regions memory).bitmap
      (pmmInit k regions memory).bitmapSize, bitmapLenOf regions, 0, bitmapLenOf_lt regions⟩
      (pmmInit k regions memory).marked b
  have hiff : (pmmInit k regions memory).pmm.used b ↔ b ∉ (pmmInit k regions memory).marked :=
    hfold.trans (and_iff_left hreserved)
  rw [hiff, not_not]

theorem apart_of_mem {regions : List MmapEntry}
    (hapart : (regions.map regionExtent).Pairwise Extent.Apart) (hx : x ∈ regions)
    (hy : y ∈ regions) (hne : x ≠ y) : (regionExtent x).Apart (regionExtent y) := by
  rw [List.pairwise_map] at hapart
  have : Std.Symm fun x y => (regionExtent x).Apart (regionExtent y) :=
    ⟨fun _ _ h => h.symm⟩
  exact hapart.forall hx hy hne

/-- A map that fits. -/
def MapFits (k : KernelImage) (regions : List MmapEntry) : Prop :=
  ∃ before r after, regions = before ++ r :: after ∧
    BootMapFits k (divRoundUp (bitmapLenOf regions) 8) before r after

/-- INTERNAL: a map that fits is a good start. -/
theorem pmmInitSound_of_fits (k : KernelImage) (regions : List MmapEntry) (memory : Store Byte)
    (hapart : (regions.map regionExtent).Pairwise Extent.Apart) (hfits : MapFits k regions) :
    PmmInitSound k regions (pmmInit k regions memory) := by
  obtain ⟨before, r, after, hregions, hfits⟩ := hfits
  have hmarked : ∀ b ∈ (pmmInit k regions memory).marked,
      b ∈ (chooseBitmap k (divRoundUp (bitmapLenOf regions) 8)
        (before ++ r :: after)).2.flatMap (markRegion k) := by
    intro b hb
    rw [← hregions]
    exact hb
  have hbitmap : (pmmInit k regions memory).bitmap = (cutRegion k r).addressLow := by
    have hspec := chooseBitmap_spec after hfits.first hfits.holds
      (fun x hx havail => (hfits.located x (List.mem_append_left _ hx) havail).imp_right And.right)
    rw [← hregions] at hspec
    exact hspec.1
  have hsplit : (r :: (before ++ after)).Pairwise
      fun x y => (regionExtent x).Apart (regionExtent y) := by
    rw [List.pairwise_map, hregions] at hapart
    exact List.perm_middle.pairwise hapart Extent.Apart.symm
  have hr := (List.pairwise_cons.mp hsplit).1
  have hmem : ∀ x, x ∈ regions ↔ x = r ∨ x ∈ before ++ after := by
    intro x
    rw [hregions, List.perm_middle.mem_iff, List.mem_cons]
  have hrmem := (hmem r).mpr (.inl rfl)
  have hrloc := hfits.located r (hregions ▸ hrmem) hfits.holds.1
  have hmove := addressLow_le_cutRegion (hrloc.imp_right And.right)
  have hroom := hfits.room
  -- a free block lies inside an available region
  have hwithin : ∀ b < 8 * (pmmInit k regions memory).bitmapSize,
      ¬ (pmmInit k regions memory).pmm.used b → ∃ x ∈ regions, Available x ∧
        (regionExtent x).start ≤ (blockExtent b).start ∧
        (blockExtent b).stop ≤ (regionExtent x).stop := by
    intro b hb hfree
    rcases (mem_marked hfits (hmarked b ((free_iff hb).mp hfree))).2.2 with
      ⟨x, hx, havail, hin⟩ | ⟨hstart, hstop⟩
    · exact ⟨x, (hmem x).mpr (.inr hx), havail, hin⟩
    · exact ⟨r, hrmem, hfits.holds.1, by unfold regionExtent; dsimp only; omega, hstop⟩
  constructor
  case writes =>
    intro b hb
    exact (mem_marked hfits (hmarked b hb)).1
  case contained => exact hwithin
  case kernel =>
    intro b hb hfree
    exact (mem_marked hfits (hmarked b ((free_iff hb).mp hfree))).2.1
  case bitmap =>
    intro b hb hfree
    rw [hbitmap]
    rcases (mem_marked hfits (hmarked b ((free_iff hb).mp hfree))).2.2 with
      ⟨x, hx, havail, hin⟩ | ⟨hstart, -⟩
    · have hxr := hr x hx
      have hsize : (pmmInit k regions memory).bitmapSize =
          divRoundUp (bitmapLenOf regions) 8 := rfl
      unfold Extent.Apart Extent.stop regionExtent at hxr
      unfold Extent.Apart Extent.stop at *
      dsimp only at *
      omega
    · exact .inr hstart
  case reserved =>
    intro b hb hfree y hy hres
    obtain ⟨x, hx, havail, hin⟩ := hwithin b hb hfree
    have hne : x ≠ y := by
      rintro rfl
      exact hres havail
    have hxy := apart_of_mem hapart hx hy hne
    unfold Extent.Apart Extent.stop at *
    omega

/-- No available region reaches over the end of the kernel, and those behind the kernel
end with the last address at most. -/
def ClearOfKernelEnd (k : KernelImage) (x : MmapEntry) : Prop :=
  (x.addressLow + x.lengthLow ≤ k.imageEnd ∨ k.imageEnd < x.addressLow) ∧
    x.addressLow + x.lengthLow ≤ 2 ^ 32

/-- INTERNAL: such a region does not wrap around, except that it may end with the last
address. -/
theorem ClearOfKernelEnd.located (hx : ClearOfKernelEnd k x) :
    x.addressLow + x.lengthLow < 2 ^ 32 ∨
      (x.addressLow + x.lengthLow = 2 ^ 32 ∧ k.imageEnd < x.addressLow) := by
  have hend := k.end_lt
  obtain ⟨hside, hlast⟩ := hx
  omega

theorem ClearOfKernelEnd.cutRegion (hx : ClearOfKernelEnd k x) :
    (cutRegion k x).addressLow = x.addressLow ∧ (cutRegion k x).lengthLow ≤ x.lengthLow := by
  have hend := k.end_lt
  have hloc : Located k x := hx.located.imp_right And.right
  obtain ⟨hside, hlast⟩ := hx
  rcases cutRegion_cases hloc with h | ⟨ha, h⟩ | ⟨ha, h⟩
  · rw [h]
    exact ⟨rfl, le_rfl⟩
  · rw [h]
    exact ⟨rfl, by dsimp only; omega⟩
  · omega

/-- INTERNAL: the run fits when its last block does. -/
theorem runFits_of_blocks {stop : ℕ} (hx : ClearOfKernelEnd k x) (havail : Available x)
    (hblocks : ∀ b ∈ markRegion k x, x.addressLow ≤ memoryBlockSize * b →
      memoryBlockSize * b < x.addressLow + x.lengthLow →
        b / 8 < size ∧ (blockExtent b).stop ≤ stop ∧ (blockExtent b).Apart (kernelExtent k)) :
    RunFits k size stop x := by
  have hbegin := k.begin_le
  obtain ⟨haddr, hlen⟩ := hx.cutRegion
  intro hin
  by_cases hshort : (cutRegion k x).lengthLow < memoryBlockSize
  · exact .inl hshort
  have hround := divRoundUp_block (cutRegion k x).addressLow
  have hmem : divRoundUp (cutRegion k x).addressLow memoryBlockSize +
      (cutRegion k x).lengthLow / memoryBlockSize - 1 ∈ markRegion k x := by
    unfold markRegion
    dsimp only
    rw [hin, if_neg Bool.false_ne_true, cutRegion_type,
      if_pos (show x.type = multibootMemoryAvailable from havail), mem_markFreeLoop le_rfl]
    unfold memoryBlockSize at *
    omega
  have hlast := hblocks _ hmem
  unfold blockExtent kernelExtent Extent.Apart Extent.stop at hlast
  unfold memoryBlockSize at *
  dsimp only at hlast
  right
  omega

/-- INTERNAL: where the start is good, a marked block that does not begin behind a region does
not end behind it. -/
theorem PmmInitSound.block {regions : List MmapEntry} {memory : Store Byte} {b : ℕ}
    (h : PmmInitSound k regions (pmmInit k regions memory))
    (hapart : (regions.map regionExtent).Pairwise Extent.Apart) (hx : x ∈ regions)
    (hb : b ∈ (pmmInit k regions memory).marked)
    (hbelow : memoryBlockSize * b < x.addressLow + x.lengthLow) :
    b / 8 < divRoundUp (bitmapLenOf regions) 8 ∧
      (blockExtent b).stop ≤ x.addressLow + x.lengthLow ∧
      (blockExtent b).Apart (kernelExtent k) := by
  have hbit := h.writes b hb
  have hb8 : b < 8 * (pmmInit k regions memory).bitmapSize := by omega
  have hfree := (free_iff hb8).mpr hb
  refine ⟨hbit, ?_, h.kernel b hb8 hfree⟩
  obtain ⟨y, hy, -, hin⟩ := h.contained b hb8 hfree
  by_cases hxy : x = y
  · rw [hxy]
    exact hin.2
  · have happ := apart_of_mem hapart hx hy hxy
    unfold Extent.Apart Extent.stop regionExtent blockExtent at *
    unfold memoryBlockSize at *
    dsimp only at *
    omega

/-- INTERNAL: the region that the bitmap goes to. -/
theorem exists_first_holds {regions : List MmapEntry}
    (hable : ∃ x ∈ regions, HoldsBitmap k size x) :
    ∃ before r after, regions = before ++ r :: after ∧ HoldsBitmap k size r ∧
      ∀ x ∈ before, ¬ HoldsBitmap k size x := by
  obtain ⟨r, hfound⟩ : ∃ r, regions.find? (fun x => decide (HoldsBitmap k size x)) = some r := by
    rw [← Option.isSome_iff_exists, List.find?_isSome]
    obtain ⟨x, hx, hholds⟩ := hable
    exact ⟨x, hx, decide_eq_true hholds⟩
  obtain ⟨hholds, before, after, hregions, hfirst⟩ := List.find?_eq_some_iff_append.mp hfound
  exact ⟨before, r, after, hregions, of_decide_eq_true hholds, by simpa using hfirst⟩

/-- INTERNAL: without a region over the end of the kernel, only a map that fits is a good
start. -/
theorem fits_of_pmmInitSound {regions : List MmapEntry} {memory : Store Byte}
    (hapart : (regions.map regionExtent).Pairwise Extent.Apart)
    (hable : ∃ x ∈ regions, HoldsBitmap k (divRoundUp (bitmapLenOf regions) 8) x)
    (hclear : ∀ x ∈ regions, Available x → ClearOfKernelEnd k x)
    (hsound : PmmInitSound k regions (pmmInit k regions memory)) : MapFits k regions := by
  obtain ⟨before, r, after, hregions, hholds, hfirst⟩ := exists_first_holds hable
  have hlocated : ∀ x ∈ regions, Available x → x.addressLow + x.lengthLow < 2 ^ 32 ∨
      (x.addressLow + x.lengthLow = 2 ^ 32 ∧ k.imageEnd < x.addressLow) :=
    fun x hx havail => (hclear x hx havail).located
  have hrmem : r ∈ regions := by
    rw [hregions]
    exact List.mem_append_right _ List.mem_cons_self
  have hmarked : (pmmInit k regions memory).marked = before.flatMap (markRegion k) ++
      (markRegion k (carved k (divRoundUp (bitmapLenOf regions) 8) r) ++
        after.flatMap (markRegion k)) := by
    have hspec := (chooseBitmap_spec after hfirst hholds (fun x hx havail =>
      (hlocated x (by rw [hregions]; exact List.mem_append_left _ hx) havail).imp_right
        And.right)).2
    rw [← hregions] at hspec
    exact hspec
  have hrclear := hclear r hrmem hholds.1
  obtain ⟨hcuta, hcutl⟩ := hrclear.cutRegion
  have hroom : (cutRegion k r).addressLow + divRoundUp (bitmapLenOf regions) 8 ≤
      r.addressLow + r.lengthLow := by
    have := hholds.le_cut
    omega
  have hruns : ∀ x ∈ before ++ after, Available x →
      RunFits k (divRoundUp (bitmapLenOf regions) 8) (x.addressLow + x.lengthLow) x := by
    intro x hx havail
    have hmem : x ∈ regions := by
      rw [hregions, List.perm_middle.mem_iff]
      exact List.mem_cons_of_mem r hx
    apply runFits_of_blocks (hclear x hmem havail) havail
    intro b hb _ hbelow
    refine hsound.block hapart hmem ?_ hbelow
    rw [hmarked, List.mem_append, List.mem_append, List.mem_flatMap, List.mem_flatMap]
    cases List.mem_append.mp hx with
    | inl hx => exact .inl ⟨x, hx, hb⟩
    | inr hx => exact .inr (.inr ⟨x, hx, hb⟩)
  have hrest : RunFits k (divRoundUp (bitmapLenOf regions) 8) (r.addressLow + r.lengthLow)
      (carved k (divRoundUp (bitmapLenOf regions) 8) r) := by
    obtain ⟨-, hstop, hplace⟩ := carved_spec hholds (hlocated r hrmem hholds.1) hroom
    have hend := k.end_lt
    have hcclear : ClearOfKernelEnd k (carved k (divRoundUp (bitmapLenOf regions) 8) r) := by
      unfold ClearOfKernelEnd at hrclear ⊢
      omega
    have hcavail : Available (carved k (divRoundUp (bitmapLenOf regions) 8) r) :=
      (cutRegion_type r).trans hholds.1
    apply runFits_of_blocks hcclear hcavail
    intro b hb _ hbelow
    refine hsound.block hapart hrmem ?_ (by omega)
    rw [hmarked, List.mem_append, List.mem_append]
    exact .inr (.inl hb)
  refine ⟨before, r, after, hregions, ?_⟩
  exact ⟨hfirst, hholds, hregions ▸ hlocated, hroom, hruns, hrest⟩

/-- **The start of the physical memory manager.**  For every map of regions that do not
overlap and one of which can hold the bitmap: if the map fits, the bitmap is written
inside its bytes only and every free block is available memory that nobody else uses.
Unless an available region reaches over the end of the kernel or of the address space,
this is so for no other map. -/
theorem bootMemory_sound (k : KernelImage) (regions : List MmapEntry) (memory : Store Byte)
    (hapart : (regions.map regionExtent).Pairwise Extent.Apart)
    (hable : ∃ x ∈ regions, Available x ∧ regionInKernel k x = false ∧
      divRoundUp (bitmapLenOf regions) 8 ≤ x.lengthLow) :
    (MapFits k regions → PmmInitSound k regions (pmmInit k regions memory)) ∧
      ((∀ x ∈ regions, Available x → ClearOfKernelEnd k x) →
        PmmInitSound k regions (pmmInit k regions memory) → MapFits k regions) := by
  refine ⟨pmmInitSound_of_fits k regions memory hapart, ?_⟩
  intro hclear hsound
  obtain ⟨x, hx, havail, hout, hlen⟩ := hable
  refine fits_of_pmmInitSound hapart ⟨x, hx, havail, hlen, ?_⟩ hclear hsound
  rintro ⟨hin, -⟩
  rw [hout] at hin
  cases hin

/-- A kernel inside a reserved region. -/
def imageInReserved : KernelImage := ⟨0xA000, 0xBFFF, by decide, by decide⟩

/-- One available region and the reserved one behind it. -/
def plainMap : List MmapEntry := [⟨0, 0x9000, 1⟩, ⟨0x9000, 0x7000, 2⟩]

theorem bootMemory_sound_plain :
    PmmInitSound imageInReserved plainMap (pmmInit imageInReserved plainMap fun _ => 0) :=
  (bootMemory_sound imageInReserved plainMap (fun _ => 0)
    (by simp [plainMap, regionExtent, Extent.Apart, Extent.stop]) (by decide +kernel)).1
    ⟨[], ⟨0, 0x9000, 1⟩, [⟨0x9000, 0x7000, 2⟩], rfl,
      { first := by decide +kernel
        holds := by decide +kernel
        located := by decide +kernel
        room := by decide +kernel
        runs := by decide +kernel
        rest := by decide +kernel }⟩

/-- Two available regions with a hole between them. -/
def mapWithHole : List MmapEntry := [⟨0, 0x2000, 1⟩, ⟨0x100000, 0x2000, 1⟩]

/-- Behind a hole the block numbers exceed the summed length: block `0x100` has its bit
32 bytes into a bitmap of one byte. -/
theorem hole_writes_outside_bitmap :
    ¬ ∀ (k : KernelImage) (regions : List MmapEntry) (memory : Store Byte),
      (regions.map regionExtent).Pairwise Extent.Apart →
      (∃ x ∈ regions, Available x ∧ regionInKernel k x = false ∧
        divRoundUp (bitmapLenOf regions) 8 ≤ x.lengthLow) →
      PmmInitSound k regions (pmmInit k regions memory) := by
  intro h
  have hsound := h imageInReserved mapWithHole (fun _ => 0)
    (by simp [mapWithHole, regionExtent, Extent.Apart, Extent.stop])
    (by decide +kernel)
  have hmarked : 0x100 ∈ (pmmInit imageInReserved mapWithHole fun _ => 0).marked := by
    decide +kernel
  have hsize : (pmmInit imageInReserved mapWithHole fun _ => 0).bitmapSize = 1 := by
    decide +kernel
  have hwrite := hsound.writes 0x100 hmarked
  omega

end LakeOS.Analysis
