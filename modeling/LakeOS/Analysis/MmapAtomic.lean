import LakeOS.Analysis.FrameKeeping
import LakeOS.Analysis.UserCalls

/-!
# What a failed `mmap` leaves behind

`sys_mmap` reports a failure by `NULL` or by `(void*) -1`, and should then leave the
process as it was.  It does where nothing was mapped yet.  Two failures come later:

* `NULL` is both the failure of `ualloc_pages` and the lowest address of user memory, so
  a block mapped at address 0 is reported as a failure,
* when a seek fails, `umm_unmap_pages` unmaps the new pages and frees none of their
  frames.  It does not see the first block of the list, and behind the last one it
  follows a `NULL` link.
-/

set_option autoImplicit false

namespace LakeOS.Analysis

open LakeOS.Library LakeOS.Model Vmm

/-! ## The undo of `sys_mmap` -/

section

variable {σ : Type} (pages : PageOps σ) {blocks bs : List UmmBlock} {b new : UmmBlock} {s s' : σ}

theorem insertBehind_head (new b : UmmBlock) (bs : List UmmBlock) :
    ∃ tail, insertBehind new b bs = b :: tail := by
  cases bs with
  | nil => exact ⟨_, rfl⟩
  | cons c bs =>
      rw [insertBehind]
      split
      next => exact ⟨_, rfl⟩
      next => exact ⟨_, rfl⟩

/-- INTERNAL: behind the first block, the undo finds the new block or runs off the list.
SRCLINE: umm.c:22-31, 50-66 -/
theorem insertBehind_undo (h : WellFormed (b :: bs)) {rest r : List UmmBlock}
    (hins : insertBehind new b bs = b :: rest)
    (hrun : ummUnmapPagesLoop pages new.start b rest s = some (r, s')) :
    s' = unmapBlock pages new s := by
  induction bs generalizing b rest r with
  | nil =>
      obtain rfl : [new] = rest := (List.cons.inj hins).2
      rw [ummUnmapPagesLoop, if_pos rfl] at hrun
      cases hrun
  | cons next bs ih =>
      obtain ⟨hbs, -, -⟩ := wellFormed_cons.mp h
      have hlen := (hbs.pages next List.mem_cons_self).len_pos
      rw [insertBehind, hbs.stop_eq List.mem_cons_self] at hins
      split at hins
      next hle =>
        obtain ⟨tail, htail⟩ := insertBehind_head new next bs
        obtain rfl : next :: tail = rest := htail.symm.trans (List.cons.inj hins).2
        rw [ummUnmapPagesLoop, if_neg (by omega)] at hrun
        obtain ⟨r', hr', hmap⟩ := Option.map_eq_some_iff.mp hrun
        obtain ⟨-, rfl⟩ := Prod.mk.inj hmap
        exact ih hbs htail hr'
      next hle =>
        obtain rfl : new :: next :: bs = rest := (List.cons.inj hins).2
        have hne : ∀ c ∈ bs, c.start ≠ new.start := by
          intro c hc
          have := (wellFormed_cons.mp hbs).2.2 c hc
          omega
        rw [ummUnmapPagesLoop, if_pos rfl] at hrun
        simp only [ummUnmapPagesLoop_of_ne pages hne] at hrun
        exact (Prod.mk.inj (Option.some.inj hrun)).2.symm

/-- INTERNAL: the undo unmaps the pages of the new block or nothing.
SRCLINE: umm.c:13-40, 50-66 -/
theorem insertBlock_undo (h : WellFormed blocks) {r : List UmmBlock}
    (hrun : ummUnmapPages pages new.start (insertBlock new blocks) s = some (r, s')) :
    s' = s ∨ s' = unmapBlock pages new s := by
  cases blocks with
  | nil => exact .inl (Prod.mk.inj (Option.some.inj hrun)).2.symm
  | cons first rest =>
      rw [insertBlock] at hrun
      split at hrun
      next hlt =>
        obtain ⟨tail, htail⟩ := insertBehind_head new first rest
        rw [htail] at hrun
        exact .inr (insertBehind_undo pages h htail hrun)
      next hlt =>
        split at hrun
        next hlt' =>
          have hne : ∀ c ∈ first :: rest, c.start ≠ new.start := by
            refine List.forall_mem_cons.mpr ⟨Nat.ne_of_gt hlt', fun c hc => ?_⟩
            have := (wellFormed_cons.mp h).2.2 c hc
            omega
          rw [ummUnmapPages, ummUnmapPagesLoop_of_ne pages hne] at hrun
          exact .inl (Prod.mk.inj (Option.some.inj hrun)).2.symm
        next => exact .inl (Prod.mk.inj (Option.some.inj hrun)).2.symm

end

/-! ## The request -/

section

variable {φ : Type} (k : KernelLayout) (files : FileOps φ)

/-- The address that a request is mapped at, `none` where there is no space. -/
def mmapStart (addr len flags : ℕ) (blocks : List UmmBlock) : Option ℕ :=
  if hasFlag flags syscallMmapFlagFixed then some addr else firstFitStart len blocks

/-- The file can be moved to `offset`, and back to where it was after the read. -/
def SeeksSucceed (fd offset length : ℕ) (f : φ) : Prop :=
  let cur := files.sysLseek fd 0 syscallLseekCur f
  let seek := files.sysLseek fd offset syscallLseekSet cur.2
  seek.1 = offset ∧
    (files.sysLseek fd cur.1 syscallLseekSet (files.sysRead fd length seek.2).2).1 = cur.1

/-- The position of a file. -/
def position (fd : ℕ) (f : φ) : ℕ := (files.sysLseek fd 0 syscallLseekCur f).1

/-- The process is as it was: its block list, its page mappings, the frames taken, and the
position of the file. -/
structure Unchanged (fd : ℕ) (u u' : UserState (Vmm Pmm) φ) : Prop where
  blocks : u'.blocks = u.blocks
  mappings : ∀ v < userMemoryEnd, (virtToPhys k v u'.paging).1 = (virtToPhys k v u.paging).1
  frames : ∀ b, u'.paging.alloc.used b ↔ u.paging.alloc.used b
  position : position files fd u'.files = position files fd u.files

/-- The call ends, and when it reports a failure the process is as it was. -/
def MmapAtomic (addr length : BitVec 32) (prot flags fd : ℕ) (offset : BitVec 32)
    (u : UserState (Vmm Pmm) φ) : Prop :=
  ∃ res u', sysMmap (pageOps k pmmFrames) files addr.toNat length.toNat prot flags fd
      offset.toNat u = some (res, u') ∧
    (res = 0 ∨ res = mapFailed → Unchanged k files fd u u')

/-- The address is misaligned, there is no space, or nothing fails after the mapping, whose
address is not one that reports a failure. -/
def MmapOk (addr length : BitVec 32) (flags fd : ℕ) (offset : BitVec 32)
    (u : UserState (Vmm Pmm) φ) : Prop :=
  addr.toNat % 0x1000 ≠ 0 ∨
    ∀ start ∈ mmapStart addr.toNat (roundLength length.toNat) flags u.blocks,
      start ≠ 0 ∧ start ≠ mapFailed ∧ (hasFlag flags syscallMmapFlagAnonymous ∨
        SeeksSucceed files fd offset.toNat length.toNat u.files)

/-- A request for user memory, by a process whose page tables are sound, with frames left
for its pages and their page tables. -/
structure CanMap (addr length : BitVec 32) (flags : ℕ) (u : UserState (Vmm Pmm) φ) : Prop where
  wellFormed : WellFormed u.blocks
  nonempty : 0 < roundLength length.toNat
  fixed : hasFlag flags syscallMmapFlagFixed →
    addr.toNat + roundLength length.toNat ≤ userMemoryEnd
  paging : PagingUsed k u.paging
  supply : u.paging.alloc.Supplies (2 * (roundLength length.toNat / 0x1000))

variable {k files} {addr length : BitVec 32} {prot flags fd : ℕ} {offset : BitVec 32}
  {u : UserState (Vmm Pmm) φ}

theorem seeksSucceed_iff {fd offset length : ℕ} {f : φ} :
    SeeksSucceed files fd offset length f ↔ (mmapFile files fd offset length f).1 = true := by
  simp only [SeeksSucceed, mmapFile]
  split
  next hseek => simp [hseek]
  next hseek => simp [not_not.mp hseek]

/-- INTERNAL: what a request with an aligned address does.
SRCLINE: sys.c:106-148 -/
theorem sysMmap_eq {σ : Type} (pages : PageOps σ) {addr length offset : ℕ} {u : UserState σ φ}
    (halign : addr % 0x1000 = 0) :
    sysMmap pages files addr length prot flags fd offset u =
      match mmapStart addr (roundLength length) flags u.blocks with
      | none => some (mapFailed, u)
      | some start => mmapFill pages files start length flags fd offset
          { u with
            blocks := insertBlock ⟨start, roundLength length, prot, flags⟩ u.blocks
            paging := mapPages pages start (roundLength length) prot u.paging } := by
  rw [sysMmap, if_neg (not_not.mpr halign), mmapStart]
  cases hfixed : hasFlag flags syscallMmapFlagFixed with
  | true => rfl
  | false =>
      simp only [Bool.false_eq_true, if_false, uallocPages]
      cases firstFitStart (roundLength length) u.blocks with
      | none => rfl
      | some start => rfl

/-- INTERNAL: a request that meets `MmapOk` fails before anything is mapped, or not at all. -/
theorem mmapAtomic_of_ok (h : MmapOk files addr length flags fd offset u) :
    MmapAtomic k files addr length prot flags fd offset u := by
  have hsame : Unchanged k files fd u u :=
    ⟨rfl, fun _ _ => rfl, fun _ => Iff.rfl, rfl⟩
  by_cases halign : addr.toNat % 0x1000 = 0
  · have hstart := h.resolve_left (not_not.mpr halign)
    unfold MmapAtomic
    rw [sysMmap_eq _ halign]
    cases hcase : mmapStart addr.toNat (roundLength length.toNat) flags u.blocks with
    | none => exact ⟨_, _, rfl, fun _ => hsame⟩
    | some start =>
        obtain ⟨hzero, hfailed, hfile⟩ := hstart start hcase
        simp only [mmapFill, if_neg hzero]
        split
        next => exact ⟨_, _, rfl, fun hfail => absurd hfail (not_or.mpr ⟨hzero, hfailed⟩)⟩
        next hanon =>
          rw [if_pos (seeksSucceed_iff.mp (hfile.resolve_left hanon))]
          exact ⟨_, _, rfl, fun hfail => absurd hfail (not_or.mpr ⟨hzero, hfailed⟩)⟩
  · refine ⟨0, u, ?_, fun _ => hsame⟩
    rw [sysMmap, if_pos halign]

/-- INTERNAL: the pages of a block of user memory lie outside the window. -/
theorem outsideWindow_of_lt {v : ℕ} (h : v < userMemoryEnd) : OutsideWindow v := by
  unfold userMemoryEnd at h
  unfold OutsideWindow pageDirIndex
  omega

/-- INTERNAL: the pages of a range are distinct. -/
theorem pageRange_nodup (lo hi : ℕ) : ((pageRange lo hi).map (· / 0x1000)).Nodup := by
  unfold pageRange
  rw [List.nodup_iff_pairwise_ne, List.pairwise_map]
  refine (List.pairwise_lt_range' 0x1000).imp_of_mem fun ha hb hlt => ?_
  obtain ⟨i, -, rfl⟩ := List.mem_range'.mp ha
  obtain ⟨j, -, rfl⟩ := List.mem_range'.mp hb
  omega

/-- INTERNAL: the pages of a block are distinct and lie outside the window. -/
theorem pageRange_spec {start len : ℕ} (hstart : 0x1000 ∣ start) (hlen : 0x1000 ∣ len)
    (hle : start + len ≤ userMemoryEnd) :
    (pageRange start (add32 start len)).length = len / 0x1000 ∧
    (∀ v ∈ pageRange start (add32 start len), OutsideWindow v) ∧
    ((pageRange start (add32 start len)).map (· / 0x1000)).Nodup := by
  have hnodup := pageRange_nodup start (add32 start len)
  obtain ⟨p, rfl⟩ := hstart
  obtain ⟨n, rfl⟩ := hlen
  have hstop : add32 (0x1000 * p) (0x1000 * n) = 0x1000 * p + n * 0x1000 := by
    rw [add32_eq (by unfold userMemoryEnd at hle; omega)]
    omega
  rw [hstop, pageRange_add] at hnodup ⊢
  refine ⟨by rw [List.length_range']; omega, fun v hv => ?_, hnodup⟩
  obtain ⟨i, hi, rfl⟩ := List.mem_range'.mp hv
  exact outsideWindow_of_lt (by omega)

/-- INTERNAL: a block is taken for good once it is mapped.
SRCLINE: umm.c:42-63 -/
theorem mapPages_leaks {s : Vmm Pmm} {new : UmmBlock} (hnew : PageBlock new)
    (hpaging : PagingUsed k s) (hsupply : s.alloc.Supplies (2 * (new.len / 0x1000))) :
    let s' := mapPages (pageOps k pmmFrames) new.start new.len new.prot s
    ∃ b, ¬ s.alloc.used b ∧ s'.alloc.used b ∧
      (unmapBlock (pageOps k pmmFrames) new s').alloc.used b := by
  obtain ⟨hlength, hout, hnodup⟩ := pageRange_spec hnew.start_dvd hnew.len_dvd hnew.stop_le
  have hne : pageRange new.start (add32 new.start new.len) ≠ [] := by
    intro hnil
    have hpos := hnew.len_pos
    obtain ⟨n, hn⟩ := hnew.len_dvd
    rw [hnil, List.length_nil] at hlength
    omega
  have hleak := mapped_stays_used hpaging hne hout hnodup (hasFlag new.prot ummBlockProtWrite)
    (hlength ▸ hsupply)
  simpa only [mapPages, unmapBlock, pageOps] using hleak

/-- INTERNAL: in user memory and with frames to take, every other request that fails
changes the process. -/
theorem mmapOk_of_atomic (hcan : CanMap k addr length flags u)
    (h : MmapAtomic k files addr length prot flags fd offset u) :
    MmapOk files addr length flags fd offset u := by
  refine or_iff_not_imp_left.mpr fun halign start hstart => ?_
  rw [not_not] at halign
  have hrange : 0x1000 ∣ start ∧ (u.blocks = [] ∧ start = 0 ∨
      start + roundLength length.toNat ≤ userMemoryEnd) := by
    unfold mmapStart at hstart
    split at hstart
    next hflag =>
      obtain rfl := Option.some.inj hstart
      exact ⟨Nat.dvd_of_mod_eq_zero halign, .inr (hcan.fixed hflag)⟩
    next =>
      obtain ⟨hdvd, hend, -⟩ := firstFitStart_spec hcan.wellFormed hstart
      exact ⟨hdvd, hend⟩
  obtain ⟨hdvd, hend⟩ := hrange
  obtain ⟨res, u', hrun, hsame⟩ := h
  rw [sysMmap_eq _ halign, hstart] at hrun
  let new : UmmBlock := ⟨start, roundLength length.toNat, prot, flags⟩
  have hnew : start + roundLength length.toNat ≤ userMemoryEnd → PageBlock new := fun hle =>
    ⟨hdvd, Dvd.intro_left _ rfl, hcan.nonempty, hle⟩
  have hleak := fun hle => mapPages_leaks (hnew hle) hcan.paging hcan.supply
  by_cases hzero : start = 0
  · -- `NULL`: the block is mapped, and a failure reported
    simp only [mmapFill, if_pos hzero] at hrun
    obtain ⟨rfl, rfl⟩ := Prod.mk.inj (Option.some.inj hrun)
    have hsame := hsame (.inr rfl)
    obtain ⟨hnil, -⟩ | hle := hend
    · have hblocks := hsame.blocks
      rw [hnil] at hblocks
      cases hblocks
    · obtain ⟨b, hfree, hused, -⟩ := hleak hle
      exact absurd ((hsame.frames b).mp hused) hfree
  · have hle := hend.resolve_left fun hnil => hzero hnil.2
    refine ⟨hzero, by unfold mapFailed; omega, or_iff_not_imp_left.mpr fun hanon => ?_⟩
    rw [seeksSucceed_iff]
    by_contra hseek
    -- a seek fails: the undo frees no frame
    simp only [mmapFill, if_neg hzero, if_neg hanon, if_neg hseek] at hrun
    obtain ⟨⟨r, s'⟩, hundo, hmap⟩ := Option.map_eq_some_iff.mp hrun
    obtain ⟨rfl, rfl⟩ := Prod.mk.inj hmap
    have hsame := hsame (.inr rfl)
    obtain ⟨b, hfree, hused, hused'⟩ := hleak hle
    refine absurd ((hsame.frames b).mp ?_) hfree
    obtain rfl | rfl := insertBlock_undo _ hcan.wellFormed hundo
    · exact hused
    · exact hused'

/-- **A failed `mmap` leaves nothing behind** if it meets `MmapOk`.  With frames to map, a
request that does not meet it either reports a failure with its pages mapped or their
frames lost, or follows a `NULL` link.
SRCLINE: sys.c:106-148 -/
theorem mmap_atomic_iff (addr length : BitVec 32) (prot flags fd : ℕ) (offset : BitVec 32)
    (u : UserState (Vmm Pmm) φ) :
    (MmapOk files addr length flags fd offset u →
      MmapAtomic k files addr length prot flags fd offset u) ∧
    (CanMap k addr length flags u →
      (MmapAtomic k files addr length prot flags fd offset u ↔
        MmapOk files addr length flags fd offset u)) :=
  ⟨mmapAtomic_of_ok, fun hcan => ⟨mmapOk_of_atomic hcan, mmapAtomic_of_ok⟩⟩

end

/-- Blocks 3 to 15 are free. -/
def thirteenFreeBlocks : Pmm where
  bitmap := fun i => if i = 0 then 0x07 else if i = 1 then 0x00 else 0xFF
  bitmapLen := 16
  lastFreedBlock := 0
  bitmapLen_lt := by norm_num

/-- A process without user memory. -/
def emptyProcess : UserState (Vmm Pmm) Unit where
  blocks := []
  paging := ⟨emptyDirectory.phys, thirteenFreeBlocks⟩
  files := ()

theorem emptyProcess_canMap (flags : ℕ)
    (hfixed : hasFlag flags syscallMmapFlagFixed = false) :
    CanMap twoFrames 0 0x1000 flags emptyProcess := by
  have hstart : StartsEmpty twoFrames emptyProcess.paging :=
    ⟨by decide, by decide, by decide, by decide +kernel⟩
  refine ⟨wellFormed_nil, by decide, fun h => ?_, ⟨hstart.holdsMap.1, fun f hf => ?_⟩, ?_⟩
  · rw [hfixed] at h
    cases h
  · obtain rfl | ⟨d, hd, hpres, rfl⟩ := hf
    · decide +kernel
    · rw [hstart.eq_768 hd hpres]
      decide +kernel
  · exact ⟨by decide +kernel, by decide +kernel, trivial⟩

/-- A request at a fixed address, and one for the first pages of user memory. -/
theorem mmap_atomic_iff_empty :
    MmapAtomic twoFrames noFiles 0x400000 0x1000 3 0x32 0 0 emptyProcess ∧
    (MmapAtomic twoFrames noFiles 0 0x1000 3 0x22 0 0 emptyProcess ↔
      MmapOk noFiles 0 0x1000 0x22 0 0 emptyProcess) := by
  constructor
  · refine (mmap_atomic_iff 0x400000 0x1000 3 0x32 0 0 emptyProcess).1 (.inr ?_)
    rintro start hstart
    obtain rfl := Option.some.inj hstart
    exact ⟨by decide, by decide, .inl (by decide)⟩
  · exact (mmap_atomic_iff 0 0x1000 3 0x22 0 0 emptyProcess).2 (emptyProcess_canMap 0x22 (by decide))

/-- The first request of a process is mapped at address 0 and reported as failed. -/
theorem mmap_first_request_fails :
    ¬ MmapAtomic twoFrames noFiles 0 0x1000 3 0x22 0 0 emptyProcess := by
  rintro ⟨res, u', hrun, hsame⟩
  have hblocks : (sysMmap (pageOps twoFrames pmmFrames) noFiles 0 0x1000 3 0x22 0 0
      emptyProcess).map (fun r => (r.1, r.2.blocks)) =
        some (mapFailed, [⟨0, 0x1000, 3, 0x22⟩]) := by rfl
  have hpair := hblocks.symm.trans (congrArg (Option.map fun r => (r.1, r.2.blocks)) hrun)
  obtain ⟨rfl, hnew⟩ := Prod.mk.inj (Option.some.inj hpair)
  have hold := (hsame (.inr rfl)).blocks
  rw [← hnew] at hold
  cases hold

end LakeOS.Analysis
