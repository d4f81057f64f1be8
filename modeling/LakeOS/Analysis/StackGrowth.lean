import Mathlib.Data.List.Induction
import LakeOS.Analysis.UserMapping
import LakeOS.Analysis.FreshPages

/-!
# Growth on page faults

A fault in the gap below a block that grows down moves the start of the block one page
down, as long as the gap has two pages.  `Grown` is the invariant of a run of faults: every
block is the one it was, or grows down and keeps a page free below it.  Taken again, a
fault at one address brings the block one page nearer each time.

The size of the gap is a difference of pointers, which is signed: a gap of 2 GiB or more
counts as negative, and nothing grows into it.
-/

set_option autoImplicit false

namespace LakeOS.Analysis

open LakeOS.Library LakeOS.Model Vmm

variable {blocks as bs old new : List UmmBlock} {b : UmmBlock} {a lo : ℕ}

/-! ## One fault, in the list -/

/-- Where the gap above some blocks begins: behind the last of them, and at `lo` if there
is none. -/
def gapStart (lo : ℕ) (as : List UmmBlock) : ℕ := as.foldl (fun _ b => b.start + b.len) lo

/-- The end of the lower neighbour, or the start of user memory. -/
def lowerEnd (as : List UmmBlock) : ℕ := gapStart userMemoryStart as

theorem gapStart_cons (lo : ℕ) (b : UmmBlock) (as : List UmmBlock) :
    gapStart lo (b :: as) = gapStart (b.start + b.len) as := rfl

theorem lowerEnd_concat (as : List UmmBlock) (b : UmmBlock) :
    lowerEnd (as ++ [b]) = b.start + b.len := by
  unfold lowerEnd gapStart
  rw [List.foldl_append]
  rfl

/-- The block grows down. -/
def GrowsDown (b : UmmBlock) : Prop := hasFlag b.flags ummBlockFlagGrowsdown

instance (b : UmmBlock) : Decidable (GrowsDown b) := inferInstanceAs (Decidable (_ = true))

theorem WellFormed.lowerEnd_le (h : WellFormed (as ++ b :: bs)) :
    lowerEnd as ≤ b.start ∧ 0x1000 ∣ lowerEnd as := by
  cases as using List.reverseRecOn with
  | nil => exact ⟨Nat.zero_le _, Nat.dvd_zero _⟩
  | append_singleton as c =>
      rw [lowerEnd_concat]
      obtain ⟨-, -, has, -⟩ := wellFormed_middle.mp h
      have hc := h.pages c (by simp)
      exact ⟨has c (by simp), Nat.dvd_add hc.start_dvd hc.len_dvd⟩

/-- INTERNAL: every block below the gap ends by `lowerEnd`. -/
theorem WellFormed.stop_le_lowerEnd (h : WellFormed (as ++ bs)) {c : UmmBlock} (hc : c ∈ as) :
    c.start + c.len ≤ lowerEnd as := by
  induction as using List.reverseRecOn with
  | nil => exact absurd hc List.not_mem_nil
  | append_singleton as d _ =>
      rw [List.append_assoc, List.singleton_append] at h
      obtain ⟨-, -, has, -⟩ := wellFormed_middle.mp h
      rw [lowerEnd_concat]
      rcases List.mem_append.mp hc with hc | hc
      · have := has c hc
        omega
      · rw [List.mem_singleton.mp hc]

/-- INTERNAL: the walk stops at the block above the gap.
SRCLINE: umm.c:121-148 -/
theorem growBehind_gap {iter : UmmBlock} (h : WellFormed (iter :: as ++ b :: bs))
    (hlo : lowerEnd (iter :: as) ≤ a) (hhi : a < b.start) :
    growBehind a iter (as ++ b :: bs) =
      if roomToGrow (lowerEnd (iter :: as)) b.start ∧ GrowsDown b then
        some (growBlock b, iter :: as ++ growBlock b :: bs)
      else none := by
  induction as generalizing iter with
  | nil =>
      have hend : lowerEnd [iter] = iter.start + iter.len := rfl
      rw [hend] at hlo ⊢
      rw [List.nil_append, growBehind, h.stop_eq (by simp), if_pos ⟨hlo, hhi⟩]
      rfl
  | cons c as ih =>
      have hsame : lowerEnd (iter :: c :: as) = lowerEnd (c :: as) := rfl
      rw [hsame] at hlo ⊢
      have hrest : WellFormed (c :: as ++ b :: bs) := (wellFormed_cons.mp h).1
      have hstop := hrest.stop_le_lowerEnd (List.mem_cons_self : c ∈ c :: as)
      rw [List.cons_append, growBehind, if_neg (by omega), ih hrest hlo]
      split
      next => rfl
      next => rfl

/-- INTERNAL: **a fault in a gap**: the block above it grows, or the handler does not
return.
SRCLINE: umm.c:98-148 -/
theorem growDown_gap (h : WellFormed (as ++ b :: bs)) (hlo : lowerEnd as ≤ a) (hhi : a < b.start) :
    growDown a (as ++ b :: bs) =
      if roomToGrow (lowerEnd as) b.start ∧ GrowsDown b then
        some (growBlock b, as ++ growBlock b :: bs)
      else none := by
  cases as with
  | nil =>
      rw [List.nil_append, growDown, if_pos hhi]
      rfl
  | cons first as =>
      have hstop := h.stop_le_lowerEnd (List.mem_cons_self : first ∈ first :: as)
      rw [List.cons_append, growDown, if_neg (by omega)]
      exact growBehind_gap h hlo hhi

/-- INTERNAL: a fault that is handled lies in a gap. -/
theorem growBehind_some {iter : UmmBlock} {r : UmmBlock × List UmmBlock}
    (h : WellFormed (iter :: bs)) (hgrow : growBehind a iter bs = some r) :
    ∃ cs c ds, iter :: bs = iter :: cs ++ c :: ds ∧ lowerEnd (iter :: cs) ≤ a ∧ a < c.start := by
  induction bs generalizing iter r with
  | nil => exact absurd hgrow (Option.some_ne_none _).symm
  | cons next rest ih =>
      rw [growBehind, h.stop_eq List.mem_cons_self] at hgrow
      by_cases hgap : iter.start + iter.len ≤ a ∧ a < next.start
      · exact ⟨[], next, rest, rfl, hgap.1, hgap.2⟩
      · rw [if_neg hgap] at hgrow
        obtain ⟨r', hr', -⟩ := Option.map_eq_some_iff.mp hgrow
        obtain ⟨cs, c, ds, hsplit, hlo, hhi⟩ := ih (wellFormed_cons.mp h).1 hr'
        refine ⟨next :: cs, c, ds, ?_, hlo, hhi⟩
        rw [hsplit]
        rfl

theorem growDown_some {r : UmmBlock × List UmmBlock} (h : WellFormed blocks)
    (hgrow : growDown a blocks = some r) :
    ∃ cs c ds, blocks = cs ++ c :: ds ∧ lowerEnd cs ≤ a ∧ a < c.start := by
  cases blocks with
  | nil => exact absurd hgrow (Option.some_ne_none _).symm
  | cons first rest =>
      rw [growDown] at hgrow
      by_cases hlow : a < first.start
      · exact ⟨[], first, rest, rfl, Nat.zero_le _, hlow⟩
      · rw [if_neg hlow] at hgrow
        obtain ⟨cs, c, ds, hsplit, hlo, hhi⟩ := growBehind_some h hgrow
        exact ⟨first :: cs, c, ds, hsplit, hlo, hhi⟩

/-- INTERNAL: the size of a gap, as the handler reads it. -/
theorem roomToGrow_iff {start : ℕ} (hle : lo ≤ start) (hlt : start < 2 ^ 32) :
    roomToGrow lo start ↔ lo + 0x2000 ≤ start ∧ start - lo < 2 ^ 31 := by
  unfold roomToGrow
  rw [sub32_eq hle hlt, Bool.and_eq_true, decide_eq_true_eq, decide_eq_true_eq]
  omega

/-- A block that is `n` pages longer, downwards. -/
@[irreducible]
def longer (n : ℕ) (b : UmmBlock) : UmmBlock :=
  { b with start := b.start - n * 0x1000, len := b.len + n * 0x1000 }

theorem longer_spec {n : ℕ} (h : n * 0x1000 ≤ b.start) :
    (longer n b).start + n * 0x1000 = b.start ∧ (longer n b).len = b.len + n * 0x1000 := by
  unfold longer
  exact ⟨Nat.sub_add_cancel h, rfl⟩

theorem longer_one (h : 0x1000 ≤ b.start) :
    (longer 1 b).start + 0x1000 = b.start ∧ (longer 1 b).len = b.len + 0x1000 := by
  have hone := longer_spec (n := 1) (b := b) (by omega)
  rwa [Nat.one_mul] at hone

theorem growsDown_longer (n : ℕ) : GrowsDown (longer n b) ↔ GrowsDown b := by
  unfold longer
  exact Iff.rfl

theorem longer_longer (n : ℕ) (b : UmmBlock) : longer 1 (longer n b) = longer (n + 1) b := by
  have hmul : (n + 1) * 0x1000 = n * 0x1000 + 1 * 0x1000 := Nat.add_mul n 1 _
  unfold longer
  rw [hmul, ← Nat.sub_sub, ← Nat.add_assoc]

/-- INTERNAL: a block that grows leaves the list well-formed.
SRCLINE: umm.c:108-109, umm.c:132-133 -/
theorem growBlock_spec (h : WellFormed (as ++ b :: bs)) (hroom : lowerEnd as + 0x1000 ≤ b.start) :
    growBlock b = longer 1 b ∧ WellFormed (as ++ longer 1 b :: bs) := by
  obtain ⟨hrest, ⟨hstart, hlen, hpos, hstop⟩, -, hbs⟩ := wellFormed_middle.mp h
  unfold userMemoryEnd at hstop
  have hsub : sub32 b.start 0x1000 = b.start - 1 * 0x1000 := sub32_eq (by omega) (by omega)
  have hadd : add32 b.len 0x1000 = b.len + 1 * 0x1000 := add32_eq (by omega)
  have hnew := longer_one (b := b) (by omega)
  constructor
  · unfold growBlock longer
    rw [hsub, hadd]
  · refine wellFormed_middle.mpr ⟨hrest, ⟨by omega, by omega, by omega, ?_⟩, fun c hc => ?_,
      fun c hc => ?_⟩
    · unfold userMemoryEnd
      omega
    · have := h.stop_le_lowerEnd hc
      omega
    · have := hbs c hc
      omega

/-- One block grows by one page, towards a fault in the gap below it, and a page of the gap
is left. -/
def GrowsOne (a : ℕ) (old new : List UmmBlock) : Prop :=
  ∃ as b bs, old = as ++ b :: bs ∧ new = as ++ longer 1 b :: bs ∧ GrowsDown b ∧
    (lowerEnd as ≤ a ∧ a < b.start) ∧ lowerEnd as + 0x2000 ≤ b.start

/-- INTERNAL: **a fault that is handled**.
SRCLINE: umm.c:98-148 -/
theorem growDown_spec {r : UmmBlock × List UmmBlock} (h : WellFormed blocks)
    (hgrow : growDown a blocks = some r) : WellFormed r.2 ∧ GrowsOne a blocks r.2 ∧
      ∃ as b bs, blocks = as ++ b :: bs ∧ r.2 = as ++ longer 1 b :: bs ∧ r.1 = longer 1 b ∧
        0x1000 ≤ b.start := by
  obtain ⟨as, b, bs, rfl, hlo, hhi⟩ := growDown_some h hgrow
  have hle := h.lowerEnd_le
  have hstop := (h.pages b (by simp)).stop_le
  unfold userMemoryEnd at hstop
  rw [growDown_gap h hlo hhi] at hgrow
  by_cases hroom : roomToGrow (lowerEnd as) b.start ∧ GrowsDown b
  · have hgap := (roomToGrow_iff hle.1 (by omega)).mp hroom.1
    obtain ⟨hlonger, hwf⟩ := growBlock_spec h (by omega)
    rw [if_pos hroom, hlonger] at hgrow
    have hr : r = (longer 1 b, as ++ longer 1 b :: bs) := (Option.some.inj hgrow).symm
    rw [hr]
    exact ⟨hwf, ⟨as, b, bs, rfl, rfl, hroom.2, ⟨hlo, hhi⟩, hgap.1⟩, as, b, bs, rfl, rfl, rfl,
      by omega⟩
  · rw [if_neg hroom] at hgrow
    exact absurd hgrow (Option.some_ne_none _).symm

/-! ## Runs of faults -/

/-- `Grown lo old new`: each block is the one it was, or one that grows down and has grown
by some pages, with a page left between it and the block below it, which ends at `lo` for
the first. -/
inductive Grown : ℕ → List UmmBlock → List UmmBlock → Prop
  | nil (lo : ℕ) : Grown lo [] []
  | same {lo : ℕ} {b : UmmBlock} {old new : List UmmBlock}
      (hrest : Grown (b.start + b.len) old new) :
      Grown lo (b :: old) (b :: new)
  | down {lo n : ℕ} {b : UmmBlock} {old new : List UmmBlock} (hflag : GrowsDown b)
      (hguard : lo + 0x1000 + n * 0x1000 ≤ b.start) (hrest : Grown (b.start + b.len) old new) :
      Grown lo (b :: old) (longer n b :: new)

theorem Grown.refl (lo : ℕ) (blocks : List UmmBlock) : Grown lo blocks blocks := by
  induction blocks generalizing lo with
  | nil => exact .nil lo
  | cons b blocks ih => exact .same (ih _)

theorem stop_longer {n : ℕ} (h : n * 0x1000 ≤ b.start) :
    (longer n b).start + (longer n b).len = b.start + b.len := by
  have hnew := longer_spec h
  omega

/-- INTERNAL: a block of the list grows once more. -/
theorem Grown.grow (h : Grown lo old (as ++ b :: bs)) (hflag : GrowsDown b)
    (hroom : gapStart lo as + 0x2000 ≤ b.start) : Grown lo old (as ++ longer 1 b :: bs) := by
  induction as generalizing lo old with
  | nil =>
      change lo + 0x2000 ≤ b.start at hroom
      rw [List.nil_append] at h ⊢
      cases h with
      | same hrest => exact .down hflag (by omega) hrest
      | @down _ n b old _ hflag' hguard hrest =>
          rw [longer_longer]
          have hstart := (longer_spec (n := n) (b := b) (by omega)).1
          have hnext : lo + 0x1000 + (n + 1) * 0x1000 ≤ b.start := by
            rw [Nat.succ_mul, ← Nat.add_assoc]
            omega
          exact .down hflag' hnext hrest
  | cons c as ih =>
      rw [List.cons_append] at h ⊢
      rw [gapStart_cons] at hroom
      cases h with
      | same hrest => exact .same (ih hrest hroom)
      | @down _ n c old _ hflag' hguard hrest =>
          rw [stop_longer (by omega)] at hroom
          exact .down hflag' hguard (ih hrest hroom)

section

variable {φ : Type}

/-- The handler takes faults in turn. -/
def takeFaults {σ : Type} (space : AddressSpace σ) : List ℕ → UserState σ φ → Option (UserState σ φ)
  | [], u => some u
  | a :: faults, u => (ummPageFltHandler space a u).bind (takeFaults space faults)

/-- `alloc_page` finds the frames that every fault asks for. -/
def FaultsServed (k : KernelLayout) : List ℕ → UserState (Vmm Pmm) φ → Prop
  | [], _ => True
  | a :: faults, u =>
      (∀ r, growDown a u.blocks = some r → FramesFor k r.1.start u.paging) ∧
      ∀ u', ummPageFltHandler (vmmSpace k) a u = some u' → FaultsServed k faults u'

/-- What a run of faults makes of a process: a well-formed list that has grown, and no page
outside its blocks has another entry. -/
structure StackRun (k : KernelLayout) (u u' : UserState (Vmm Pmm) φ) : Prop where
  wellFormed : WellFormed u'.blocks
  grown : Grown userMemoryStart u.blocks u'.blocks
  paging : PagingUsed k u'.paging
  unmapped : ∀ v < userMemoryEnd, (∀ c ∈ u'.blocks, v ∉ ummExtent c) →
    entryOf k u'.paging v = entryOf k u.paging v

variable {k : KernelLayout} {u u' u'' : UserState (Vmm Pmm) φ}

/-- INTERNAL: a handled fault, by its list. -/
theorem handler_some {σ : Type} {space : AddressSpace σ} {u u' : UserState σ φ}
    (h : ummPageFltHandler space a u = some u') :
    ∃ r, growDown a u.blocks = some r ∧ u'.blocks = r.2 ∧
      u'.paging = space.mapFresh r.1.start (hasFlag r.1.prot ummBlockProtWrite) u.paging := by
  obtain ⟨r, hr, rfl⟩ := Option.map_eq_some_iff.mp h
  exact ⟨r, hr, rfl, rfl⟩

/-- INTERNAL: **one fault** of a run. -/
theorem StackRun.fault (h : StackRun k u u')
    (hfault : ummPageFltHandler (vmmSpace k) a u' = some u'')
    (hok : ∀ r, growDown a u'.blocks = some r → FramesFor k r.1.start u'.paging) :
    StackRun k u u'' := by
  obtain ⟨r, hr, hblocks, hpaging⟩ := handler_some hfault
  obtain ⟨hwf, ⟨as, b, bs, hold, hnew, hflag, -, hroom⟩, -⟩ := growDown_spec h.wellFormed hr
  obtain ⟨-, -, as', b', bs', hold', hnew', hgrown, hpage⟩ := growDown_spec h.wellFormed hr
  have hpages := h.wellFormed.pages b' (by rw [hold']; simp)
  have hb' := hpages.stop_le
  have hdvd := hpages.start_dvd
  unfold userMemoryEnd at hb'
  have hnext := longer_one hpage
  rw [← hgrown] at hnext
  have hedited : EditedPage k r.1.start :=
    (outsideWindow_of_lt (by unfold userMemoryEnd; omega)).edited
  obtain ⟨hused, -, hkept⟩ := h.paging.mapFresh hedited (hok r hr)
    (hasFlag r.1.prot ummBlockProtWrite)
  have hpaging' : u''.paging = mapFresh k pmmFrames r.1.start
      (hasFlag r.1.prot ummBlockProtWrite) u'.paging := hpaging
  refine ⟨hblocks ▸ hwf, ?_, hpaging' ▸ hused, fun v hv hout => ?_⟩
  · rw [hblocks, hnew]
    exact (hold ▸ h.grown).grow hflag hroom
  · rw [hblocks, hnew'] at hout
    have hvout := hout (longer 1 b') (by simp)
    rw [Extent.mem_def, ← hgrown] at hvout
    unfold Extent.stop ummExtent at hvout
    dsimp only at hvout
    rw [hpaging', hkept v (outsideWindow_of_lt hv).edited (by omega)]
    apply h.unmapped v hv
    intro c hc
    rw [hold'] at hc
    rcases List.mem_append.mp hc with hc | hc
    · exact hout c (by simp [hc])
    · rcases List.mem_cons.mp hc with rfl | hc
      · rw [Extent.mem_def]
        unfold Extent.stop ummExtent
        dsimp only
        omega
      · exact hout c (by simp [hc])

/-- INTERNAL: **a run of faults**. -/
theorem StackRun.faults (h : StackRun k u u') {faults : List ℕ} (hok : FaultsServed k faults u')
    (hrun : takeFaults (vmmSpace k) faults u' = some u'') : StackRun k u u'' := by
  induction faults generalizing u' with
  | nil => exact Option.some.inj hrun ▸ h
  | cons a faults ih =>
      obtain ⟨u₁, hfault, hrest⟩ := Option.bind_eq_some_iff.mp hrun
      exact ih (h.fault hfault hok.1) (hok.2 u₁ hfault) hrest

/-! ## The same fault again -/

variable {σ : Type} (space : AddressSpace σ)

/-- Taken again and again, the fault at `a` ends with `a` inside the block. -/
def EndsInside (a : ℕ) (b : UmmBlock) (u : UserState σ φ) : Prop :=
  ∃ n u', takeFaults space (List.replicate n a) u = some u' ∧
    ∃ c ∈ u'.blocks, a ∈ ummExtent c ∧ c.start + c.len = b.start + b.len

/-- The handler reaches its fatal path with `a` in no block. -/
def ReachesFatal (a : ℕ) (u : UserState σ φ) : Prop :=
  ∃ n u', takeFaults space (List.replicate n a) u = some u' ∧
    (∀ c ∈ u'.blocks, a ∉ ummExtent c) ∧ ummPageFltHandler space a u' = none

/-- What should become of a fault in the gap below `b`, which begins at `lo`. -/
def RetakeOk (lo a : ℕ) (b : UmmBlock) (u : UserState σ φ) : Prop :=
  (EndsInside space a b u ∨ ReachesFatal space a u) ∧ (EndsInside space a b u ↔ lo + 0x1000 ≤ a)

variable {space} {u : UserState σ φ}

/-- INTERNAL: the handler at a fault in a gap. -/
theorem handler_gap (space : AddressSpace σ) (hu : u.blocks = as ++ b :: bs)
    (h : WellFormed (as ++ b :: bs))
    (hflag : GrowsDown b) (hlo : lowerEnd as ≤ a) (hhi : a < b.start) :
    (lowerEnd as + 0x2000 ≤ b.start ∧ b.start - lowerEnd as < 2 ^ 31 →
      ∃ u', ummPageFltHandler space a u = some u' ∧ u'.blocks = as ++ longer 1 b :: bs) ∧
    (¬ (lowerEnd as + 0x2000 ≤ b.start ∧ b.start - lowerEnd as < 2 ^ 31) →
      ummPageFltHandler space a u = none) := by
  have hle := h.lowerEnd_le
  have hstop := (h.pages b (by simp)).stop_le
  unfold userMemoryEnd at hstop
  have hroom : roomToGrow (lowerEnd as) b.start ↔ _ := roomToGrow_iff hle.1 (by omega)
  have hgrow := growDown_gap h hlo hhi
  constructor
  · intro hgap
    rw [if_pos ⟨hroom.mpr hgap, hflag⟩, (growBlock_spec h (by omega)).1] at hgrow
    rw [ummPageFltHandler, hu, hgrow]
    exact ⟨_, rfl, rfl⟩
  · intro hgap
    rw [if_neg fun hboth => hgap (hroom.mp hboth.1)] at hgrow
    rw [ummPageFltHandler, hu, hgrow]
    rfl

/-- INTERNAL: an address of a gap is in no block. -/
theorem notMem_of_gap (h : WellFormed (as ++ b :: bs)) (hlo : lowerEnd as ≤ a) (hhi : a < b.start) :
    ∀ c ∈ as ++ b :: bs, a ∉ ummExtent c := by
  intro c hc hin
  rw [Extent.mem_def] at hin
  unfold Extent.stop ummExtent at hin
  dsimp only at hin
  rcases List.mem_append.mp hc with hc | hc
  · have := h.stop_le_lowerEnd hc
    omega
  · rcases List.mem_cons.mp hc with rfl | hc
    · omega
    · have := WellFormed.start_lt h hc
      omega

/-- INTERNAL: above the lowest page of a gap, each fault brings the block one page nearer.
The induction is on the pages between the block and the address. -/
theorem endsInside_of_near {n : ℕ} (hu : u.blocks = as ++ b :: bs) (h : WellFormed (as ++ b :: bs))
    (hflag : GrowsDown b) (hlo : lowerEnd as + 0x1000 ≤ a) (hhi : a < b.start)
    (hgap : b.start - lowerEnd as < 2 ^ 31) (hn : b.start ≤ a + n * 0x1000) :
    EndsInside space a b u := by
  induction n generalizing b u with
  | zero => omega
  | succ n ih =>
      have hdvd := (h.pages b (by simp)).start_dvd
      have hdvd' := h.lowerEnd_le.2
      have hroom : lowerEnd as + 0x2000 ≤ b.start := by omega
      obtain ⟨u₁, hfault, hu₁⟩ := (handler_gap space hu h hflag (by omega) hhi).1
        ⟨hroom, hgap⟩
      have hwf := (growBlock_spec h (by omega)).2
      have hflag' := (growsDown_longer 1).mpr hflag
      have hstart := (longer_one (b := b) (by omega)).1
      have hend : (longer 1 b).start + (longer 1 b).len = b.start + b.len := stop_longer (by omega)
      have hstop := (h.pages b (by simp)).len_pos
      by_cases hnear : a < (longer 1 b).start
      · obtain ⟨m, u₂, hrun, c, hc, hin, hsame⟩ :=
          ih hu₁ hwf hflag' (by omega) (by omega) (by omega)
        refine ⟨m + 1, u₂, ?_, c, hc, hin, hsame.trans hend⟩
        rw [List.replicate_succ, takeFaults, hfault]
        exact hrun
      · refine ⟨1, u₁, ?_, longer 1 b, by rw [hu₁]; simp, ?_, hend⟩
        · show (ummPageFltHandler space a u).bind (takeFaults space []) = some u₁
          rw [hfault]
          rfl
        · rw [Extent.mem_def]
          unfold Extent.stop ummExtent
          dsimp only
          omega

/-- INTERNAL: in the lowest page of a gap, the block comes no nearer than one page above
it, and the handler does not return. -/
theorem lowest_page (hu : u.blocks = as ++ b :: bs) (h : WellFormed (as ++ b :: bs))
    (hflag : GrowsDown b) (hlo : lowerEnd as ≤ a) (hpage : a < lowerEnd as + 0x1000)
    (hhi : a < b.start) : ReachesFatal space a u := by
  obtain ⟨n, hn⟩ : ∃ n, b.start ≤ lowerEnd as + n * 0x1000 :=
    ⟨b.start, by omega⟩
  induction n generalizing b u with
  | zero => omega
  | succ n ih =>
      obtain ⟨hgrows, hfatal⟩ := handler_gap space hu h hflag hlo hhi
      by_cases hroom : lowerEnd as + 0x2000 ≤ b.start ∧ b.start - lowerEnd as < 2 ^ 31
      · obtain ⟨u₁, hfault, hu₁⟩ := hgrows hroom
        have hstart := (longer_one (b := b) (by omega)).1
        obtain ⟨m, u₂, hrun, hout, hstuck⟩ := ih hu₁ (growBlock_spec h (by omega)).2
          ((growsDown_longer 1).mpr hflag)
          (by omega) (by omega)
        refine ⟨m + 1, u₂, ?_, hout, hstuck⟩
        rw [List.replicate_succ, takeFaults, hfault]
        exact hrun
      · exact ⟨0, u, rfl, hu ▸ notMem_of_gap h hlo hhi, hfatal hroom⟩

/-- INTERNAL: and the address never is inside a block. -/
theorem not_endsInside_of_lowest (hu : u.blocks = as ++ b :: bs) (h : WellFormed (as ++ b :: bs))
    (hflag : GrowsDown b) (hlo : lowerEnd as ≤ a) (hpage : a < lowerEnd as + 0x1000)
    (hhi : a < b.start) {c : UmmBlock} : ¬ EndsInside space a c u := by
  rintro ⟨n, u', hrun, d, hd, hin, -⟩
  induction n generalizing b u with
  | zero =>
      have heq : u = u' := Option.some.inj hrun
      rw [← heq, hu] at hd
      exact notMem_of_gap h hlo hhi d hd hin
  | succ n ih =>
      rw [List.replicate_succ, takeFaults] at hrun
      obtain ⟨hgrows, hfatal⟩ := handler_gap space hu h hflag hlo hhi
      by_cases hroom : lowerEnd as + 0x2000 ≤ b.start ∧ b.start - lowerEnd as < 2 ^ 31
      · obtain ⟨u₁, hfault, hu₁⟩ := hgrows hroom
        have hstart := (longer_one (b := b) (by omega)).1
        rw [hfault] at hrun
        exact ih hu₁ (growBlock_spec h (by omega)).2 ((growsDown_longer 1).mpr hflag) (by omega)
          hrun
      · rw [hfatal hroom] at hrun
        exact absurd hrun (Option.some_ne_none _).symm

/-- INTERNAL: **a fault that is taken again** in a gap. -/
theorem retakeOk_iff (hu : u.blocks = as ++ b :: bs) (h : WellFormed (as ++ b :: bs))
    (hflag : GrowsDown b) (hlo : lowerEnd as ≤ a) (hhi : a < b.start) :
    RetakeOk space (lowerEnd as) a b u ↔
      b.start - lowerEnd as < 2 ^ 31 ∨ a < lowerEnd as + 0x1000 := by
  by_cases hpage : a < lowerEnd as + 0x1000
  · refine iff_of_true ⟨.inr (lowest_page hu h hflag hlo hpage hhi), ?_⟩ (.inr hpage)
    exact iff_of_false (not_endsInside_of_lowest hu h hflag hlo hpage hhi) (by omega)
  · by_cases hgap : b.start - lowerEnd as < 2 ^ 31
    · have hends : EndsInside space a b u :=
        endsInside_of_near (n := b.start) hu h hflag (by omega) hhi hgap (by omega)
      exact iff_of_true ⟨.inl hends, iff_of_true hends (by omega)⟩ (.inl hgap)
    · refine iff_of_false (fun hok => ?_) (by omega)
      have hfatal := (handler_gap space hu h hflag hlo hhi).2 fun hroom => hgap hroom.2
      obtain ⟨n, u', hrun, c, hc, hin, -⟩ := hok.2.mpr (by omega)
      cases n with
      | zero =>
          have heq : u = u' := Option.some.inj hrun
          rw [← heq, hu] at hc
          exact notMem_of_gap h hlo hhi c hc hin
      | succ n =>
          rw [List.replicate_succ, takeFaults, hfatal] at hrun
          exact absurd hrun (Option.some_ne_none _).symm

/-- **Stack growth on page faults.**  After every run of faults the list is well-formed,
its blocks are those it had or have grown down and left a page free below them, and no page
outside of them was mapped; the next fault moves one block one page.  A fault that is taken
again ends inside the block, unless it is in the lowest page of the gap, if and only if the
gap is smaller than 2 GiB or the fault is in its lowest page.
SRCLINE: umm.c:98-152 -/
theorem stack_growth {u u' : UserState (Vmm Pmm) φ} (hwf : WellFormed u.blocks)
    (hs : PagingUsed k u.paging) {faults : List ℕ} (hok : FaultsServed k faults u)
    (hrun : takeFaults (vmmSpace k) faults u = some u') :
    StackRun k u u' ∧
    (∀ a u'', ummPageFltHandler (vmmSpace k) a u' = some u'' → GrowsOne a u'.blocks u''.blocks) ∧
    ∀ as b bs a, u'.blocks = as ++ b :: bs → GrowsDown b → lowerEnd as ≤ a → a < b.start →
      (RetakeOk (vmmSpace k) (lowerEnd as) a b u' ↔
        b.start - lowerEnd as < 2 ^ 31 ∨ a < lowerEnd as + 0x1000) := by
  have hstart : StackRun k u u := ⟨hwf, .refl _ _, hs, fun _ _ _ => rfl⟩
  have hend := hstart.faults hok hrun
  refine ⟨hend, fun a u'' hfault => ?_, fun as b bs a hu hflag hlo hhi => ?_⟩
  · obtain ⟨r, hr, hblocks, -⟩ := handler_some hfault
    rw [hblocks]
    exact (growDown_spec hend.wellFormed hr).2.1
  · exact retakeOk_iff hu (hu ▸ hend.wellFormed) hflag hlo hhi

end

/-- The stack of one page grows by another. -/
theorem stack_growth_page :
    StackRun twoFrames stackProcess grownProcess ∧
      (RetakeOk (vmmSpace twoFrames) 0 0x2000 ⟨0x4000, 0x2000, 3, 0x100⟩ grownProcess ↔
        0x4000 - 0 < 2 ^ 31 ∨ 0x2000 < 0 + 0x1000) := by
  have hwf : WellFormed stackProcess.blocks :=
    wellFormed_singleton ⟨by decide, by decide, by decide, by decide⟩
  have hserved : FaultsServed twoFrames [0x4800] stackProcess := by
    refine ⟨fun r hr => ?_, fun _ _ => trivial⟩
    have hgrow : growDown 0x4800 stackProcess.blocks =
        some (⟨0x4000, 0x2000, 3, 0x100⟩, [⟨0x4000, 0x2000, 3, 0x100⟩]) := by decide
    rw [← Option.some.inj (hgrow.symm.trans hr)]
    exact ⟨by decide +kernel, fun _ => by decide +kernel⟩
  obtain ⟨hrun, -, hretake⟩ := stack_growth (k := twoFrames) hwf
    (emptyProcess_canMap 0x22 (by decide)).paging hserved
    (show takeFaults (vmmSpace twoFrames) [0x4800] stackProcess = some grownProcess from rfl)
  exact ⟨hrun, hretake [] ⟨0x4000, 0x2000, 3, 0x100⟩ [] 0x2000 rfl (by decide) (by decide)
    (by decide)⟩

/-- A process whose stack ends where user memory ends. -/
def topStackProcess : UserState (Vmm Pmm) Unit :=
  { emptyProcess with blocks := [⟨0xBFFFF000, 0x1000, 3, 0x100⟩] }

/-- The stack at the top of an empty address space does not grow. -/
theorem top_stack_stuck :
    ¬ ∀ (k : KernelLayout) (u u' : UserState (Vmm Pmm) Unit) (faults : List ℕ),
      WellFormed u.blocks → PagingUsed k u.paging → FaultsServed k faults u →
      takeFaults (vmmSpace k) faults u = some u' →
      ∀ as b bs a, u'.blocks = as ++ b :: bs → GrowsDown b → lowerEnd as ≤ a → a < b.start →
        RetakeOk (vmmSpace k) (lowerEnd as) a b u' := by
  intro hclaim
  have hwf : WellFormed topStackProcess.blocks :=
    wellFormed_singleton ⟨by decide, by decide, by decide, by decide⟩
  have hok := hclaim twoFrames topStackProcess topStackProcess [] hwf
    (emptyProcess_canMap 0x22 (by decide)).paging trivial rfl []
    ⟨0xBFFFF000, 0x1000, 3, 0x100⟩ [] 0xBFFFE000 rfl (by decide) (by decide) (by decide)
  have hblocks : topStackProcess.blocks = [] ++ ⟨0xBFFFF000, 0x1000, 3, 0x100⟩ :: [] := rfl
  have hgap := (retakeOk_iff hblocks hwf (by decide) (by decide) (by decide)).mp hok
  exact absurd hgap (by decide)

end LakeOS.Analysis
