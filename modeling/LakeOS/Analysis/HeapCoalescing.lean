import LakeOS.Analysis.HeapPartition

/-!
# Coalescing of free blocks

No two free blocks should be neighbours in memory, so that the list is a single block
again when everything was freed.  `coalesce_neighbors` merges the freed block with the
next one and only otherwise with the previous one: a block that touches free blocks on
both sides stays apart from the previous one, and nothing merges the two later.

Without such a `kfree` no two free blocks ever touch (`heap_coalesces`).
-/

set_option autoImplicit false

namespace LakeOS.Analysis

open LakeOS.Library LakeOS.Model

/-- No free block ends where another one starts. -/
def HeapCoalesced (s : HeapState) : Prop :=
  ∃ fl, freeList s.mem = some fl ∧ ∀ a ∈ fl, ∀ b ∈ fl, a.stop ≠ b.start

/-- The freed block does not lie between two free blocks that it touches. -/
def OneSided (s : HeapState) : HeapOp → Prop
  | .kfree p => ∀ fl, freeList s.mem = some fl →
      ¬ ((∃ a ∈ fl, a.stop = (liveBlock s.mem p).start) ∧
        ∃ b ∈ fl, b.start = (liveBlock s.mem p).stop)
  | _ => True

variable {m : Memory} {s : HeapState} {fl live fl' live' as bs : List Extent} {p e : Extent}
  {bytes : ℕ} {op : HeapOp}

/-- INTERNAL: an allocation keeps the free blocks apart. -/
theorem Taken.spaced (h : Taken fl bytes fl' e) (hspaced : Extent.Spaced fl) :
    Extent.Spaced fl' := by
  cases h with
  | @tail as bs b hfl hfit =>
      obtain ⟨hrest, hbefore, hafter⟩ := Extent.spaced_middle.mp (hfl ▸ hspaced)
      refine Extent.spaced_middle.mpr ⟨hrest, hbefore, fun c hc => ?_⟩
      have := hafter c hc
      simp only [Extent.stop] at this ⊢
      omega
  | @whole as bs p b hfl hfit hwhole =>
      subst hfl
      exact hspaced.sublist (by simp)

/-- INTERNAL: a freed block that touches at most one free block leaves the free blocks
apart. -/
theorem spaced_coalesced (hspaced : Extent.Spaced (as ++ p :: bs)) (hpe : p.stop ≤ e.start)
    (heb : ∀ b ∈ bs, e.stop ≤ b.start)
    (hone : ¬ (p.stop = e.start ∧ ∃ b ∈ bs, b.start = e.stop)) :
    Extent.Spaced (as ++ coalesced p e bs) := by
  obtain ⟨hrest, hbefore, hafter⟩ := Extent.spaced_middle.mp hspaced
  have hstop : ∀ a : Extent, a.start ≤ a.stop := fun a => Nat.le_add_right _ _
  have hae : ∀ a ∈ as, a.stop < e.start := by
    intro a ha
    have := hbefore a ha
    have := hstop p
    omega
  have hback : (∀ b ∈ bs, e.stop < b.start) → Extent.Spaced (as ++ mergeBack p e bs) := by
    intro hlt
    unfold mergeBack
    split
    next htouch =>
      refine Extent.spaced_middle.mpr ⟨hrest, hbefore, fun b hb => ?_⟩
      have := hlt b hb
      simp only [Extent.stop] at htouch this ⊢
      omega
    next hgap =>
      refine Extent.spaced_middle.mpr ⟨Extent.spaced_middle.mpr ⟨hrest, hae, hlt⟩, hbefore, ?_⟩
      exact List.forall_mem_cons.mpr ⟨by omega, hafter⟩
  cases bs with
  | nil => exact hback (by simp)
  | cons n bs =>
      obtain ⟨hrest', hbefore', hafter'⟩ := Extent.spaced_middle.mp hrest
      rw [coalesced]
      split
      next htouch =>
        have hgap : p.stop ≠ e.start := fun h => hone ⟨h, n, List.mem_cons_self, htouch.symm⟩
        have hn : ∀ b ∈ bs, Extent.stop ⟨e.start, e.len + n.len⟩ < b.start := by
          intro b hb
          have := hafter' b hb
          simp only [Extent.stop] at htouch this ⊢
          omega
        refine Extent.spaced_middle.mpr
          ⟨Extent.spaced_middle.mpr ⟨hrest', hae, hn⟩, hbefore, List.forall_mem_cons.mpr ⟨?_, ?_⟩⟩
        · simp only
          omega
        · exact fun b hb => hafter b (List.mem_cons_of_mem n hb)
      next hgap =>
        refine hback (List.forall_mem_cons.mpr ⟨?_, fun b hb => ?_⟩)
        · have := heb n List.mem_cons_self
          omega
        · have h₁ := heb n List.mem_cons_self
          have h₂ := hafter' b hb
          have h₃ := hstop n
          omega

/-- INTERNAL: a step keeps the free blocks apart. -/
theorem HeapChange.spaced (h : HeapChange fl live op fl' live') (hholds : HeapHolds s fl live)
    (hone : OneSided s op) (hspaced : Extent.Spaced fl) : Extent.Spaced fl' := by
  cases h with
  | none => exact hspaced
  | taken htaken => exact htaken.spaced hspaced
  | @freed as bs l₁ l₂ p e hfl hlive hpe heb =>
      have he : e ∈ live := by simp [hlive]
      have hone' := hone fl hholds.2.free.freeList_eq
      rw [liveBlock_eq hholds.2 he] at hone'
      refine spaced_coalesced (hfl ▸ hspaced) hpe heb ?_
      rintro ⟨htouch, b, hb, hbe⟩
      exact hone' ⟨⟨p, by simp [hfl], htouch⟩, b, by simp [hfl, hb], hbe⟩

/-- **Free blocks never touch** in a run that keeps the head of the list and in which no
`kfree` frees a block between two free blocks that it touches.  When, moreover, no
allocation takes a wider block whole, freeing everything restores the single block of
`KMM_init`.
SRCLINE: kmm.c:126-149 -/
theorem heap_coalesces (hrun : HeapRun (fun s op => HeadKept s op ∧ OneSided s op) m s) :
    HeapCoalesced s ∧
      (HeapRun (fun s op => HeadKept s op ∧ OneSided s op ∧ ExactFit s op) m s → s.live = [] →
        freeList s.mem = some [⟨heapStart, heapSize⟩]) := by
  constructor
  · obtain ⟨fl, live, hholds, hspaced⟩ := hrun.invariant (P := fun fl _ => Extent.Spaced fl)
      (fun _ _ h => h.1) (List.pairwise_singleton _ _)
      fun _ _ _ _ _ _ hholds hallowed hchange => hchange.spaced hholds hallowed.2
    refine ⟨fl, hholds.2.free.freeList_eq, hspaced.stop_ne_start fun b hb => ?_⟩
    exact Nat.lt_of_lt_of_le (by decide) (hholds.2.free.wide b hb)
  · intro hrun' hfreed
    obtain ⟨fl, live, hholds, hspaced, htotal⟩ := hrun'.invariant
      (P := fun fl live => Extent.Spaced fl ∧ Extent.total (fl ++ live) = heapSize)
      (fun _ _ h => h.1) ⟨List.pairwise_singleton _ _, rfl⟩
      fun _ _ _ _ _ _ hholds hallowed hchange hP =>
        ⟨hchange.spaced hholds hallowed.2.1 hP.1, (hchange.total hholds hallowed.2.2).trans hP.2⟩
    have hlive : live = [] := by
      have := hholds.1
      rw [hfreed, eq_comm, List.map_eq_nil_iff] at this
      exact this
    rw [hlive, List.append_nil] at htotal
    rw [hholds.2.free.freeList_eq, Option.some.injEq]
    have hsingle := Extent.eq_singleton_of_total hspaced hholds.2.free.inside (by decide)
      (by rw [htotal])
    rwa [Nat.add_sub_cancel_left] at hsingle

/-- Memory after two allocations of 8 bytes. -/
def sixteenHeap : Memory := (carveTail eightHeap heapStart 12).2

/-- Two blocks of 12 bytes are allocated from the end of the heap and freed, the upper one
first: the lower one is merged with it and stays apart from the head. -/
theorem kfree_between_not_coalesced :
    ∃ s, HeapRun HeadKept (fun _ => 0) s ∧ s.live = [] ∧ ¬ HeapCoalesced s ∧
      freeList s.mem ≠ some [⟨heapStart, heapSize⟩] := by
  have hkept : HeadKept (heapInit fun _ => 0) (.kmalloc 8) :=
    fun fl b hfl hwhole => absurd hwhole (not_wholeFit_eight hfl)
  have hlist : freeList eightHeap = some [⟨heapStart, heapSize - 12⟩] := by decide +kernel
  have hfirst : firstFit [⟨heapStart, heapSize - 12⟩] (allocBytes 8) =
      some ⟨heapStart, heapSize - 12⟩ := by decide
  obtain ⟨fl, live, ⟨-, hrep⟩, -⟩ := kmalloc_eight.change hkept (heapHolds_init _)
  obtain rfl : [⟨heapStart, heapSize - 12⟩] = fl :=
    Option.some.inj (hlist.symm.trans hrep.free.freeList_eq)
  have hkept' : HeadKept ⟨eightHeap, [0xDFFFFFF8]⟩ (.kmalloc 8) := by
    intro fl b hfl hwhole
    obtain rfl : [⟨heapStart, heapSize - 12⟩] = fl := Option.some.inj (hlist.symm.trans hfl)
    obtain rfl : ⟨heapStart, heapSize - 12⟩ = b := Option.some.inj (hfirst.symm.trans hwhole.1)
    exact absurd hwhole.2 (by decide)
  have hstep : HeapStep ⟨eightHeap, [0xDFFFFFF8]⟩ (.kmalloc 8)
      ⟨sixteenHeap, [0xDFFFFFEC, 0xDFFFFFF8]⟩ := by
    have hptr : (carveTail eightHeap heapStart 12).1 = 0xDFFFFFEC := by decide +kernel
    have hrun : kmalloc eightHeap 8 = some (0xDFFFFFEC, sixteenHeap) := by
      rw [kmalloc_eq hrep.free (by decide), hfirst, ← hptr]
      rfl
    exact .kmalloc (by decide) hrun (by decide)
  have hfree : HeapStep ⟨sixteenHeap, [0xDFFFFFEC, 0xDFFFFFF8]⟩ (.kfree 0xDFFFFFF8)
      ⟨kfree sixteenHeap 0xDFFFFFF8, [0xDFFFFFEC] ++ []⟩ := .kfree rfl
  have hfree' : HeapStep ⟨kfree sixteenHeap 0xDFFFFFF8, [0xDFFFFFEC]⟩ (.kfree 0xDFFFFFEC)
      ⟨kfree (kfree sixteenHeap 0xDFFFFFF8) 0xDFFFFFEC, [] ++ []⟩ := .kfree rfl
  have hend : freeList (kfree (kfree sixteenHeap 0xDFFFFFF8) 0xDFFFFFEC) =
      some [⟨heapStart, heapSize - 24⟩, ⟨0xDFFFFFE8, 24⟩] := by decide +kernel
  refine ⟨_, .tail (.tail (.tail (.single ⟨_, hkept, kmalloc_eight⟩) ⟨_, hkept', hstep⟩)
    ⟨.kfree 0xDFFFFFF8, trivial, hfree⟩) ⟨.kfree 0xDFFFFFEC, trivial, hfree'⟩, rfl, ?_, ?_⟩
  · rintro ⟨fl, hfl, hgap⟩
    obtain rfl : [⟨heapStart, heapSize - 24⟩, ⟨0xDFFFFFE8, 24⟩] = fl :=
      Option.some.inj (hend.symm.trans hfl)
    exact hgap ⟨heapStart, heapSize - 24⟩ (by simp) ⟨0xDFFFFFE8, 24⟩ (by simp) (by decide)
  · rw [hend]
    decide

/-- The only block of a heap from which 8 bytes were allocated and freed. -/
theorem heap_coalesces_eight :
    HeapCoalesced ⟨kfree eightHeap 0xDFFFFFF8, []⟩ ∧
      freeList (kfree eightHeap 0xDFFFFFF8) = some [⟨heapStart, heapSize⟩] := by
  have hfree : HeapStep ⟨eightHeap, [0xDFFFFFF8]⟩ (.kfree 0xDFFFFFF8)
      ⟨kfree eightHeap 0xDFFFFFF8, [] ++ []⟩ := .kfree rfl
  have hkept : HeadKept (heapInit fun _ => 0) (.kmalloc 8) :=
    fun fl b hfl hwhole => absurd hwhole (not_wholeFit_eight hfl)
  have hexact : ExactFit (heapInit fun _ => 0) (.kmalloc 8) :=
    fun fl b hfl hwhole => absurd hwhole (not_wholeFit_eight hfl)
  have hlist : freeList eightHeap = some [⟨heapStart, heapSize - 12⟩] := by decide +kernel
  have hblock : liveBlock eightHeap 0xDFFFFFF8 = ⟨0xDFFFFFF4, 12⟩ := by decide +kernel
  have hone : OneSided ⟨eightHeap, [0xDFFFFFF8]⟩ (.kfree 0xDFFFFFF8) := by
    intro fl hfl
    obtain rfl : [⟨heapStart, heapSize - 12⟩] = fl := Option.some.inj (hlist.symm.trans hfl)
    rintro ⟨-, b, hb, hbe⟩
    obtain rfl := List.mem_singleton.mp hb
    rw [hblock] at hbe
    exact absurd hbe (by decide)
  have hrun := heap_coalesces (.tail (.single ⟨_, ⟨hkept, trivial⟩, kmalloc_eight⟩)
    ⟨.kfree 0xDFFFFFF8, ⟨trivial, hone⟩, hfree⟩)
  exact ⟨hrun.1, hrun.2 (.tail (.single ⟨_, ⟨hkept, trivial, hexact⟩, kmalloc_eight⟩)
    ⟨.kfree 0xDFFFFFF8, ⟨trivial, hone, trivial⟩, hfree⟩) rfl⟩

end LakeOS.Analysis
