import LakeOS.Analysis.AddressSpaces

/-!
# The kernel half of the address spaces

A new directory takes the kernel entries of the directory that is shown once.  Afterwards the
directories of all processes agree on the kernel half as long as no page table is made in
it: the tables are shared, so a page that is mapped in one of them is mapped for every
process.  A page table that a fault in the kernel heap makes is entered in the directory
that is shown, and in no other (`heap_fault_is_private`).
-/

set_option autoImplicit false

namespace LakeOS.Analysis

open LakeOS.Library LakeOS.Model Vmm

variable {k : KernelLayout} {s s' : Vmm Pmm}

/-- The directory in frame `f` has the kernel entries of the directory that is shown. -/
def SharesHalf (k : KernelLayout) (s : Vmm Pmm) (f : ℕ) : Prop :=
  ∀ d, 768 ≤ d → d < 1024 → s.phys f d = s.slot k d

/-- The page tables are in order, and the directories in the frames `spaces`, which are kept
for them, share the kernel half. -/
structure LiveHalves (k : KernelLayout) (s : Vmm Pmm) (spaces : List ℕ) : Prop where
  ok : PagingUsed k s
  kept : ∀ f ∈ spaces, Keeps k (f / 0x1000) s ∧ SharesHalf k s f

theorem LiveHalves.keeps {spaces : List ℕ} (h : LiveHalves k s spaces) (hok : PagingUsed k s')
    (hothers : KeepsOthers k s s') : LiveHalves k s' spaces := by
  refine ⟨hok, fun f hf => ?_⟩
  obtain ⟨hkeep, hhalf⟩ := h.kept f hf
  obtain ⟨hkeep', hwords⟩ := hothers.words f hkeep
  refine ⟨hkeep', fun d hd hd' => ?_⟩
  rw [hwords, hhalf d hd hd', hothers.slots d hd hd']

/-- INTERNAL: when a new directory is shown, the one before is kept with the others. -/
theorem LiveHalves.show {spaces : List ℕ} {page : ℕ} (h : LiveHalves k s spaces)
    (hnew : NewDirectory k page s) (hslot : k.directorySlot < 1024)
    (hfresh : ∀ f ∈ spaces, f / 0x1000 ≠ page / 0x1000) :
    LiveHalves k (vmmMapPage k pmmFrames page (Exe.currPageDirectory k) true
      false s) (s.directory k :: spaces) := by
  obtain ⟨hok, hdir, halloc, hphys, hpaging⟩ := hnew.show hslot
  have hw := h.ok.wellMapped
  have hhalf : ∀ f, ¬ IsPaging k s f → f ≠ k.higherHalf := by
    rintro f hf rfl
    exact hf hw.isPaging_higherHalf
  refine ⟨hok, fun f hf => ?_⟩
  cases List.mem_cons.mp hf with
  | inl heq =>
      subst heq
      have hshown : IsPaging k s (s.directory k) := .inl rfl
      refine ⟨⟨hok, ?_, fun g hg => ?_⟩, fun d hd hd' => ?_⟩
      · rw [halloc]
        exact h.ok.used _ hshown
      · obtain rfl | ⟨d, hd, hpres, rfl⟩ := hpaging g hg
        · intro heq
          exact hnew.keeps.apart _ hshown heq.symm
        · intro heq
          exact hw.table_ne d hd hpres
            (IsPaging.eq_of_div_eq (.inr ⟨d, hd, hpres, rfl⟩) hshown heq)
      · rw [hphys _ hw.directory_ne, hnew.show_slot hslot hd hd']
        rfl
  | inr hf =>
      obtain ⟨hkeep, hshares⟩ := h.kept f hf
      have hfpaging : ¬ IsPaging k s f := fun hp => hkeep.apart f hp rfl
      refine ⟨⟨hok, ?_, fun g hg => ?_⟩, fun d hd hd' => ?_⟩
      · rw [halloc]
        exact hkeep.kept
      · obtain rfl | ⟨d, hd, hpres, rfl⟩ := hpaging g hg
        · exact (hfresh f hf).symm
        · exact hkeep.apart _ (.inr ⟨d, hd, hpres, rfl⟩)
      · rw [hphys f (hhalf f hfpaging), hnew.show_slot hslot hd hd', hshares d hd hd']

/-! ## Runs -/

/-- The calls that touch the kernel half. -/
inductive KernelCall where
  | process (c : ProcessCall)
  | heapFault (addr : ℕ)

/-- A call that returns. -/
def KernelCall.run (k : KernelLayout) : KernelCall → Exe → Option Exe
  | .process c, e => c.run k e
  | .heapFault addr, e => some { e with vmm := heapFaults k [addr] e.vmm }

/-- An address in the kernel heap. -/
def HeapAddress (v : ℕ) : Prop := 0xD0000000 ≤ v ∧ v < 0xE0000000

/-- Plain calls, of which no fault makes a page table: the directory that is shown names the
one of each address of the kernel heap. -/
def KernelCall.Plain (k : KernelLayout) : KernelCall → Exe → Prop
  | .process (.new before behind blocks), e =>
      (ProcessCall.new before behind blocks).Plain k e ∧
        ∀ v ∈ before ++ behind, SharedAddress k e.vmm v
  | .process .exit, _ => False
  | .heapFault addr, e =>
      HeapAddress addr ∧ SharedAddress k e.vmm addr ∧ e.vmm.alloc.Supplies 2

/-- The live processes. -/
def spaces (e : Exe) : List ℕ := e.processStack.map Process.addressSpace

/-- Every page of the kernel half has one translation in the directories of all live
processes. -/
def HalvesAgree (e : Exe) : Prop :=
  ∀ f ∈ spaces e, ∀ f' ∈ spaces e, ∀ v, 0xC0000000 ≤ v → v < 2 ^ 32 →
    walk e.vmm.phys f v = walk e.vmm.phys f' v

/-- A process has been started, the page tables are in order and the directories of all
live processes share the kernel half. -/
def StartedShared (k : KernelLayout) (e : Exe) : Prop :=
  InStep k e ∧ LiveHalves k e.vmm (spaces e).tail

theorem StartedShared.halvesAgree {e : Exe} (h : StartedShared k e) : HalvesAgree e := by
  obtain ⟨⟨hdir, process, rest, hstack, htop⟩, hlive⟩ := h
  have hall : ∀ f ∈ spaces e, SharesHalf k e.vmm f := by
    intro f hf
    unfold spaces at hf hlive
    rw [hstack, List.map_cons] at hf hlive
    cases List.mem_cons.mp hf with
    | inl heq =>
        rw [heq, htop, ← hdir]
        exact fun d _ _ => rfl
    | inr hf => exact (hlive.kept f hf).2
  intro f hf f' hf' v hv hv'
  have hindex : 768 ≤ pageDirIndex v ∧ pageDirIndex v < 1024 := by
    unfold pageDirIndex
    omega
  unfold walk
  rw [hall f hf _ hindex.1 hindex.2, hall f' hf' _ hindex.1 hindex.2]

/-- A call that is plain and returns. -/
def PlainKernelStep (k : KernelLayout) (e e' : Exe) : Prop :=
  ∃ c : KernelCall, c.Plain k e ∧ c.run k e = some e'

theorem plainAddress_of_heap {v : ℕ} (h : HeapAddress v) : PlainAddress v := by
  unfold HeapAddress at h
  unfold PlainAddress pageDirIndex
  omega

/-- INTERNAL: a process is started. The faults before, the new directory, the pages of the stack
and the faults behind keep the halves of the live address spaces, one after the other.
SRCLINE: exe.c:43-72 -/
theorem newProcess_startedShared (hslot : k.directorySlot < 1024) {e e' : Exe}
    (h : StartedShared k e) {before behind : List ℕ} {blocks : List UmmBlock}
    (hnewPlain : (ProcessCall.new before behind blocks).Plain k e)
    (hshared : ∀ v ∈ before ++ behind, SharedAddress k e.vmm v)
    (hrun : e.newProcess k before behind blocks = some e') : StartedShared k e' := by
  obtain ⟨⟨hdir, process, rest, hstack, htop⟩, hlive⟩ := h
  have hin : Started k e := ⟨hlive.ok, hdir, process, rest, hstack, htop⟩
  refine ⟨(newProcess_started hslot hin hnewPlain hrun).2, ?_⟩
  obtain ⟨page, s₁, s₂, s₃, s₄, hstages⟩ := newProcess_stages hslot hin hnewPlain hrun
  obtain ⟨haddrs, -, hsupplies, -, -⟩ := hnewPlain
  -- the faults before
  have hothers₁ : KeepsOthers k e.vmm s₁ := by
    rw [hstages.faults]
    exact heapFaults_keepsOthers before
      (fun v hv => haddrs v (List.mem_append_left _ hv)) hlive.ok
      (fun v hv => hshared v (List.mem_append_left _ hv)) hsupplies
  have hlive₁ := hlive.keeps hstages.ok₁ hothers₁
  -- the directory is made and shown
  have hlive₂ := hlive₁.keeps hstages.made.keeps.toPagingUsed hstages.others
  have hpage : s₁.alloc.allocPage.1 ≠ 0 := hstages.page_eq ▸ hstages.page_ne
  have hlive₃ := hlive₂.show hstages.made hslot fun f hf heq =>
    (Pmm.allocPage_spec hpage).2.2.1
      (hstages.page_eq ▸ heq ▸ (hlive₁.kept f hf).1.kept)
  rw [← hstages.shown] at hlive₃
  -- the pages of the stack
  have hothers₄ : KeepsOthers k s₃ s₄ := by
    rw [hstages.stack]
    exact heapFaults_keepsOthers _ (fun v hv => (plainAddress_stack v hv).1) hlive₃.ok
      (fun v hv => .inl (plainAddress_stack v hv).2) hstages.supplies₃
  have hlive₄ := hlive₃.keeps hstages.ok₄ hothers₄
  -- the faults behind
  have hshared₃ : ∀ v ∈ behind, SharedAddress k s₃ v := by
    intro v hv
    have hshared₂ :=
      ((hshared v (List.mem_append_right _ hv)).keeps hothers₁).keeps hstages.others
    by_cases huser : pageDirIndex v < 768
    · exact .inl huser
    · refine .inr ?_
      rw [hstages.shown, hstages.made.show_slot hslot (by omega) (pageDirIndex_lt v)]
      exact hshared₂.resolve_left huser
  have hbehind : ∀ v ∈ behind, PlainAddress v :=
    fun v hv => haddrs v (List.mem_append_right _ hv)
  obtain ⟨hok₅, -, -⟩ := hstages.ok₄.heapFaults behind hbehind (n := 0) hstages.supplies₄
  have hothers₅ := heapFaults_keepsOthers behind hbehind hstages.ok₄ (n := 0)
    (fun v hv => (hshared₃ v hv).keeps hothers₄) hstages.supplies₄
  have hlive₅ := hlive₄.keeps hok₅ hothers₅
  have htail : (spaces e').tail = s₂.directory k :: (spaces e).tail := by
    rw [hstages.result, hstages.others.directory, hstages.directory₁, hdir, ← htop]
    unfold spaces
    rw [hstack]
    rfl
  rw [htail, hstages.result]
  exact hlive₅

theorem startedShared_step (hslot : k.directorySlot < 1024) {e e' : Exe}
    (h : StartedShared k e) (hstep : PlainKernelStep k e e') : StartedShared k e' := by
  obtain ⟨c, hplain, hrun⟩ := hstep
  cases c with
  | heapFault addr =>
      obtain ⟨⟨hdir, process, rest, hstack, htop⟩, hlive⟩ := h
      obtain ⟨haddr, hshared, hsupplies⟩ := hplain
      have haddrs : ∀ v ∈ [addr], PlainAddress v := by
        intro v hv
        rw [List.mem_singleton.mp hv]
        exact plainAddress_of_heap haddr
      obtain ⟨hok, hdir', -⟩ := hlive.ok.heapFaults [addr] haddrs (n := 0) hsupplies
      have hothers := heapFaults_keepsOthers [addr] haddrs hlive.ok
        (by simpa using hshared) (n := 0) hsupplies
      obtain rfl := Option.some.inj hrun
      exact ⟨⟨hdir'.trans hdir, process, rest, hstack, htop⟩, hlive.keeps hok hothers⟩
  | process c =>
      cases c with
      | exit => exact hplain.elim
      | new before behind blocks => exact newProcess_startedShared hslot h hplain.1 hplain.2 hrun

theorem nestedProcess_startedShared : StartedShared twoFrames nestedProcess := by
  obtain ⟨hok, hstep⟩ := nestedProcess_started
  refine ⟨hstep, hok, fun f hf => ?_⟩
  obtain rfl : f = 0x4000 := by simpa [spaces, nestedProcess] using hf
  refine ⟨⟨hok, by decide +kernel, fun g hg => ?_⟩, fun d hd hd' => ?_⟩
  · obtain rfl | rfl := nestedProcess_paging g hg
    · decide
    · decide
  · have hdir : nestedProcess.vmm.directory twoFrames = 0x2000 := by decide
    rw [slot, hdir]
    simp [nestedProcess]

end LakeOS.Analysis
