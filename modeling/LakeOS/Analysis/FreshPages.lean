import LakeOS.Library.Overwrite
import LakeOS.Analysis.MmapAtomic
import LakeOS.Model.UserBytes

/-!
# What a fresh page shows

A frame that `alloc_page` returns holds what its last owner left in it.  A call that maps
such a frame should store in every byte of it before the process sees the page.

The memory enters a call only through the stores the call makes, and where they go does
not depend on it: `ImageCall.run_overwrites`.  So two runs from memories that differ in
the free frames end with the same visible bytes exactly when the stores reach every byte
of every new page (`fresh_pages_indistinguishable_iff`).
-/

set_option autoImplicit false

namespace LakeOS.Analysis

open LakeOS.Library LakeOS.Model

/-! ## Where the stores go -/

/-- The bytes of memory behind `size` addresses from `dst` on. -/
def behind (t : ℕ → Option ℕ) : ℕ → ℕ → Set (ℕ × ℕ)
  | _, 0 => ∅
  | dst, size + 1 =>
      match t (dst / 0x1000) with
      | none => ∅
      | some frame => {(frame, dst % 0x1000)} ∪ behind t (add32 dst 1) size

theorem storeBytes_overwrites (t : ℕ → Option ℕ) (dst : ℕ) (bytes : List Byte) :
    Overwrites (storeBytes t dst bytes) (behind t dst bytes.length) := by
  induction bytes generalizing dst with
  | nil =>
      have hsome := overwrites_some (ι := ℕ × ℕ) (β := Byte)
      exact hsome
  | cons b bytes ih =>
      cases hframe : t (dst / 0x1000) with
      | none =>
          left
          intro ram
          simp only [storeBytes, hframe]
      | some frame =>
          have hboth := (overwrites_update (frame, dst % 0x1000) b).bind (ih (add32 dst 1))
          simpa only [storeBytes, behind, List.length_cons, hframe, Option.bind_some] using hboth

theorem memset_overwrites (t : ℕ → Option ℕ) (dst : ℕ) (value : Byte) (size : ℕ) :
    Overwrites (memset t dst value size) (behind t dst size) := by
  have hstore := storeBytes_overwrites t dst (List.replicate size value)
  rwa [List.length_replicate] at hstore

section

variable {σ φ : Type} (space : AddressSpace σ) (files : FileBytes φ)

/-- The calls that make pages visible. -/
inductive ImageCall where
  | mmap (addr length prot flags fd offset : ℕ)
  | fault (faultAddr : ℕ)
  | load (image : ElfImage)

/-- A successful call. -/
def ImageCall.run : ImageCall → UserImage σ φ → Option (UserImage σ φ)
  | .mmap addr length prot flags fd offset, i =>
      (sysMmapImage space files addr length prot flags fd offset i).bind fun r =>
        if r.1 = 0 ∨ r.1 = mapFailed then none else some r.2
  | .fault faultAddr, i =>
      (ummPageFltHandler space faultAddr i.user).map fun user => ⟨user, i.ram⟩
  | .load image, i => elfLoadSegments space image i

/-- What `sys_mmap` stores in: the whole of an anonymous mapping, and of a file mapping
what `sys_read` stores and the rest of `length`. -/
def mmapCovered (t : ℕ → Option ℕ) (res length flags fd offset : ℕ) (f : φ) : Set (ℕ × ℕ) :=
  if res = 0 then ∅
  else if hasFlag flags syscallMmapFlagAnonymous then behind t res (roundLength length)
  else
    let cur := files.sysLseek fd 0 syscallLseekCur f
    let seek := files.sysLseek fd offset syscallLseekSet cur.2
    let bytesRead := (files.sysRead fd length seek.2).1
    if seek.1 ≠ offset then ∅
    else
      behind t res (files.data fd length seek.2).length ∪
        behind t (add32 res bytesRead) (sub32 length bytesRead)

/-- What the loader stores in: from `vaddr` on the bytes of the file, and from `file_end`
to `bss_end`. -/
def loadCovered : List ElfPHeader → UserState σ φ → Set (ℕ × ℕ)
  | [], _ => ∅
  | p :: headers, u =>
      if p.type = elf32PHeaderTypeLoadableSeg then
        let user := mapSegment space p u
        let t := space.translate user.paging
        behind t p.vaddr p.fileSize ∪ behind t p.fileEnd (sub32 p.bssEnd p.fileEnd) ∪
          loadCovered headers user
      else loadCovered headers u

/-- What a call stores in. -/
def ImageCall.covered : ImageCall → UserState σ φ → Set (ℕ × ℕ)
  | .mmap addr length prot flags fd offset, u =>
      if addr % 0x1000 ≠ 0 then ∅
      else
        let mapped := mmapMapped space addr length prot flags u
        mmapCovered files (space.translate mapped.2.2) mapped.1 length flags fd offset u.files
  | .fault _, _ => ∅
  | .load image, u =>
      if image.type ≠ elf32TypeExec then ∅ else loadCovered space image.pHeaders u

variable {space files}

theorem mmapStore_overwrites (t : ℕ → Option ℕ) (res length flags fd offset : ℕ) (f : φ) :
    Overwrites (mmapStore files t res length flags fd offset f)
      (mmapCovered files t res length flags fd offset f) := by
  unfold mmapCovered
  split
  next h =>
    have hval : mmapStore files t res length flags fd offset f = some := by
      funext ram
      simp only [mmapStore, if_pos h]
    rw [hval]
    exact overwrites_some
  next h =>
    split
    next hanon =>
      have hval : mmapStore files t res length flags fd offset f =
          memset t res 0 (roundLength length) := by
        funext ram
        simp only [mmapStore, if_neg h, if_pos hanon]
      rw [hval]
      exact memset_overwrites t res 0 _
    next hanon =>
      dsimp only
      split
      next hseek =>
        have hval : mmapStore files t res length flags fd offset f = some := by
          funext ram
          simp only [mmapStore, if_neg h, hanon, if_pos hseek, Bool.false_eq_true, if_false]
        rw [hval]
        exact overwrites_some
      next hseek =>
        have hval : mmapStore files t res length flags fd offset f = fun ram =>
            (storeBytes t res (files.data fd length (files.sysLseek fd offset syscallLseekSet
              (files.sysLseek fd 0 syscallLseekCur f).2).2) ram).bind
              (memset t (add32 res (files.sysRead fd length (files.sysLseek fd offset
                syscallLseekSet (files.sysLseek fd 0 syscallLseekCur f).2).2).1) 0
                (sub32 length (files.sysRead fd length (files.sysLseek fd offset
                  syscallLseekSet (files.sysLseek fd 0 syscallLseekCur f).2).2).1)) := by
          funext ram
          simp only [mmapStore, if_neg h, hanon, if_neg hseek, Bool.false_eq_true, if_false]
        rw [hval]
        exact (storeBytes_overwrites t res _).bind (memset_overwrites t _ 0 _)

/-- The memory goes through `F`, everything else is as for any other memory. -/
def Threads (run : UserImage σ φ → Option (UserImage σ φ)) (u : UserState σ φ)
    (W : Set (ℕ × ℕ)) : Prop :=
  ∃ (F : Ram → Option Ram) (u' : UserState σ φ), Overwrites F W ∧
    ∀ ram, run ⟨u, ram⟩ = (F ram).map fun ram => ⟨u', ram⟩

theorem elfLoadLoop_threads (space : AddressSpace σ) (byte : ℕ → Byte) (headers : List ElfPHeader) (u : UserState σ φ) :
    Threads (elfLoadLoop space byte headers) u (loadCovered space headers u) := by
  induction headers generalizing u with
  | nil => exact ⟨some, u, overwrites_some, fun _ => rfl⟩
  | cons p headers ih =>
      by_cases htype : p.type = elf32PHeaderTypeLoadableSeg
      · obtain ⟨F, u', hF, hrun⟩ := ih (mapSegment space p u)
        have hsegment := (storeBytes_overwrites
          (space.translate (mapSegment space p u).paging) p.vaddr (p.fileBytes byte)).bind
          (memset_overwrites (space.translate (mapSegment space p u).paging) p.fileEnd 0
            (sub32 p.bssEnd p.fileEnd))
        have hlength : (p.fileBytes byte).length = p.fileSize := by
          simp [ElfPHeader.fileBytes]
        rw [hlength] at hsegment
        refine ⟨fun ram => (storeSegment (space.translate (mapSegment space p u).paging) byte p
          ram).bind F, u', ?_, ?_⟩
        · have hcovered : loadCovered space (p :: headers) u =
              behind (space.translate (mapSegment space p u).paging) p.vaddr p.fileSize ∪
                behind (space.translate (mapSegment space p u).paging) p.fileEnd
                  (sub32 p.bssEnd p.fileEnd) ∪ loadCovered space headers (mapSegment space p u) := by
            simp only [loadCovered, if_pos htype]
          rw [hcovered]
          exact hsegment.bind hF
        · intro ram
          have hstep : elfLoadLoop space byte (p :: headers) ⟨u, ram⟩ =
              ((storeSegment (space.translate (mapSegment space p u).paging) byte p ram).map
                fun ram => (⟨mapSegment space p u, ram⟩ : UserImage σ φ)).bind
                (elfLoadLoop space byte headers) := by
            simp only [elfLoadLoop, elfLoadSegment, if_pos htype]
          rw [hstep]
          dsimp only
          cases storeSegment (space.translate (mapSegment space p u).paging) byte p ram with
          | none => rfl
          | some ram' => exact hrun ram'
      · obtain ⟨F, u', hF, hrun⟩ := ih u
        refine ⟨F, u', ?_, ?_⟩
        · have hcovered : loadCovered space (p :: headers) u = loadCovered space headers u := by
            simp only [loadCovered, if_neg htype]
          rwa [hcovered]
        · intro ram
          have hstep : elfLoadLoop space byte (p :: headers) ⟨u, ram⟩ =
              elfLoadLoop space byte headers ⟨u, ram⟩ := by
            simp only [elfLoadLoop, elfLoadSegment, if_neg htype, Option.bind_some]
          rw [hstep, hrun ram]

/-- INTERNAL: `mmap`. The stores come last, and only where the call has pages to store in. -/
theorem ImageCall.mmap_threads (space : AddressSpace σ) (files : FileBytes φ)
    (addr length prot flags fd offset : ℕ) (u : UserState σ φ) :
    Threads ((ImageCall.mmap addr length prot flags fd offset).run space files) u
      ((ImageCall.mmap addr length prot flags fd offset).covered space files u) := by
  cases hcall : sysMmap space.toPageOps files.toFileOps addr length prot flags fd offset u with
  | none =>
      refine ⟨fun _ => none, u, overwrites_none, fun ram => ?_⟩
      simp only [ImageCall.run, sysMmapImage, hcall, Option.bind_none, Option.map_none]
  | some r =>
      by_cases hres : r.1 = 0 ∨ r.1 = mapFailed
      · refine ⟨fun _ => none, u, overwrites_none, fun ram => ?_⟩
        simp only [ImageCall.run, sysMmapImage, hcall, Option.bind_some, Option.map_none]
        split
        next => simp only [Option.bind_some, if_pos hres]
        next =>
          rw [Option.bind_map]
          simp [hres]
      · by_cases haddr : addr % 0x1000 ≠ 0
        · refine ⟨some, r.2, ?_, fun ram => ?_⟩
          · have hcovered : ImageCall.covered space files
                (.mmap addr length prot flags fd offset) u = ∅ := by
              simp only [ImageCall.covered, if_pos haddr]
            rw [hcovered]
            exact overwrites_some
          · simp only [ImageCall.run, sysMmapImage, hcall, Option.bind_some, if_pos haddr,
              if_neg hres, Option.map_some]
        · refine ⟨mmapStore files
            (space.translate (mmapMapped space addr length prot flags u).2.2)
            (mmapMapped space addr length prot flags u).1 length flags fd offset u.files,
            r.2, ?_, fun ram => ?_⟩
          · have hcovered : ImageCall.covered space files
                (.mmap addr length prot flags fd offset) u =
                mmapCovered files
                  (space.translate (mmapMapped space addr length prot flags u).2.2)
                  (mmapMapped space addr length prot flags u).1 length flags fd offset
                  u.files := by
              simp only [ImageCall.covered, if_neg haddr]
            rw [hcovered]
            exact mmapStore_overwrites _ _ _ _ _ _ _
          · simp only [ImageCall.run, sysMmapImage, hcall, Option.bind_some, if_neg haddr]
            cases mmapStore files
              (space.translate (mmapMapped space addr length prot flags u).2.2)
              (mmapMapped space addr length prot flags u).1 length flags fd offset u.files
              ram with
            | none => rfl
            | some ram' =>
                simp only [Option.map_some, Option.bind_some, if_neg hres]

theorem ImageCall.run_threads (space : AddressSpace σ) (files : FileBytes φ) (c : ImageCall)
    (u : UserState σ φ) :
    Threads (c.run space files) u (c.covered space files u) := by
  cases c with
  | mmap addr length prot flags fd offset =>
      exact ImageCall.mmap_threads space files addr length prot flags fd offset u
  | fault faultAddr =>
      cases hfault : ummPageFltHandler space faultAddr u with
      | none =>
          refine ⟨fun _ => none, u, overwrites_none, fun ram => ?_⟩
          simp only [ImageCall.run, hfault, Option.map_none]
      | some user =>
          refine ⟨some, user, overwrites_some, fun ram => ?_⟩
          simp only [ImageCall.run, hfault, Option.map_some]
  | load image =>
      by_cases htype : image.type ≠ elf32TypeExec
      · refine ⟨some, u, ?_, fun ram => ?_⟩
        · have hcovered : ImageCall.covered space files (.load image) u = ∅ := by
            simp only [ImageCall.covered, if_pos htype]
          rw [hcovered]
          exact overwrites_some
        · simp only [ImageCall.run, elfLoadSegments, if_pos htype, Option.map_some]
      · obtain ⟨F, u', hF, hrun⟩ := elfLoadLoop_threads space image.byte image.pHeaders u
        refine ⟨F, u', ?_, fun ram => ?_⟩
        · have hcovered : ImageCall.covered space files (.load image) u =
              loadCovered space image.pHeaders u := by
            simp only [ImageCall.covered, if_neg htype]
          rwa [hcovered]
        · rw [← hrun ram]
          simp only [ImageCall.run, elfLoadSegments, if_neg htype]

/-! ## Two runs -/

variable (space files)

/-- A page of the process that shows a frame it did not show before. -/
def NewlyVisible (u u' : UserState σ φ) (page frame : ℕ) : Prop :=
  space.translate u'.paging page = some frame ∧ space.translate u.paging page ≠ some frame

/-- Two memories agree on every frame that is not marked free. -/
def AgreeOnUsed (s : σ) (ram ram' : Ram) : Prop :=
  ∀ frame offset, ¬ space.isFree s frame → ram' (frame, offset) = ram (frame, offset)

/-- The call is made in two states that differ in the free frames only, and what the
pages it makes visible hold is the same in both. -/
def HidesFreeFrames (c : ImageCall) (u u' : UserState σ φ) (ram ram' : Ram) : Prop :=
  ∀ ram₂, AgreeOnUsed space u.paging ram ram₂ →
    ∃ ram₂', c.run space files ⟨u, ram₂⟩ = some ⟨u', ram₂'⟩ ∧
      ∀ page frame, NewlyVisible space u u' page frame → ∀ offset < 0x1000,
        ram₂' (frame, offset) = ram' (frame, offset)

/-- **No leak through fresh user pages, when the call fills them.**  For every successful
call the recycled frames stay hidden exactly when the call stores in every byte of every
new page whose frame was marked free: `sys_mmap` stores in all of an anonymous mapping
but in `length` bytes of a file mapping only, the growth of a stack stores nothing, and
the loader stores nothing in front of `vaddr`.
SRCLINE: sys.c:106-148, umm.c:42-48, 98-152, elf.c:67-100 -/
theorem fresh_pages_hidden_iff (c : ImageCall) (u u' : UserState σ φ) (ram ram' : Ram)
    (h : c.run space files ⟨u, ram⟩ = some ⟨u', ram'⟩) :
    HidesFreeFrames space files c u u' ram ram' ↔
      ∀ page frame, NewlyVisible space u u' page frame → space.isFree u.paging frame →
        ∀ offset < 0x1000, (frame, offset) ∈ c.covered space files u := by
  obtain ⟨F, u₁, hF, hrun⟩ := c.run_threads space files u
  rw [hrun ram, Option.map_eq_some_iff] at h
  obtain ⟨ram₁, hram, heq⟩ := h
  cases heq
  have : Nontrivial Byte := ⟨0, 1, by decide⟩
  have hiff := hF.indistinguishable_iff hram
    {i | i.2 < 0x1000 ∧ ∃ page, NewlyVisible space u u' page i.1}
    {i | space.isFree u.paging i.1}
  constructor
  · intro hhides page frame hnew hfree offset hoffset
    refine hiff.mp (fun ram₂ hagree => ?_) (frame, offset) ⟨hoffset, page, hnew⟩ hfree
    obtain ⟨ram₂', hrun₂, hsame⟩ := hhides ram₂ fun frame offset => hagree (frame, offset)
    rw [hrun ram₂, Option.map_eq_some_iff] at hrun₂
    obtain ⟨ram₂'', hram₂, heq⟩ := hrun₂
    cases heq
    refine ⟨ram₂', hram₂, fun i hi => ?_⟩
    obtain ⟨page, hpage⟩ := hi.2
    exact hsame page i.1 hpage i.2 hi.1
  · intro hcover ram₂ hagree
    obtain ⟨ram₂', hram₂, hsame⟩ := hiff.mpr
      (fun i hi hfree => hi.2.elim fun page hnew => hcover page i.1 hnew hfree i.2 hi.1)
      ram₂ fun i hi => hagree i.1 i.2 hi
    refine ⟨ram₂', ?_, fun page frame hnew offset hoffset =>
      hsame (frame, offset) ⟨hoffset, page, hnew⟩⟩
    rw [hrun ram₂, hram₂]
    rfl

end

/-! ## The page tables of the kernel -/

/-- The address space of `vmm.c` on the frames of `pmm.c`. -/
def vmmSpace (k : KernelLayout) : AddressSpace (Vmm Pmm) where
  toPageOps := Vmm.pageOps k pmmFrames
  translate s page :=
    let entry := s.pageEntry k (page / 1024 % 1024) (page % 1024)
    if entryPresent entry then some (entryFrame entry) else none
  isFree s frame := ¬ s.alloc.used (frame / 0x1000)

/-- No open files. -/
def noFileBytes : FileBytes Unit where
  toFileOps := noFiles
  data _ _ _ := []

/-- A process with a stack of one page. -/
def stackProcess : UserState (Vmm Pmm) Unit :=
  { emptyProcess with blocks := [⟨0x5000, 0x1000, 3, 0x100⟩] }

/-- The stack has grown by a page. -/
def grownProcess : UserState (Vmm Pmm) Unit where
  blocks := [⟨0x4000, 0x2000, 3, 0x100⟩]
  paging := Vmm.mapFresh twoFrames pmmFrames 0x4000 true emptyProcess.paging
  files := ()

theorem fresh_pages_hidden_iff_grown :
    HidesFreeFrames (vmmSpace twoFrames) noFileBytes (.fault 0x4800) stackProcess grownProcess
        (fun _ => 0) (fun _ => 0) ↔
      ∀ page frame, NewlyVisible (vmmSpace twoFrames) stackProcess grownProcess page frame →
        (vmmSpace twoFrames).isFree stackProcess.paging frame → ∀ offset < 0x1000,
          (frame, offset) ∈
            ImageCall.covered (vmmSpace twoFrames) noFileBytes (.fault 0x4800) stackProcess :=
  fresh_pages_hidden_iff (vmmSpace twoFrames) noFileBytes (.fault 0x4800) stackProcess
    grownProcess (fun _ => 0) (fun _ => 0) rfl

/-- The page by which a stack grows shows what the last owner of its frame left. -/
theorem grown_page_leaks :
    ¬ ∀ (space : AddressSpace (Vmm Pmm)) (files : FileBytes Unit) (c : ImageCall)
      (u u' : UserState (Vmm Pmm) Unit) (ram ram' : Ram),
      c.run space files ⟨u, ram⟩ = some ⟨u', ram'⟩ → HidesFreeFrames space files c u u' ram ram' := by
  intro h
  have hhides := h (vmmSpace twoFrames) noFileBytes (.fault 0x4800) stackProcess grownProcess
    (fun _ => 0) (fun _ => 0) rfl
  have hfree : (vmmSpace twoFrames).isFree stackProcess.paging 0x3000 := by
    show ¬ stackProcess.paging.alloc.used (0x3000 / 0x1000)
    decide +kernel
  obtain ⟨ram', hrun, hsame⟩ := hhides (Function.update (fun _ => 0) (0x3000, 0) 1) (by
    intro frame offset hused
    apply Function.update_of_ne
    intro heq
    exact hused ((Prod.mk.inj heq).1 ▸ hfree))
  have hmem : Function.update (fun _ => 0) (0x3000, 0) 1 = ram' :=
    congrArg UserImage.ram (Option.some.inj hrun)
  have hbyte := hsame 4 0x3000 ⟨by decide +kernel, by decide +kernel⟩ 0 (by decide)
  rw [← hmem, Function.update_self] at hbyte
  exact absurd hbyte (by decide)

end LakeOS.Analysis
