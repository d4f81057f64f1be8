import LakeOS.Model.Vmm

/-!
# Processes and their address spaces

`new_page_directory` of `vmm.c` and the two functions of `exe.c` that start and end a
process.  The functions of `vmm.c` edit the directory behind `curr_page_directory`; every
other access to memory goes through the directory in `cr3`, and an access to a page that
this directory does not map does not return.

A kernel object that `kmalloc` returns can lie in a page that is touched for the first
time, whose fault maps it; these faults are arguments of the functions.
-/

set_option autoImplicit false

namespace LakeOS.Model

open LakeOS.Library

/-- `UMM_BLOCK_FLAG_SHARED`. -/
abbrev ummBlockFlagShared : ℕ := 0x01

/-- `t_Process`, as far as address spaces go.  `new_process` does not set `blocks`. -/
structure Process where
  addressSpace : ℕ
  blocks : List UmmBlock

/-- The state: the top of the stack of processes is `process_stack`. -/
structure Exe where
  vmm : Vmm Pmm
  cr3 : ℕ
  processStack : List Process

/-- The frame behind a virtual address, by the directory in `cr3`. -/
def walk (m : PhysMemory) (cr3 vaddr : ℕ) : Option ℕ :=
  let pde := m cr3 (pageDirIndex vaddr)
  if !entryPresent pde then none
  else
    let pte := m (entryFrame pde) (pageTableIndex vaddr)
    if !entryPresent pte then none else some (entryFrame pte)

section

variable (k : KernelLayout)

/-- `valloc_page`: the address, and the state.
SRCLINE: vmm.c:151-154 -/
def vallocPage (vaddr : ℕ) (s : Vmm Pmm) : ℕ × Vmm Pmm :=
  let page := s.alloc.allocPage
  let vaddr := if vaddr ≠ 0 then vaddr else page.1
  (vaddr, Vmm.vmmMapPage k pmmFrames page.1 vaddr true false
    { s with alloc := page.2 })

/-- The branch of the page fault handler for the kernel heap.
SRCLINE: vmm.c:204-206 -/
def heapFaults (addrs : List ℕ) (s : Vmm Pmm) : Vmm Pmm :=
  addrs.foldl (fun s addr => (vallocPage k addr s).2) s

namespace Exe

/-- The words of the page at `vaddr` are replaced by `words`, a function of what they
were. -/
def storePage (vaddr : ℕ) (words : (ℕ → BitVec 32) → ℕ → BitVec 32) (s : Exe) : Option Exe :=
  (walk s.vmm.phys s.cr3 vaddr).map fun frame =>
    { s with vmm := { s.vmm with
        phys := Function.update s.vmm.phys frame (words (s.vmm.phys frame)) } }

/-- SRCLINE: vmm.c:218-244 -/
def copyPtes (newPt oldPt first last : ℕ) (s : Exe) : Option Exe :=
  let s := { s with vmm := s.vmm.mapWindow k oldPt }
  match walk s.vmm.phys s.cr3 oldPt with
  | none => none
  | some frame =>
      let tempPtable := s.vmm.phys frame
      let s := { s with vmm := s.vmm.mapWindow k newPt }
      -- a length below zero is a copy of nearly 4 GiB
      if last < first then none
      else s.storePage newPt fun old i => if first ≤ i ∧ i < last then tempPtable i else old i

/-- SRCLINE: vmm.c:246-265 -/
def newPageTable (pd pdi : ℕ) (ring3 : Bool) (s : Exe) : Option Exe :=
  let newPt := s.vmm.alloc.allocPage
  let s := { s with vmm := { s.vmm with alloc := newPt.2 } }
  let entry := fun old =>
    let pde := entrySetFrame old newPt.1
    let pde := entryAddAttribute pde pageStructEntryPresent
    let pde := entryAddAttribute pde pageStructEntryWriteable
    if ring3 then entryAddAttribute pde pageStructEntryUserAccess else pde
  (s.storePage pd fun old i => if i = pdi then entry (old i) else old i).map fun s =>
    let vmm := s.vmm.mapWindow k newPt.1
    { s with vmm := { vmm with phys := vmm.phys.clear (vmm.window k) } }

/-- One call of `copy_ptes` with the table it copies into.
SRCLINE: vmm.c:287-297, 306-316, 320-330 -/
def copyTable (newPd pdi first last : ℕ) (s : Exe) : Option Exe :=
  match walk s.vmm.phys s.cr3 newPd with
  | none => none
  | some frame =>
      let table :=
        if !entryPresent (s.vmm.phys frame pdi) then newPageTable k newPd pdi true s else some s
      table.bind fun s =>
        match walk s.vmm.phys s.cr3 newPd with
        | none => none
        | some frame =>
            let pde := s.vmm.phys (s.vmm.directory k) pdi
            copyPtes k (entryFrame (s.vmm.phys frame pdi)) (entryFrame pde) first last s

/-- The loop over the whole tables of a block.
SRCLINE: vmm.c:305-317 -/
def copyTables (newPd : ℕ) : List ℕ → Exe → Option Exe
  | [], s => some s
  | pdi :: rest, s => (copyTable k newPd pdi 0 1024 s).bind (copyTables newPd rest)

/-- SRCLINE: vmm.c:275-332 -/
def copyBlock (newPd : ℕ) (block : UmmBlock) (s : Exe) : Option Exe :=
  if block.flags ||| ummBlockFlagShared = 0 then some s
  else
    let blockEnd := add32 block.start block.len
    let pti := pageTableIndex block.start
    let pdi := pageDirIndex block.start
    let ptiEnd := pageTableIndex blockEnd
    let pdiEnd := pageDirIndex blockEnd
    let head :=
      if pti % 1024 ≠ 0 then copyTable k newPd pdi pti (if pdi < pdiEnd then 1024 else ptiEnd) s
      else some s
    let pti' := if pti % 1024 ≠ 0 then (if pdi < pdiEnd then pti + pti % 1024 else ptiEnd) else pti
    let pdi' := if pti % 1024 ≠ 0 then pdi + 1 else pdi
    head.bind fun s =>
      (copyTables k newPd (List.range' pdi' (pdiEnd - pdi')) s).bind fun s =>
        if pti' + 1024 * (pdiEnd - pdi') < ptiEnd then
          copyTable k newPd (max pdi' pdiEnd) 0 ptiEnd s
        else some s

/-- The loop over the blocks. -/
def copyBlocks (newPd : ℕ) : List UmmBlock → Exe → Option Exe
  | [], s => some s
  | block :: rest, s => (copyBlock k newPd block s).bind (copyBlocks newPd rest)

/-- The directory, by its address.  With `process_stack` null, the read of its blocks
faults.  The kernel entries are read at `kernel_page_directory`, the page that
`curr_page_directory` is and that `new_process` maps to the new directory.
SRCLINE: vmm.c:267-340 -/
def newPageDirectory (s : Exe) : Option (ℕ × Exe) :=
  let newPd := vallocPage k 0 s.vmm
  let s := { s with vmm := newPd.2 }
  (s.storePage newPd.1 fun _ _ => 0).bind fun s =>
    match s.processStack with
    | [] => none
    | process :: _ =>
        (copyBlocks k newPd.1 process.blocks s).bind fun s =>
          let kernelEntries := s.vmm.phys (s.vmm.directory k)
          (s.storePage newPd.1 fun old i =>
              if 768 ≤ i ∧ i < 1024 then kernelEntries i else old i).map fun s =>
            (newPd.1, { s with
              vmm := Vmm.vmmUnmapPage k pmmFrames newPd.1 s.vmm })

/-- `curr_page_directory`. -/
def currPageDirectory : ℕ := 0xC0000000 + 0x1000 * k.directorySlot

/-- The pages of `new_stack`.
SRCLINE: exe.c:30-36 -/
def newStack (s : Vmm Pmm) : Vmm Pmm :=
  heapFaults k ((List.range 64).map fun i => 0xC0000000 - 0x1000 * (i + 1)) s

/-- `before` and `behind` are the faults of the two calls of `kmalloc`, and `blocks` is
what the new `t_Process` happens to hold.
SRCLINE: exe.c:43-72 -/
def newProcess (before behind : List ℕ) (blocks : List UmmBlock) (s : Exe) : Option Exe :=
  (newPageDirectory k { s with vmm := heapFaults k before s.vmm }).map fun r =>
    let vmm := Vmm.vmmMapPage k pmmFrames r.1 (currPageDirectory k) true false
      r.2.vmm
    { vmm := heapFaults k behind (newStack k vmm)
      cr3 := r.1
      processStack := ⟨r.1, blocks⟩ :: s.processStack }

/-- The first `n` rounds of the loop of `exit_process`.
SRCLINE: exe.c:114-117 -/
def freeUserPages : ℕ → Vmm Pmm → Vmm Pmm
  | 0, s => s
  | n + 1, s => Vmm.vfreePage k pmmFrames (n * 0x1000) (freeUserPages n s)

/-- The process ends and the one before it goes on; `pages` pages are freed.
SRCLINE: exe.c:114-123 -/
def revive (s : Exe) (pages : ℕ) (dying revived : Process) (rest : List Process) : Exe :=
  let vmm := freeUserPages k pages s.vmm
  { vmm := { vmm with alloc := vmm.alloc.freePage dying.addressSpace }
    cr3 := revived.addressSpace
    processStack := revived :: rest }

/-- SRCLINE: exe.c:101-136 -/
def exitProcess (s : Exe) : Option Exe :=
  match s.processStack with
  | dying :: revived :: rest => some (s.revive k (768 * 1024) dying revived rest)
  | _ => none

end Exe

end

end LakeOS.Model
