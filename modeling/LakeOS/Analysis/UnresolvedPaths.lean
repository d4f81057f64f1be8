import LakeOS.Analysis.WalkCopy
import LakeOS.Model.Dev
import LakeOS.Model.VfsEntry

/-!
# Paths that lead nowhere

`VFS_walk_path` returns `NULL` for a path that it cannot resolve, and none of its callers looks
at what it returned.  Nor do they look at the pointer of the driver that they call.  By the time
a walk fails it has cached the vnodes that it passed, and the copy of the path stays allocated.
-/

set_option autoImplicit false

namespace LakeOS.Analysis

open LakeOS.Library LakeOS.Model

section

variable {H F δ : Type}

/-- No vnode is found for the path, or for the directory that the new file is to go into. -/
def Unresolved (v : Vfs H F δ) : EntryCall → Prop
  | .openFile _ path _ | .statFile path | .removeFile path => (vfsWalkPath v path).1 = none
  | .createFile path _ => ∃ dirname name, path = dirname ++ slash :: name ∧ slash ∉ name ∧
      (vfsWalkPath v dirname).1 = none

/-- The driver of the vnode that is found has a null pointer for the operation. -/
def Unimplemented (v : Vfs H F δ) (c : EntryCall) : Prop :=
  ∃ node, c.vnode v = some node ∧ node.driver.isNull c.op

/-- A descriptor that is returned is none of the table. -/
def EntryResult.IsFailure (s : FileTable H F δ) : EntryResult H → Prop
  | .descriptor fd => s.descriptorList[fd]? = none
  | _ => True

/-- A call returns, reports that it failed if it can report anything, and leaves everything as it
was. -/
def FailsCleanly (s : FileTable H F δ) (c : EntryCall) : Prop :=
  ∃ r, entryRun c s = .ok (r, s) ∧ EntryResult.IsFailure s r

variable {s : FileTable H F δ} {v : Vfs H F δ} {c : EntryCall}

/-- INTERNAL: the walk of an unresolved call ends with `NULL`. -/
theorem Unresolved.vnode_eq (h : Unresolved v c) : c.vnode v = none := by
  have hwalk : (c.walk v).1 = none := by
    cases c with
    | openFile res path mode => exact h
    | statFile path => exact h
    | removeFile path => exact h
    | createFile path attributes =>
        obtain ⟨dirname, name, rfl, hname, hdir⟩ := h
        rw [EntryCall.walk, vfsGetDirAndFname_slash v dirname hname]
        exact hdir
  rw [EntryCall.vnode, hwalk, Option.bind_none]

/-- INTERNAL: **an unresolved call follows a null vnode**. -/
theorem entryRun_of_unresolved (h : Unresolved s.vfs c) :
    entryRun c s = .error .nullVnode := by
  rw [entryRun, h.vnode_eq]

/-- INTERNAL: a call that the driver does not implement calls a null pointer. -/
theorem entryRun_of_unimplemented (h : Unimplemented s.vfs c) :
    entryRun c s = .error (.nullPointer c.op) := by
  obtain ⟨node, hnode, hnull⟩ := h
  simp [entryRun, hnode, hnull]

/-- INTERNAL: a call that fails cleanly found its vnode, and its driver has the operation. -/
theorem FailsCleanly.found (h : FailsCleanly s c) :
    ∃ node, c.vnode s.vfs = some node ∧ node.driver.isNull c.op = false := by
  obtain ⟨r, hrun, -⟩ := h
  cases hnode : c.vnode s.vfs with
  | none =>
      rw [entryRun, hnode] at hrun
      cases hrun
  | some node =>
      refine ⟨node, rfl, ?_⟩
      by_contra hnull
      rw [Bool.not_eq_false] at hnull
      rw [entryRun_of_unimplemented ⟨node, hnode, hnull⟩] at hrun
      cases hrun

/-- INTERNAL: **a walk that fails** keeps its copy of the path.
SRCLINE: vfs.c:176-189 -/
theorem vfsWalkAt_leaks {mem : Store Byte} {path : CString} {a block sep fuel : ℕ}
    (hpath : StringAt mem a path) (hsep : StringAt mem sep [slash])
    (hout : sep + 1 < block ∨ block + path.length + 1 ≤ sep) (hfuel : path.length + 1 < fuel)
    (hlt : path.length + 1 < 2 ^ 32) (last : Option ℕ) (hnone : (vfsWalkPath v path).1 = none) :
    ∃ run, vfsWalkAt mem fuel sep a block last v = some run ∧ run.found = none ∧
      run.copyFreed = false := by
  obtain ⟨run, hrun, hfound, hfreed, -⟩ := vfsWalkAt_spec hpath hsep hout hfuel hlt last v
  have hwalk : run.found = none := by
    rw [vfsWalkPath_eq, ← hfound] at hnone
    exact hnone
  exact ⟨run, hrun, hwalk, by simp [hfreed, hwalk]⟩

end

/-- **A path that leads nowhere** is never met cleanly, nor is an operation that the driver does
not implement: the call follows the null vnode, or calls through the null pointer.
SRCLINE: vfs.c:176-209, vfs.c:261-274, vfs.c:296-321, dev.c:6-21 -/
theorem entryRun_never {H F δ : Type} {s : FileTable H F δ} {c : EntryCall}
    (h : Unresolved s.vfs c ∨ Unimplemented s.vfs c) :
    (entryRun c s = .error .nullVnode ∨ entryRun c s = .error (.nullPointer c.op)) ∧
      ¬ FailsCleanly s c := by
  constructor
  · exact h.imp entryRun_of_unresolved entryRun_of_unimplemented
  · intro hclean
    obtain ⟨node, hnode, hnull⟩ := hclean.found
    rcases h with hnone | ⟨node', hnode', hnull'⟩
    · rw [hnone.vnode_eq] at hnode
      cases hnode
    · obtain rfl := Option.some.inj (hnode.symm.trans hnode')
      rw [hnull] at hnull'
      cases hnull'

/-! The device files, in a tree of their own. -/

/-- `STDOUT` and `STDIN`, without a file open. -/
def devTable : FileTable (Option ℕ) (Option ℕ) Unit where
  vfs := ⟨[⟨none, devInit ⟨0, 0, 0, 0, 0, 0⟩ (fun _ => ⟨0, 0, 0, 0, 0, 0⟩)
    (fun _ v => ((0, []), v)) (fun _ v => (0, v)), []⟩], ()⟩
  descriptorList := []
  heap := fun _ => none

/-- `VFS_open("/X")`: there is no such device. -/
theorem entryRun_never_open :
    (entryRun (.openFile 0x10 [slash, 0x58] 1) devTable = .error .nullVnode ∨
      entryRun (.openFile 0x10 [slash, 0x58] 1) devTable = .error (.nullPointer .fOpen)) ∧
      ¬ FailsCleanly devTable (.openFile 0x10 [slash, 0x58] 1) :=
  entryRun_never (.inl rfl)

/-- `VFS_open` and `VFS_remove` of `/STDIN/X`, `VFS_stat` of `/X`, `VFS_create` of `/X/Y` follow
null vnodes, and a walk to `/STDIN/X` leaves the vnode of `STDIN` behind.  `VFS_open("/STDIN")`
and `VFS_create("/Y")` find a vnode, and call a null pointer. -/
theorem devTable_not_clean :
    (∀ c ∈ [EntryCall.openFile 0x10 [slash, 0x53, 0x54, 0x44, 0x49, 0x4E, slash, 0x58] 1,
        .removeFile [slash, 0x53, 0x54, 0x44, 0x49, 0x4E, slash, 0x58],
        .statFile [slash, 0x58], .createFile [slash, 0x58, slash, 0x59] 0],
      Unresolved devTable.vfs c ∧ entryRun c devTable = .error .nullVnode) ∧
    (∀ c ∈ [EntryCall.openFile 0x10 [slash, 0x53, 0x54, 0x44, 0x49, 0x4E] 1,
        .createFile [slash, 0x59] 0],
      Unimplemented devTable.vfs c ∧ entryRun c devTable = .error (.nullPointer c.op)) ∧
    (vfsWalkPath devTable.vfs
      [slash, 0x53, 0x54, 0x44, 0x49, 0x4E, slash, 0x58]).2.nodes.length = 2 ∧
    ¬ ∀ c : EntryCall, Unresolved devTable.vfs c ∨ Unimplemented devTable.vfs c →
      FailsCleanly devTable c := by
  have hstat : Unresolved devTable.vfs (.statFile [slash, 0x58]) := rfl
  refine ⟨?_, ?_, rfl, fun hall => ?_⟩
  · intro c hc
    have hnone : Unresolved devTable.vfs c := by
      simp only [List.mem_cons, List.not_mem_nil, or_false] at hc
      rcases hc with rfl | rfl | rfl | rfl
      · rfl
      · rfl
      · rfl
      · exact ⟨[slash, 0x58], [0x59], rfl, by decide, rfl⟩
    exact ⟨hnone, entryRun_of_unresolved hnone⟩
  · intro c hc
    have hnull : Unimplemented devTable.vfs c := by
      simp only [List.mem_cons, List.not_mem_nil, or_false] at hc
      rcases hc with rfl | rfl
      · exact ⟨_, rfl, rfl⟩
      · exact ⟨_, rfl, rfl⟩
    exact ⟨hnull, entryRun_of_unimplemented hnull⟩
  · obtain ⟨node, hnode, -⟩ := (hall _ (.inl hstat)).found
    rw [hstat.vnode_eq] at hnode
    cases hnode

end LakeOS.Analysis
