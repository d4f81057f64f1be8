import LakeOS.Model.Kmm

/-!
# The drivers of the virtual file system

`vfsops` is a vector of operation tables in the kernel heap, one for each registered
driver, which `kexpand` grows and may move.  A vnode or a descriptor has a pointer to the
table of its driver.

A driver is called through the pointers of its table: what the functions do is a parameter
(`DriverCode`).
-/

set_option autoImplicit false

namespace LakeOS.Model

open LakeOS.Library

/-- `sizeof(t_VFSOperations)`, fourteen pointers. -/
abbrev sizeofOperations : ℕ := 56

/-- Memory and the statics of the vector. -/
structure DriverTable where
  memory : Memory
  vfsops : ℕ
  numDrivers : ℕ

/-- What the functions `f_Mount` and `f_Root` at an address do, the former with the device
at hand. -/
structure DriverCode (C H : Type) where
  fMount : ℕ → Option C
  fRoot : ℕ → C → H

/-- The fields of a vnode or a descriptor that come from a driver. -/
structure DriverNode (H : Type) where
  handle : H
  driver : ℕ

variable {C H : Type}

/-- `&vfsops[i]`. -/
def operationsAt (s : DriverTable) (i : ℕ) : ℕ := add32 s.vfsops (mul32 i sizeofOperations)

/-- `vfsops[i].f_Mount(dev)`. -/
def mountAt (code : DriverCode C H) (s : DriverTable) (i : ℕ) : Option C :=
  code.fMount (s.memory.load 4 (operationsAt s i))

/-- SRCLINE: vfs.c:22-25 -/
def vfsRegisterFs (driver : List Byte) (s : DriverTable) : Option DriverTable :=
  (kexpand s.memory s.vfsops sizeofOperations).map fun grown =>
    let s := { s with memory := grown.2, vfsops := grown.1 }
    { s with
      memory := s.memory.write (operationsAt s s.numDrivers) driver
      numDrivers := add32 s.numDrivers 1 }

/-- The loop of `VFS_try_mount`, `n` drivers to go: the context and `*out`. -/
def vfsTryMountLoop (code : DriverCode C H) (s : DriverTable) :
    ℕ → ℕ → Option ℕ → Option C × Option ℕ
  | 0, _, out => (none, out)
  | n + 1, i, _ =>
      match mountAt code s i with
      | some ctx => (some ctx, some s.vfsops)
      | none => vfsTryMountLoop code s n (i + 1) (some s.vfsops)

/-- SRCLINE: vfs.c:27-35 -/
def vfsTryMount (code : DriverCode C H) (s : DriverTable) : Option C × Option ℕ :=
  vfsTryMountLoop code s s.numDrivers 0 none

/-- SRCLINE: vfs.c:37-43 -/
def vfsMountRoot (code : DriverCode C H) (s : DriverTable) (fs : C) (fsops : ℕ) : DriverNode H where
  handle := code.fRoot (s.memory.load 4 (fsops + 8)) fs
  driver := fsops

/-- A vnode below another one, or a descriptor of it.
SRCLINE: vfs.c:163-174, 261-274 -/
def DriverNode.inherit (parent : DriverNode H) (handle : H) : DriverNode H where
  handle := handle
  driver := parent.driver

/-- INTERNAL: the loop stops at the first driver that returns a context. -/
theorem vfsTryMountLoop_eq (code : DriverCode C H) (s : DriverTable) (n i : ℕ) (out : Option ℕ) :
    (vfsTryMountLoop code s n i out).1 =
        ((List.range' i n).find? fun j => (mountAt code s j).isSome).bind (mountAt code s) ∧
      ((vfsTryMountLoop code s n i out).1.isSome →
        (vfsTryMountLoop code s n i out).2 = some s.vfsops) := by
  induction n generalizing i out with
  | zero => exact ⟨rfl, fun hsome => absurd hsome (by simp [vfsTryMountLoop])⟩
  | succ n ih =>
      rw [List.range'_succ, List.find?_cons, vfsTryMountLoop]
      cases hmount : mountAt code s i with
      | some ctx => exact ⟨by simp [hmount], fun _ => rfl⟩
      | none => exact ih (i + 1) (some s.vfsops)

end LakeOS.Model
