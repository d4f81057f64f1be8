import LakeOS.Model.Dev
import LakeOS.Model.Vfs
import LakeOS.Model.VfsDrivers

/-!
# The start of the virtual file system

`VFS_init` asks at the keyboard which device the root is on, until one is taken.  The system is
installed on it unless `LAKEOS` is there, and the directories of the drivers without a device become
children of the root.

`getchar` returns the bytes of the input one after the other; where they run out, it waits for ever,
and the answer is `none`.
-/

set_option autoImplicit false

namespace LakeOS.Model

open LakeOS.Library

/-! ## The dialogue -/

/-- The texts that are printed.
SRCLINE: vfs.c:82-91, vfs.c:114, vfs.c:124, vfs.c:131 -/
inductive BootText where
  | mountRoot (name : CString)
  | enterYesOrNo
  | noBootDevice
  | notInstalled
  | installing
  | installingAnyway

/-- What `getchar` will return, and what was printed. -/
structure BootConsole where
  input : List Byte
  printed : List BootText

def BootConsole.print (text : BootText) (c : BootConsole) : BootConsole :=
  { c with printed := c.printed ++ [text] }

/-- The character `y`. -/
abbrev charY : Byte := 0x79

/-- The character `n`. -/
abbrev charN : Byte := 0x6E

/-- The question for a device, from `reread_input` on: whether the answer is `y`.
SRCLINE: vfs.c:113-126 -/
def vfsRereadInput (name : CString) : List Byte → List BootText → Option (Bool × BootConsole)
  | [], _ => none
  | ans :: input, printed =>
    let printed := printed ++ [.mountRoot name]
    if ans = charY then some (true, ⟨input, printed⟩)
    else if ans = charN then some (false, ⟨input, printed⟩)
    else vfsRereadInput name input (printed ++ [.enterYesOrNo])

/-- A storage device, as far as it is mounted: its name and what the drivers do with it. -/
structure BootDevice (C H : Type) where
  name : CString
  code : DriverCode C H

section

variable {C H : Type} (table : DriverTable)

/-- The loop over the devices, with `vfs_root` if a device is taken.
SRCLINE: vfs.c:108-128 -/
def vfsInitLoop : List (BootDevice C H) → BootConsole → Option (Option (DriverNode H) × BootConsole)
  | [], c => some (none, c)
  | dev :: devs, c =>
    match vfsTryMount dev.code table with
    | (some ctx, some rootfsops) =>
      (vfsRereadInput dev.name c.input c.printed).bind fun (yes, c) =>
        if yes then some (some (vfsMountRoot dev.code table ctx rootfsops), c)
        else vfsInitLoop devs c
    | _ => vfsInitLoop devs c

/-- `retry_mounting`, as many times as there is fuel for.
SRCLINE: vfs.c:107-133 -/
def vfsInitRoot (devs : List (BootDevice C H)) :
    ℕ → BootConsole → Option (DriverNode H × BootConsole)
  | 0, _ => none
  | fuel + 1, c =>
    (vfsInitLoop table devs c).bind fun (root, c) =>
      match root with
      | some root => some (root, c)
      | none => vfsInitRoot devs fuel (c.print .noBootDevice)

end

/-! ## The root -/

/-- `"LAKEOS"`. -/
abbrev nameLakeos : CString := [0x4C, 0x41, 0x4B, 0x45, 0x4F, 0x53]

/-- `"USER"`. -/
abbrev nameUser : CString := [0x55, 0x53, 0x45, 0x52]

/-- `"BIN"`. -/
abbrev nameBin : CString := [0x42, 0x49, 0x4E]

/-- The tables `vfm_vfs_ops` and `dev_vfs_ops`, what their `f_Root` return, and a handle where an
open file is expected. -/
structure BootDrivers (H F δ : Type) where
  vfm : VfsOperations H F δ
  dev : VfsOperations H F δ
  vfmRoot : H
  devRoot : H
  asFile : H → F

section

variable {H F δ : Type} (b : BootDrivers H F δ)

/-- A directory of another driver is made a child of the root.
SRCLINE: vfs.c:46-49, vfs.c:53-56 -/
def vfsInitChild (driver : VfsOperations H F δ) (handle : H) (s : Vfs H F δ) :
    Option (ℕ × Vfs H F δ) := do
  let root ← s.nodes[vfsRoot]?
  let made := vfsMakeVnode s root handle
  let nodes := made.2.nodes.modify made.1 fun node => { node with driver := driver }
  return (made.1, vfsInsertVnode { made.2 with nodes := nodes } vfsRoot made.1)

/-- SRCLINE: vfs.c:45-50 -/
def vfsInitVirt (s : Vfs H F δ) : Option (Vfs H F δ) :=
  (vfsInitChild b.vfm b.vfmRoot s).map Prod.snd

/-- `VFS_init_dev`, with the pointers that `kmalloc` returns; `none` where it follows a null
pointer.
SRCLINE: vfs.c:52-78 -/
def vfsInitDev (fd0 fd1 : ℕ) (s : FileTable H F δ) : Option (FileTable H F δ) := do
  let devRoot ← vfsInitChild b.dev b.devRoot s.vfs
  let stdin := vfsLookup devRoot.2 devRoot.1 nameStdin
  let stdout := vfsLookup stdin.2 devRoot.1 nameStdout
  let vfsStdin ← stdin.1.bind fun vnode => stdout.2.nodes[vnode]?
  let vfsStdout ← stdout.1.bind fun vnode => stdout.2.nodes[vnode]?
  let s := { s with vfs := stdout.2 }
  let s := (newDescriptor fd0 ⟨b.asFile vfsStdin.handle, vfsStdin.driver⟩ s).2
  return (newDescriptor fd1 ⟨b.asFile vfsStdout.handle, vfsStdout.driver⟩ s).2

/-- The three calls of `f_Create`.
SRCLINE: vfs.c:94-96 -/
def vfsInstall (s : Vfs H F δ) (root : VfsNode H F δ) : Vfs H F δ :=
  let s := vfsMakeFile s root nameLakeos 2
  let s := vfsMakeFile s root nameUser 1
  vfsMakeFile s root nameBin 1

/-- `VFS_init_rootfs`: the answer only changes what is printed.
SRCLINE: vfs.c:80-101 -/
def vfsInitRootfs (fd0 fd1 : ℕ) (c : BootConsole) (s : FileTable H F δ) :
    Option (BootConsole × FileTable H F δ) := do
  let found := vfsLookup s.vfs vfsRoot nameLakeos
  let (c, v) ← match found.1 with
    | some _ => some (c, found.2)
    | none => do
      let root ← found.2.nodes[vfsRoot]?
      let c := c.print .notInstalled
      match c.input with
      | [] => none
      | ans :: input =>
        let c := { c with input := input }
        let c := c.print (if ans = charY then .installing else .installingAnyway)
        some (c, vfsInstall found.2 root)
  let v ← vfsInitVirt b v
  let s ← vfsInitDev b fd0 fd1 { s with vfs := v }
  return (c, s)

/-- `vfs_root` alone, and no descriptors. -/
def rootMounted (root : VfsOperations H F δ) (handle : H) (volumes : δ) : FileTable H F δ where
  vfs := ⟨[⟨handle, root, []⟩], volumes⟩
  descriptorList := []
  heap := fun _ => none

/-- `VFS_init`; `tables` are the functions of the tables by their addresses.
SRCLINE: vfs.c:103-136 -/
def vfsInit {C : Type} (table : DriverTable) (devs : List (BootDevice C H))
    (tables : ℕ → VfsOperations H F δ) (fd0 fd1 fuel : ℕ) (c : BootConsole) (volumes : δ) :
    Option (BootConsole × FileTable H F δ) :=
  (vfsInitRoot table devs fuel c).bind fun (root, c) =>
    vfsInitRootfs b fd0 fd1 c (rootMounted (tables root.driver) root.handle volumes)

end

end LakeOS.Model
