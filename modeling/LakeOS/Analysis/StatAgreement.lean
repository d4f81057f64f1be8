import LakeOS.Analysis.Descriptors
import LakeOS.Analysis.FatOffsets
import LakeOS.Model.FatDir
import LakeOS.Model.Vfm

/-!
# `VFS_stat` and `VFS_fstat`

Both call `f_Stat`, one with the handle of a vnode and the other with the object that
`f_Open` returned.  A virtual file is its own handle, so the two agree.  A `t_FATFile` is
no `t_FATHandle`: `FAT_file_stat` takes its size for the pointer to the context.
-/

set_option autoImplicit false

namespace LakeOS.Analysis

open LakeOS.Library LakeOS.Model

/-! ## Objects of the drivers -/

/-- The drivers that open files. -/
inductive FsDriver where
  | fat
  | vfm
deriving DecidableEq

/-- What a `t_FSNode` points to. -/
inductive FsNode where
  | fat (handle : FatHandle)
  | vfm (i : ℕ)

/-- What a `t_FSFile` points to. -/
inductive FsFile where
  | fat (file : FatFile)
  | vfm (i : ℕ)

/-- The disk of a FAT volume and the list of virtual files. -/
structure Volumes where
  disk : Disk
  memory : Memory
  startChrono : FileChrono
  files : List VfmFile

/-- The objects that `f_Stat` of a driver interprets: `t_FATHandle`s, and `t_VFMFile`s as
handles and as open files. -/
def Interprets : FsDriver → FsNode ⊕ FsFile → Prop
  | .fat, .inl (.fat _) => True
  | .vfm, .inl (.vfm _) => True
  | .vfm, .inr (.vfm _) => True
  | _, _ => False

/-- `f_Stat` and `f_Open` of a FAT volume, where these return. -/
structure DrivesFat (ctx : FatContext) (junk : Uninit)
    (driver : VfsOperations FsNode FsFile Volumes) : Prop where
  stat : ∀ handle v, driver.fStat (.inl (.fat handle)) v = fatFileStat ctx junk handle v.disk
  opens : ∀ handle mode v, ∃ file v', driver.fOpen (.fat handle) mode v = (.fat file, v') ∧
    ∀ file', fatOpen ctx junk handle mode v.disk = some file' → file = file' ∧ v' = v

/-- `VFM_fstat` of the virtual file `i`. -/
def vfmStatAt (v : Volumes) (i : ℕ) : Option FileStat :=
  v.files[i]?.map fun file => vfmFstat ⟨v.memory, v.startChrono, file⟩

/-- `VFM_open` of the virtual file `i`. -/
def vfmOpenAt (v : Volumes) (i mode : ℕ) : Volumes :=
  { v with files := v.files.modify i fun file =>
      (vfmOpen mode ⟨v.memory, v.startChrono, file⟩).file }

/-- `f_Stat` and `f_Open` of the virtual files. -/
structure DrivesVfm (driver : VfsOperations FsNode FsFile Volumes) : Prop where
  stat : ∀ i v, driver.fStat (.inl (.vfm i)) v = vfmStatAt v i
  fstat : ∀ i v, driver.fStat (.inr (.vfm i)) v = vfmStatAt v i
  opens : ∀ i mode v, driver.fOpen (.vfm i) mode v = (.vfm i, vfmOpenAt v i mode)

/-- A vnode with a handle of its driver. -/
def DrivenBy (v : Volumes) (node : VfsNode FsNode FsFile Volumes) : FsDriver → Prop
  | .fat => ∃ ctx junk handle, DrivesFat ctx junk node.driver ∧ node.handle = .fat handle
  | .vfm => DrivesVfm node.driver ∧ ∃ i < v.files.length, node.handle = .vfm i

/-- The file opened is an object that `f_Stat` interprets, and its size and flags are those
of the path. -/
def StatsAgree (kind : FsDriver) (res : ℕ) (path : CString) (mode : ℕ)
    (s : FileTable FsNode FsFile Volumes) : Prop :=
  ∀ fd s', vfsOpen res path mode s = some (fd, s') →
    (∃ file, descriptorAt s' fd = some file ∧ Interprets kind (.inr file.descriptor)) ∧
    ∃ stat t fstat, vfsStat path s = some (stat, t) ∧ vfsFstat fd s' = some fstat ∧
      fstat.size = stat.size ∧ fstat.flags = stat.flags

/-! ## Opening -/

section

variable {H F δ : Type}

/-- A new descriptor is open on its file. -/
theorem descriptorAt_newDescriptor (res : ℕ) (file : FileDescriptor H F δ)
    (s : FileTable H F δ) :
    descriptorAt (newDescriptor res file s).2 (newDescriptor res file s).1 = some file ∧
      (newDescriptor res file s).2.vfs = s.vfs := by
  obtain ⟨hheap, hvfs, hslot, -⟩ :=
    vfsAddDescriptor_spec res { s with heap := Function.update s.heap res (some file) }
  refine ⟨?_, hvfs⟩
  rw [descriptorAt, newDescriptor, hslot, Option.bind_some, hheap]
  exact Function.update_self _ _ _

variable {s : FileTable H F δ} {path : CString} {vnode : ℕ} {v : Vfs H F δ}
  {node : VfsNode H F δ}

theorem vfsOpen_of_walk (res mode : ℕ) (hwalk : vfsWalkPath s.vfs path = (some vnode, v))
    (hnode : v.nodes[vnode]? = some node) :
    ∃ fd s', vfsOpen res path mode s = some (fd, s') ∧
      descriptorAt s' fd =
        some ⟨(node.driver.fOpen node.handle mode v.volumes).1, node.driver⟩ ∧
      s'.vfs.volumes = (node.driver.fOpen node.handle mode v.volumes).2 := by
  let opened := node.driver.fOpen node.handle mode v.volumes
  obtain ⟨hat, hvfs⟩ := descriptorAt_newDescriptor res ⟨opened.1, node.driver⟩
    { s with vfs := { v with volumes := opened.2 } }
  refine ⟨_, _, ?_, hat, by rw [hvfs]⟩
  rw [vfsOpen, hwalk]
  simp only [Option.bind_eq_bind, Option.bind_some, hnode]
  rfl

theorem vfsStat_of_walk (hwalk : vfsWalkPath s.vfs path = (some vnode, v))
    (hnode : v.nodes[vnode]? = some node) {stat : FileStat}
    (hstat : node.driver.fStat (.inl node.handle) v.volumes = some stat) :
    vfsStat path s = some (stat, { s with vfs := v }) := by
  rw [vfsStat, hwalk]
  simp only [Option.bind_eq_bind, Option.bind_some, hnode, hstat]
  rfl

end

section

variable {s : FileTable FsNode FsFile Volumes} {path : CString} {vnode : ℕ}
  {v : Vfs FsNode FsFile Volumes} {node : VfsNode FsNode FsFile Volumes}

/-- Opening a virtual file changes neither its size nor its flags. -/
theorem vfmStatAt_openAt {w : Volumes} {i : ℕ} (mode : ℕ) (hi : i < w.files.length) :
    ∃ stat fstat, vfmStatAt w i = some stat ∧ vfmStatAt (vfmOpenAt w i mode) i = some fstat ∧
      fstat.size = stat.size ∧ fstat.flags = stat.flags := by
  have hget := List.getElem?_eq_getElem hi
  refine ⟨vfmFstat ⟨w.memory, w.startChrono, w.files[i]⟩,
    vfmFstat ⟨w.memory, w.startChrono,
      (vfmOpen mode ⟨w.memory, w.startChrono, w.files[i]⟩).file⟩, ?_, ?_, rfl, rfl⟩
  · rw [vfmStatAt, hget, Option.map_some]
  · rw [vfmStatAt, vfmOpenAt]
    simp only [List.getElem?_modify_eq, hget, Option.map_some, Option.map_eq_map]

theorem vfm_statsAgree (res mode : ℕ) (hwalk : vfsWalkPath s.vfs path = (some vnode, v))
    (hnode : v.nodes[vnode]? = some node) (hdriven : DrivenBy v.volumes node .vfm) :
    StatsAgree .vfm res path mode s := by
  obtain ⟨hdriver, i, hi, hhandle⟩ := hdriven
  intro fd s' hopen
  obtain ⟨fd', s'', hopen', hat, hvolumes⟩ := vfsOpen_of_walk res mode hwalk hnode
  rw [hopen] at hopen'
  cases hopen'
  rw [hhandle, hdriver.opens] at hat hvolumes
  obtain ⟨stat, fstat, hstat, hfstat, hsize, hflags⟩ := vfmStatAt_openAt mode hi
  refine ⟨⟨_, hat, trivial⟩, stat, _, fstat, vfsStat_of_walk hwalk hnode ?_, ?_, hsize, hflags⟩
  · rw [hhandle, hdriver.stat, hstat]
  · rw [vfsFstat, hat]
    simp only [Option.bind_eq_bind, Option.bind_some]
    rw [hdriver.fstat, hvolumes, hfstat]

theorem fat_not_statsAgree {vnode : ℕ} {node : VfsNode FsNode FsFile Volumes} (res mode : ℕ)
    (hwalk : vfsWalkPath s.vfs path = (some vnode, v))
    (hnode : v.nodes[vnode]? = some node) (hdriven : DrivenBy v.volumes node .fat) :
    ¬ StatsAgree .fat res path mode s := by
  obtain ⟨ctx, junk, handle, hdriver, hhandle⟩ := hdriven
  obtain ⟨fd, s', hopen, hat, -⟩ := vfsOpen_of_walk res mode hwalk hnode
  obtain ⟨file, v', hfile, -⟩ := hdriver.opens handle mode v.volumes
  rw [hhandle, hfile] at hat
  intro hagree
  obtain ⟨⟨file', hat', hinterprets⟩, -⟩ := hagree fd s' hopen
  rw [hat] at hat'
  cases hat'
  exact hinterprets

/-- **`VFS_fstat` agrees with `VFS_stat` on all files that are not on a FAT volume.** -/
theorem stats_agree_iff (s : FileTable FsNode FsFile Volumes) (path : CString)
    (res mode vnode : ℕ) (v : Vfs FsNode FsFile Volumes)
    (node : VfsNode FsNode FsFile Volumes) (kind : FsDriver)
    (hwalk : vfsWalkPath s.vfs path = (some vnode, v)) (hnode : v.nodes[vnode]? = some node)
    (hdriven : DrivenBy v.volumes node kind) :
    StatsAgree kind res path mode s ↔ kind ≠ .fat := by
  cases kind with
  | fat => exact iff_of_false (fat_not_statsAgree res mode hwalk hnode hdriven) (absurd rfl)
  | vfm => exact iff_of_true (vfm_statsAgree res mode hwalk hnode hdriven) (by decide)

end

/-! ## Two volumes -/

/-- A driver with one virtual file, found under every name. -/
def oneVirtualFile : VfsOperations FsNode FsFile Volumes where
  fLookup := fun _ _ _ => some (.vfm 0)
  fCreate := fun _ _ _ v => v
  fOpen := fun h mode v => match h with
    | .vfm i => (.vfm i, vfmOpenAt v i mode)
    | .fat _ => (.vfm 0, v)
  fClose := fun _ v => v
  fRead := fun _ => some fun _ v => ((0, []), v)
  fWrite := fun _ => some fun _ v => (0, v)
  fNodeName := fun _ _ => []
  fStat := fun obj v => match obj with
    | .inl (.vfm i) => vfmStatAt v i
    | .inr (.vfm i) => vfmStatAt v i
    | _ => none

/-- A driver with one file on a FAT volume, found under every name.  Where a `t_FATFile` is
taken for a handle, `f_Stat` does not return. -/
def oneFatFile (ctx : FatContext) (junk : Uninit) : VfsOperations FsNode FsFile Volumes where
  fLookup := fun _ _ _ => some (.fat ⟨0, 2, 0x20, [0x41]⟩)
  fCreate := fun _ _ _ v => v
  fOpen := fun h mode v => match h with
    | .fat handle => (.fat ((fatOpen ctx junk handle mode v.disk).getD ⟨0, 0, 0, 0, 0⟩), v)
    | .vfm i => (.vfm i, v)
  fClose := fun _ v => v
  fRead := fun _ => some fun _ v => ((0, []), v)
  fWrite := fun _ => some fun _ v => (0, v)
  fNodeName := fun _ _ => []
  fStat := fun obj v => match obj with
    | .inl (.fat handle) => fatFileStat ctx junk handle v.disk
    | _ => none

/-- The root of a driver, nothing open. -/
def mounted (root : FsNode) (driver : VfsOperations FsNode FsFile Volumes) :
    FileTable FsNode FsFile Volumes where
  vfs := ⟨[⟨root, driver, []⟩],
    ⟨fun _ => 0, fun _ => 0, vfsCurrChrono ⟨2025, 0, 0, 0, 1, 1⟩,
      [vfmNewFile (vfsCurrChrono ⟨2025, 0, 0, 0, 1, 1⟩) 0]⟩⟩
  descriptorList := []
  heap := fun _ => none

/-- The file `/A` of the virtual volume. -/
theorem stats_agree_iff_virtual :
    StatsAgree .vfm 0x10 [slash, 0x41] 1 (mounted (.vfm 0) oneVirtualFile) :=
  (stats_agree_iff (mounted (.vfm 0) oneVirtualFile) [slash, 0x41] 0x10 1 1 _
    ⟨.vfm 0, oneVirtualFile, []⟩ .vfm rfl rfl
    ⟨⟨fun _ _ => rfl, fun _ _ => rfl, fun _ _ _ => rfl⟩, 0, Nat.one_pos, rfl⟩).mpr (by decide)

/-- The file `/A` of a FAT volume: `VFS_fstat` hands `f_Stat` the `t_FATFile`. -/
theorem fat_fstat_takes_no_file :
    ¬ StatsAgree .fat 0x10 [slash, 0x41] 1
      (mounted (.fat fatGetRoot) (oneFatFile floppy ⟨1, []⟩)) := by
  have hdriver : DrivesFat floppy ⟨1, []⟩ (oneFatFile floppy ⟨1, []⟩) := by
    refine ⟨fun _ _ => rfl, fun handle mode v => ⟨_, _, rfl, fun file' hopen => ⟨?_, rfl⟩⟩⟩
    rw [hopen]
    rfl
  have hnode : DrivenBy (mounted (.fat fatGetRoot) (oneFatFile floppy ⟨1, []⟩)).vfs.volumes
      ⟨.fat ⟨0, 2, 0x20, [0x41]⟩, oneFatFile floppy ⟨1, []⟩, []⟩ .fat :=
    ⟨floppy, ⟨1, []⟩, _, hdriver, rfl⟩
  exact @fat_not_statsAgree _ _ _ 1 _ 0x10 1 rfl rfl hnode

end LakeOS.Analysis
