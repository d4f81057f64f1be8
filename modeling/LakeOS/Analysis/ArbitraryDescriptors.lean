import LakeOS.Analysis.Descriptors
import LakeOS.Analysis.SeekContract
import LakeOS.Model.SysFd

/-!
# Arbitrary descriptors

A user passes any value as a descriptor.  The calls that take one index `descriptor_list` with it
unchecked; only `VFS_seek` looks whether the slot is empty.  What a call does with an open file
is a `FileAction`: it depends on nothing but that file and the volumes.
-/

set_option autoImplicit false

namespace LakeOS.Analysis

open LakeOS.Library LakeOS.Model

section

variable {H F δ : Type}

/-! ## Actions on a file -/

/-- The slot of a descriptor is not empty and leads to a file. -/
def SlotReaches (s : FileTable H F δ) (fd : ℕ) (file : FileDescriptor H F δ) : Prop :=
  descriptorAt s fd = some file ∧ s.descriptorList[fd]? ≠ some 0

/-- A function of a descriptor looks at nothing but the file and the volumes, and changes
nothing but the volumes. -/
def FileAction {α : Type} (file : FileDescriptor H F δ)
    (f : ℕ → FileTable H F δ → Option (α × FileTable H F δ)) : Prop :=
  ∃ g : δ → Option (α × δ), ∀ fd s, SlotReaches s fd file →
    f fd s = (g s.vfs.volumes).map fun r => (r.1, putVolumes s r.2)

variable {α β : Type} {file : FileDescriptor H F δ}

theorem FileAction.pure (a : α) : FileAction file fun _ s => some (a, s) :=
  ⟨fun d => some (a, d), fun _ _ _ => rfl⟩

theorem FileAction.fail : FileAction (α := α) file fun _ _ => none :=
  ⟨fun _ => none, fun _ _ _ => rfl⟩

theorem FileAction.bind {f : ℕ → FileTable H F δ → Option (α × FileTable H F δ)}
    {h : α → ℕ → FileTable H F δ → Option (β × FileTable H F δ)} (hf : FileAction file f)
    (hh : ∀ a, FileAction file (h a)) :
    FileAction file fun fd s => (f fd s).bind fun r => h r.1 fd r.2 := by
  obtain ⟨g, hg⟩ := hf
  choose k hk using hh
  refine ⟨fun d => (g d).bind fun r => k r.1 r.2, fun fd s hs => ?_⟩
  dsimp only
  rw [hg fd s hs]
  cases g s.vfs.volumes with
  | none => rfl
  | some r => exact hk r.1 fd (putVolumes s r.2) hs

theorem FileAction.ite {p : Prop} [Decidable p]
    {f h : ℕ → FileTable H F δ → Option (α × FileTable H F δ)} (hf : FileAction file f)
    (hh : FileAction file h) : FileAction file fun fd s => if p then f fd s else h fd s := by
  by_cases hp : p
  · simpa [hp] using hf
  · simpa [hp] using hh

theorem vfsWrite_null {s : FileTable H F δ} {fd : ℕ} (hs : descriptorAt s fd = some file)
    (hnull : file.driver.fWrite file.descriptor = none) (data : List Byte) :
    vfsWrite fd data s = none := by
  simp [vfsWrite, hs, hnull]

theorem fileAction_write (data : List Byte) : FileAction file fun fd => vfsWrite fd data := by
  refine ⟨fun d => (file.driver.fWrite file.descriptor).map fun fWrite => fWrite data d,
    fun fd s hs => ?_⟩
  cases hwrite : file.driver.fWrite file.descriptor with
  | none => exact vfsWrite_null hs.1 hwrite data
  | some fWrite => exact vfsWrite_eq hs.1 hwrite data

theorem fileAction_read (len : ℕ) : FileAction file fun fd => vfsRead fd len := by
  refine ⟨fun d => (file.driver.fRead file.descriptor).map fun fRead => fRead len d,
    fun fd s hs => ?_⟩
  cases hread : file.driver.fRead file.descriptor with
  | none => simp [vfsRead, hs.1, hread]
  | some fRead =>
      simp only [vfsRead, hs.1, hread, Option.bind_eq_bind, Option.bind_some]
      rfl

theorem fileAction_driverSeek (position : ℕ) :
    FileAction file fun fd => driverSeek fd position := by
  refine ⟨fun d => file.driver.fSeek.map fun fSeek => fSeek file.descriptor position d,
    fun fd s hs => ?_⟩
  cases hseek : file.driver.fSeek with
  | none => simp [driverSeek, hs.1, hseek]
  | some fSeek => exact driverSeek_eq hs.1 hseek

theorem fileAction_fstat :
    FileAction file fun fd s => (vfsFstat fd s).map fun stat => (stat, s) := by
  refine ⟨fun d => (file.driver.fStat (.inr file.descriptor) d).map fun stat => (stat, d),
    fun fd s hs => ?_⟩
  dsimp only
  rw [vfsFstat_eq hs.1, Option.map_map]
  rfl

theorem fileAction_zeroFillLoop (chunk newPos fuel size : ℕ) :
    FileAction file fun fd => zeroFillLoop fd chunk newPos fuel size := by
  induction fuel generalizing size with
  | zero => exact .fail
  | succ fuel ih =>
      exact .ite (.bind (fileAction_write _) fun _ => ih (size + chunk)) (.pure size)

theorem fileAction_expandFile (newPos size : ℕ) :
    FileAction file fun fd s => (expandFile fd newPos size s).map fun s => ((), s) := by
  have hfill : FileAction file fun fd s =>
      (zeroFillLoop fd 0xFF newPos (newPos + 1) size s).bind fun long =>
        (zeroFillLoop fd 0xF newPos (newPos + 1) long.1 long.2).bind fun short =>
          (vfsWrite fd (List.replicate (newPos - short.1) 0) short.2).bind fun res =>
            some ((), res.2) :=
    .bind (fileAction_zeroFillLoop 0xFF newPos (newPos + 1) size) fun long =>
      .bind (fileAction_zeroFillLoop 0xF newPos (newPos + 1) long) fun short =>
        .bind (fileAction_write (List.replicate (newPos - short) 0)) fun _ => .pure ()
  have heq : (fun fd (s : FileTable H F δ) => (expandFile fd newPos size s).map fun s => ((), s)) =
      fun fd s => if size < newPos then
        (zeroFillLoop fd 0xFF newPos (newPos + 1) size s).bind fun long =>
          (zeroFillLoop fd 0xF newPos (newPos + 1) long.1 long.2).bind fun short =>
            (vfsWrite fd (List.replicate (newPos - short.1) 0) short.2).bind fun res =>
              some ((), res.2)
        else some ((), s) := by
    funext fd s
    unfold expandFile zeroFill
    split
    next => simp [Option.map_bind]
    next => rfl
  rw [heq]
  exact .ite hfill (.pure ())

theorem fileAction_seekTo (newPos size : ℕ) :
    FileAction file fun fd => seekTo fd newPos size := by
  have hmove : FileAction file fun fd s =>
      ((expandFile fd newPos size s).map fun s => ((), s)).bind fun r =>
        (driverSeek fd newPos r.2).bind fun moved => (driverSeek fd minusOne moved.2).bind
          fun asked => some (if asked.1 = newPos then newPos else minusOne, asked.2) :=
    .bind (fileAction_expandFile newPos size) fun _ => .bind (fileAction_driverSeek newPos)
      fun _ => .bind (fileAction_driverSeek minusOne) fun asked =>
        .pure (if asked = newPos then newPos else minusOne)
  have heq : (fun fd (s : FileTable H F δ) => seekTo fd newPos size s) = fun fd s =>
      ((expandFile fd newPos size s).map fun s => ((), s)).bind fun r =>
        (driverSeek fd newPos r.2).bind fun moved => (driverSeek fd minusOne moved.2).bind
          fun asked => some (if asked.1 = newPos then newPos else minusOne, asked.2) := by
    funext fd s
    simp [seekTo, Option.bind_map]
  exact heq ▸ hmove

theorem fileAction_seek (offset whence : ℤ) :
    FileAction file fun fd => vfsSeek fd offset whence := by
  have hseek : FileAction file fun fd s =>
      ((vfsFstat fd s).map fun stat => (stat, s)).bind fun r =>
        if whence = 0 then
          if offset < 0 then some (minusOne, r.2) else seekTo fd offset.toNat r.1.size r.2
        else if whence = 1 then
          (driverSeek fd minusOne r.2).bind fun asked =>
            seekTo fd (addOffset asked.1 offset) r.1.size asked.2
        else if whence = 2 then seekTo fd (addOffset r.1.size offset) r.1.size r.2
        else some (minusOne, r.2) :=
    .bind fileAction_fstat fun stat =>
      .ite (.ite (.pure minusOne) (fileAction_seekTo offset.toNat stat.size))
        (.ite (.bind (fileAction_driverSeek minusOne) fun asked =>
            fileAction_seekTo (addOffset asked offset) stat.size)
          (.ite (fileAction_seekTo (addOffset stat.size offset) stat.size) (.pure minusOne)))
  obtain ⟨g, hg⟩ := hseek
  refine ⟨g, fun fd s hs => ?_⟩
  rw [← hg fd s hs]
  simp [vfsSeek, hs.2, Option.bind_map]


theorem fdIndex_natCast (fd : ℕ) : fdIndex (fd : ℤ) = some fd := by simp [fdIndex]

theorem fdPointer_eq {s : FileTable H F δ} {fd : ℕ} (hs : descriptorAt s fd = some file)
    (op : VfsOp) :
    fdPointer fd op s = if file.driver.isNull op then none else some () := by
  simp [fdPointer, hs]

/-- INTERNAL: a call that closes nothing is an action on the file. -/
theorem fileAction_runWith {c : SysFdCall} (hc : c.closes = false) :
    FileAction file fun fd s => c.runWith (fd : ℤ) s := by
  have hpointer : FileAction file fun fd s => (fdPointer fd .fStat s).map fun u => (u, s) := by
    refine ⟨fun d => if file.driver.isNull .fStat then none else some ((), d), fun fd s hs => ?_⟩
    dsimp only
    rw [fdPointer_eq hs.1]
    split
    next => rfl
    next => rfl
  cases c with
  | read ebx len =>
      have hread : FileAction file fun fd s => (vfsRead fd len s).bind fun r =>
          some (({ eax := r.1.1, data := r.1.2 } : SysFdResult), r.2) :=
        .bind (fileAction_read len) fun a => .pure (SysFdResult.mk a.1 a.2 none)
      simpa [SysFdCall.runWith, sysRead, fdIndex_natCast] using hread
  | write ebx data =>
      have hwrite : FileAction file fun fd s => (vfsWrite fd data s).bind fun r =>
          some (({ eax := r.1 } : SysFdResult), r.2) :=
        .bind (fileAction_write data) fun a => .pure (SysFdResult.mk a [] none)
      simpa [SysFdCall.runWith, sysWrite, fdIndex_natCast] using hwrite
  | close ebx => cases hc
  | fstat ebx =>
      have hstat : FileAction file fun fd s =>
          ((fdPointer fd .fStat s).map fun u => (u, s)).bind fun r =>
            ((vfsFstat fd r.2).map fun stat => (stat, r.2)).bind fun r =>
              some (({ eax := 0, stat := some r.1 } : SysFdResult), r.2) :=
        .bind hpointer fun _ => .bind fileAction_fstat fun stat =>
          .pure (SysFdResult.mk 0 [] (some stat))
      simpa [SysFdCall.runWith, sysFstat, fdIndex_natCast, Option.bind_map, Function.comp_def]
        using hstat
  | lseek ebx ecx edx =>
      have hseek : FileAction file fun fd s =>
          ((fdPointer fd .fStat s).map fun u => (u, s)).bind fun r =>
            (vfsSeek fd (toInt ecx) (toInt edx) r.2).bind fun r =>
              some (({ eax := r.1 } : SysFdResult), r.2) :=
        .bind hpointer fun _ => .bind (fileAction_seek (toInt ecx) (toInt edx)) fun a =>
          .pure (SysFdResult.mk a [] none)
      obtain ⟨g, hg⟩ := hseek
      refine ⟨g, fun fd s hs => ?_⟩
      rw [← hg fd s hs]
      simp [SysFdCall.runWith, sysLseek, fdIndex_natCast, hs.2, Option.bind_map]

/-- The whence and offset of a seek that sets the position. -/
def SeekMoves (offset whence : ℤ) : Prop :=
  whence = 0 ∧ 0 ≤ offset ∨ whence = 1 ∨ whence = 2

/-- The position that a seek sets, in a file of a size. -/
def seekPosition (file : FileDescriptor H F δ) (volumes : δ) (size : ℕ) (offset whence : ℤ) : ℕ :=
  if whence = 0 then offset.toNat
  else if whence = 1 then
    let asked := file.driver.fSeek.map fun fSeek => (fSeek file.descriptor minusOne volumes).1
    addOffset (asked.getD 0) offset
  else addOffset size offset

/-- The functions that a seek to a position calls are there: `f_Write` is for zeros behind the
end of the file. -/
def SeekServed (file : FileDescriptor H F δ) (newPos size : ℕ) : Prop :=
  file.driver.isNull .fSeek = false ∧
    (size < newPos → (file.driver.fWrite file.descriptor).isSome)

/-- The driver of a file has the operations that a call makes, the file has the functions that
these call, and `f_Stat` returns. -/
def Answers (file : FileDescriptor H F δ) (volumes : δ) : SysFdCall → Prop
  | .read .. => (file.driver.fRead file.descriptor).isSome
  | .write .. => (file.driver.fWrite file.descriptor).isSome
  | .close _ => file.driver.isNull .fClose = false
  | .fstat _ =>
      file.driver.isNull .fStat = false ∧
        (file.driver.fStat (.inr file.descriptor) volumes).isSome
  | .lseek _ ecx edx =>
      file.driver.isNull .fStat = false ∧
        ∃ stat, file.driver.fStat (.inr file.descriptor) volumes = some stat ∧
          (SeekMoves (toInt ecx) (toInt edx) →
            SeekServed file (seekPosition file volumes stat.size (toInt ecx) (toInt edx)) stat.size)

variable {s : FileTable H F δ} {fd : ℕ}

/-! ### Calls that return -/

theorem expandFile_run (hs : descriptorAt s fd = some file) {newPos size : ℕ}
    (hwrite : size < newPos → (file.driver.fWrite file.descriptor).isSome) :
    ∃ d, expandFile fd newPos size s = some (putVolumes s d) := by
  unfold expandFile
  split
  next hlt =>
    obtain ⟨fWrite, hfWrite⟩ := Option.isSome_iff_exists.mp (hwrite hlt)
    obtain ⟨d, hfill, -⟩ := zeroFill_run hs hfWrite size newPos (P := fun _ _ => True)
      (fun _ _ _ _ _ => trivial) trivial hlt.le
    exact ⟨d, hfill⟩
  next => exact ⟨s.vfs.volumes, rfl⟩

/-- INTERNAL: without an `f_Write` no zero is written. -/
theorem zeroFillLoop_null (hs : descriptorAt s fd = some file)
    (hnull : file.driver.fWrite file.descriptor = none) (chunk newPos fuel size : ℕ) :
    zeroFillLoop fd chunk newPos fuel size s = none ∨
      zeroFillLoop fd chunk newPos fuel size s = some (size, s) := by
  cases fuel with
  | zero => exact .inl rfl
  | succ fuel =>
      rw [zeroFillLoop]
      split
      next => exact .inl (by rw [vfsWrite_null hs hnull, Option.bind_none])
      next => exact .inr rfl

theorem expandFile_null (hs : descriptorAt s fd = some file)
    (hnull : file.driver.fWrite file.descriptor = none) {newPos size : ℕ} (hlt : size < newPos) :
    expandFile fd newPos size s = none := by
  rw [expandFile, if_pos hlt, zeroFill]
  rcases zeroFillLoop_null hs hnull 0xFF newPos (newPos + 1) size with hlong | hlong
  · rw [hlong]
    rfl
  · rw [hlong]
    simp only [Option.bind_eq_bind, Option.bind_some]
    rcases zeroFillLoop_null hs hnull 0xF newPos (newPos + 1) size with hshort | hshort
    · rw [hshort, Option.bind_none]
    · rw [hshort, Option.bind_some, vfsWrite_null hs hnull, Option.bind_none]

theorem seekTo_isSome (hs : descriptorAt s fd = some file) (newPos size : ℕ) :
    (seekTo fd newPos size s).isSome ↔ SeekServed file newPos size := by
  unfold SeekServed
  by_cases hwrite : size < newPos → (file.driver.fWrite file.descriptor).isSome
  · obtain ⟨d, hexpand⟩ := expandFile_run hs hwrite
    cases hseek : file.driver.fSeek with
    | none => simp [seekTo, hexpand, driverSeek, hs, hseek, VfsOperations.isNull]
    | some fSeek =>
        have hmove : ∀ d position, driverSeek fd position (putVolumes s d) =
            some ((fSeek file.descriptor position d).1,
              putVolumes s (fSeek file.descriptor position d).2) :=
          fun d position => driverSeek_eq (s := putVolumes s d) hs hseek
        simpa [seekTo, hexpand, hmove, hseek, VfsOperations.isNull] using hwrite
  · push Not at hwrite
    obtain ⟨hlt, hnull⟩ := hwrite
    replace hnull := Option.not_isSome_iff_eq_none.mp hnull
    simp [seekTo, expandFile_null hs hnull hlt, hlt, hnull]

theorem vfsSeek_isSome (hs : SlotReaches s fd file) (offset whence : ℤ) :
    (vfsSeek fd offset whence s).isSome ↔
      ∃ stat, file.driver.fStat (.inr file.descriptor) s.vfs.volumes = some stat ∧
        (SeekMoves offset whence →
          SeekServed file (seekPosition file s.vfs.volumes stat.size offset whence) stat.size) := by
  rw [vfsSeek, if_neg hs.2, vfsFstat_eq hs.1]
  cases hstat : file.driver.fStat (.inr file.descriptor) s.vfs.volumes with
  | none => simp
  | some stat =>
      simp only [Option.bind_eq_bind, Option.bind_some, Option.some.injEq, exists_eq_left']
      by_cases h0 : whence = 0
      · by_cases hneg : offset < 0
        · simp [h0, hneg, SeekMoves]
        · simp [h0, hneg, SeekMoves, seekTo_isSome hs.1, not_lt.mp hneg, seekPosition]
      by_cases h1 : whence = 1
      · cases hseek : file.driver.fSeek with
        | none => simp [h1, SeekMoves, driverSeek, hs.1, hseek, SeekServed, VfsOperations.isNull]
        | some fSeek =>
            rw [driverSeek_eq hs.1 hseek]
            have hto := seekTo_isSome (s := putVolumes s
              (fSeek file.descriptor minusOne s.vfs.volumes).2) hs.1
            simp [h1, SeekMoves, hto, seekPosition, hseek]
      by_cases h2 : whence = 2
      · simp [h2, SeekMoves, seekTo_isSome hs.1, seekPosition]
      · simp [h0, h1, h2, SeekMoves]

theorem isSome_bind_some (o : Option α) (f : α → β) :
    (o.bind fun a => some (f a)).isSome = o.isSome := by
  cases o with
  | none => rfl
  | some a => rfl

/-- INTERNAL: a call on an open file returns if the driver has what it needs, and not
otherwise. -/
theorem runWith_isSome (hs : SlotReaches s fd file) (c : SysFdCall) :
    (c.runWith (fd : ℤ) s).isSome ↔ Answers file s.vfs.volumes c := by
  obtain ⟨p, hp, hlive⟩ := Option.bind_eq_some_iff.mp hs.1
  cases c with
  | read ebx len =>
      cases hread : file.driver.fRead file.descriptor <;>
        simp [SysFdCall.runWith, sysRead, fdIndex_natCast, Answers, vfsRead, hs.1, hread]
  | write ebx data =>
      cases hwrite : file.driver.fWrite file.descriptor <;>
        simp [SysFdCall.runWith, sysWrite, fdIndex_natCast, Answers, vfsWrite, hs.1, hwrite]
  | close ebx =>
      cases hnull : file.driver.isNull .fClose <;>
        simp [SysFdCall.runWith, sysClose, fdIndex_natCast, Answers, vfsClose, fdPointer_eq hs.1,
          hp, hlive, hnull]
  | fstat ebx =>
      cases hnull : file.driver.isNull .fStat <;>
        simp [SysFdCall.runWith, sysFstat, fdIndex_natCast, Answers, vfsFstat_eq hs.1,
          fdPointer_eq hs.1, hnull, isSome_bind_some]
  | lseek ebx ecx edx =>
      have hseek := vfsSeek_isSome hs (toInt ecx) (toInt edx)
      cases hnull : file.driver.isNull .fStat <;>
        simp [SysFdCall.runWith, sysLseek, fdIndex_natCast, Answers, hs.2, fdPointer_eq hs.1, hnull,
          isSome_bind_some, hseek]


/-! ## What a call does with a descriptor -/

/-- A table with nothing but one file, at descriptor `0`. -/
def onlyFile (file : FileDescriptor H F δ) (v : Vfs H F δ) : FileTable H F δ where
  vfs := v
  descriptorList := [1]
  heap := fun p => if p = 1 then some file else none

theorem onlyFile_reaches (file : FileDescriptor H F δ) (v : Vfs H F δ) :
    SlotReaches (onlyFile file v) 0 file := ⟨rfl, by simp [onlyFile]⟩

/-- `fd` is negative, beyond the table or an empty slot. -/
def NamesNoFile (s : FileTable H F δ) (fd : ℤ) : Prop :=
  fd < 0 ∨ (s.descriptorList.length : ℤ) ≤ fd ∨ s.descriptorList[fd.toNat]? = some 0

/-- A call returns an error and changes nothing, whatever there is besides the list: it reaches
no file and no driver, and no memory outside the list. -/
def ReturnsError (s : FileTable H F δ) (c : SysFdCall) : Prop :=
  ∃ r : SysFdResult, r.eax = minusOne ∧
    ∀ t : FileTable H F δ, t.descriptorList = s.descriptorList → sysFdRun t c = some (r, t)

/-- The slot leads to the file, and a call has the result and the effect on the volumes that it
has with no other file open.  The list and the other files are as they were. -/
def ActsOn (s : FileTable H F δ) (c : SysFdCall) (file : FileDescriptor H F δ) : Prop :=
  ∃ (fd p : ℕ) (r : SysFdResult) (t t' : FileTable H F δ), c.fd = fd ∧
    s.descriptorList[fd]? = some p ∧ s.heap p = some file ∧ sysFdRun s c = some (r, t) ∧
    c.runWith 0 (onlyFile file s.vfs) = some (r, t') ∧ t.vfs = t'.vfs ∧
    t.descriptorList = s.descriptorList ∧ t.heap = Function.update s.heap p (t'.heap 1)

theorem sysClose_eq {p : ℕ} (hp : s.descriptorList[fd]? = some p) (hlive : s.heap p = some file)
    (hnull : file.driver.isNull .fClose = false) :
    sysClose (fd : ℤ) s = some (⟨0, [], none⟩,
      { putVolumes s (file.driver.fClose file.descriptor s.vfs.volumes) with
        heap := Function.update s.heap p none }) := by
  have hs : descriptorAt s fd = some file := by simp [descriptorAt, hp, hlive]
  simp [sysClose, fdIndex_natCast, fdPointer_eq hs, hnull, vfsClose, hp, hlive, putVolumes]

/-- INTERNAL: a call acts on the file of its slot if the driver has what the call needs, and does
not return otherwise. -/
theorem actsOn_iff {c : SysFdCall} (hfd : c.fd = (fd : ℤ)) (hs : SlotReaches s fd file) :
    ActsOn s c file ↔ Answers file s.vfs.volumes c := by
  have hsome := runWith_isSome hs c
  rw [← hfd] at hsome
  constructor
  · rintro ⟨-, -, r, t, -, -, -, -, hrun, -⟩
    exact hsome.mp (Option.isSome_iff_exists.mpr ⟨_, hrun⟩)
  · intro hanswers
    obtain ⟨p, hp, hlive⟩ := Option.bind_eq_some_iff.mp hs.1
    cases hcloses : c.closes with
    | true =>
        cases c with
        | close ebx =>
            have hhere := sysClose_eq hp hlive hanswers
            have hlist : (onlyFile file s.vfs).descriptorList[0]? = some 1 := rfl
            have honly := sysClose_eq hlist rfl hanswers
            rw [← hfd] at hhere
            exact ⟨fd, p, _, _, _, hfd, hp, hlive, hhere, honly, rfl, rfl, by simp⟩
        | _ => cases hcloses
    | false =>
        have haction : FileAction file fun fd s => c.runWith (fd : ℤ) s :=
          fileAction_runWith hcloses
        obtain ⟨g, hg⟩ := haction
        obtain ⟨⟨r, t⟩, hrun⟩ := Option.isSome_iff_exists.mp (hsome.mpr hanswers)
        have hhere := hg fd s hs
        have honly := hg 0 (onlyFile file s.vfs) (onlyFile_reaches file s.vfs)
        dsimp only at hhere honly
        rw [← hfd, hrun] at hhere
        obtain ⟨⟨r', d⟩, hvol, heq⟩ := Option.map_eq_some_iff.mp hhere.symm
        cases heq
        refine ⟨fd, p, _, _, putVolumes (onlyFile file s.vfs) d, hfd, hp, hlive, hrun, ?_, rfl,
          rfl, ?_⟩
        · rw [show (onlyFile file s.vfs).vfs.volumes = s.vfs.volumes from rfl, hvol] at honly
          exact honly
        · exact (Function.update_eq_self_iff.mpr hlive.symm).symm

/-! ## Reachable tables -/

/-- What can happen to a table: a file is opened, or a descriptor made for one; a slot is
emptied; or a user makes a system call, with any value in `ebx`. -/
inductive TableCall (H F δ : Type) where
  | openFile (res : ℕ) (path : CString) (mode : ℕ)
  | addFile (res : ℕ) (file : FileDescriptor H F δ)
  | remDescriptor (fd : ℕ)
  | sys (c : SysFdCall)

/-- One step.  A call that faults leaves the state. -/
def tableStep : TableCall H F δ → FdState H F δ → FdState H F δ
  | .openFile res path mode, s => fdStep (.openFile res path mode) s
  | .addFile res file, s => fdStep (.addFile res file) s
  | .remDescriptor fd, s =>
      match vfsRemDescriptor fd s.table with
      | none => s
      | some t => { s with table := t, opened := Function.update s.opened fd none }
  | .sys c, s =>
      match sysFdRun s.table c with
      | none => s
      | some (_, t) =>
          { s with
            table := t
            opened := if c.closes then Function.update s.opened c.fd.toNat none else s.opened }

/-- `kmalloc` returns a pointer to no live object. -/
def TableCall.Valid : TableCall H F δ → FdState H F δ → Prop
  | .openFile res _ _, s | .addFile res _, s => res ≠ 0 ∧ s.table.heap res = none
  | .remDescriptor _, _ | .sys _, _ => True

/-- No object lies at `NULL`. -/
def NullFree (s : FdState H F δ) : Prop := s.table.heap 0 = none

/-! ## Calls that fault -/

theorem runWith_of_neg {z : ℤ} (hz : z < 0) (c : SysFdCall) : c.runWith z s = none := by
  have hindex : fdIndex z = none := by simp [fdIndex, hz]
  cases c <;> simp [SysFdCall.runWith, sysRead, sysWrite, sysClose, sysFstat, sysLseek, hindex]

/-- INTERNAL: without an object at the slot nothing is returned, except by `VFS_seek` for an
empty one. -/
theorem runWith_of_none (hs : descriptorAt s fd = none) {c : SysFdCall}
    (hseek : s.descriptorList[fd]? = some 0 → ∀ ebx ecx edx, c ≠ .lseek ebx ecx edx) :
    c.runWith (fd : ℤ) s = none := by
  cases c with
  | read ebx len => simp [SysFdCall.runWith, sysRead, fdIndex_natCast, vfsRead, hs]
  | write ebx data => simp [SysFdCall.runWith, sysWrite, fdIndex_natCast, vfsWrite, hs]
  | close ebx => simp [SysFdCall.runWith, sysClose, fdIndex_natCast, fdPointer, hs]
  | fstat ebx => simp [SysFdCall.runWith, sysFstat, fdIndex_natCast, fdPointer, hs]
  | lseek ebx ecx edx =>
      have hslot : s.descriptorList[fd]? ≠ some 0 := fun h => hseek h ebx ecx edx rfl
      simp [SysFdCall.runWith, sysLseek, fdIndex_natCast, fdPointer, hs, hslot]

/-- INTERNAL: `VFS_seek` returns `-1` for an empty slot. -/
theorem runWith_of_empty (hslot : s.descriptorList[fd]? = some 0) (ebx ecx edx : ℕ) :
    (SysFdCall.lseek ebx ecx edx).runWith (fd : ℤ) s = some (⟨minusOne, [], none⟩, s) := by
  simp [SysFdCall.runWith, sysLseek, fdIndex_natCast, hslot, vfsSeek]

/-- INTERNAL: a call that returns is `lseek` on an empty slot, or was made on a file. -/
theorem sysFdRun_cases (hzero : s.heap 0 = none) {c : SysFdCall} {r : SysFdResult}
    {t : FileTable H F δ} (hrun : sysFdRun s c = some (r, t)) :
    t = s ∨ ∃ (fd : ℕ) (file : FileDescriptor H F δ), c.fd = fd ∧ SlotReaches s fd file := by
  obtain ⟨fd, hfd⟩ | ⟨n, hneg⟩ : (∃ n : ℕ, c.fd = n) ∨ ∃ n : ℕ, c.fd = Int.negSucc n := by
    cases c.fd with
    | ofNat n => exact .inl ⟨n, rfl⟩
    | negSucc n => exact .inr ⟨n, rfl⟩
  · have hrun' : c.runWith (fd : ℤ) s = some (r, t) := hfd ▸ hrun
    cases hs : descriptorAt s fd with
    | some file =>
        refine .inr ⟨fd, file, hfd, hs, fun hslot => ?_⟩
        rw [descriptorAt, hslot, Option.bind_some, hzero] at hs
        cases hs
    | none =>
        by_cases hseek : s.descriptorList[fd]? = some 0 → ∀ ebx ecx edx, c ≠ .lseek ebx ecx edx
        · rw [runWith_of_none hs hseek] at hrun'
          cases hrun'
        · push Not at hseek
          obtain ⟨hslot, ebx, ecx, edx, rfl⟩ := hseek
          rw [runWith_of_empty hslot] at hrun'
          cases hrun'
          exact .inl rfl
  · have hnone := runWith_of_neg (s := s) (Int.negSucc_lt_zero n) c
    rw [← hneg] at hnone
    cases hnone.symm.trans hrun

/-- INTERNAL: a system call puts no object at `NULL`. -/
theorem sysFdRun_heap_zero {c : SysFdCall} {r : SysFdResult} {t : FileTable H F δ}
    (hzero : s.heap 0 = none) (hrun : sysFdRun s c = some (r, t)) : t.heap 0 = none := by
  obtain rfl | ⟨fd, file, hfd, hs⟩ := sysFdRun_cases hzero hrun
  · exact hzero
  · have hanswers := (runWith_isSome hs c).mp
      (Option.isSome_iff_exists.mpr ⟨(r, t), hfd ▸ hrun⟩)
    obtain ⟨fd', p, r', t₁, t', -, -, hlive, hrun', -, -, -, hheap⟩ :=
      (actsOn_iff hfd hs).mpr hanswers
    obtain rfl : t₁ = t := (Prod.mk.inj (Option.some.inj (hrun'.symm.trans hrun))).2
    have hp : 0 ≠ p := by
      rintro rfl
      rw [hzero] at hlive
      cases hlive
    rw [hheap, Function.update_of_ne hp, hzero]

theorem nullFree_fdStep {c : FdCall H F δ} {s : FdState H F δ} (h : NullFree s)
    (hfresh : ∀ res, c.OpensAt res → res ≠ 0 ∧ s.table.heap res = none) :
    NullFree (fdStep c s) := by
  cases hrun : c.run s.table with
  | none =>
      rw [fdStep_of_none hrun]
      exact h
  | some r =>
      unfold NullFree
      obtain ⟨res, file, v, hopens, hr, hstep⟩ | ⟨fd, p, -, -, -, -, hheap, hstep⟩ |
        ⟨-, -, -, hheap, hstep⟩ := fdStep_cases hrun
      · obtain ⟨hpos, hres⟩ := hfresh res hopens
        obtain ⟨hheap, -⟩ := newDescriptor_spec (s := { s.table with vfs := v }) hres file
        rw [hstep, hr]
        dsimp only
        rw [hheap, Function.update_of_ne hpos.symm]
        exact h
      · rw [hstep]
        dsimp only
        rw [hheap, Function.update_apply]
        split
        next => rfl
        next => exact h
      · rw [hstep]
        dsimp only
        rw [hheap]
        exact h

/-- INTERNAL: every step keeps `NULL` free of objects. -/
theorem nullFree_step {c : TableCall H F δ} {s : FdState H F δ} (h : NullFree s)
    (hvalid : c.Valid s) : NullFree (tableStep c s) := by
  cases c with
  | openFile res path mode =>
      refine nullFree_fdStep h fun res' hres => ?_
      obtain rfl : res = res' := hres
      exact hvalid
  | addFile res file =>
      refine nullFree_fdStep h fun res' hres => ?_
      obtain rfl : res = res' := hres
      exact hvalid
  | remDescriptor fd =>
      unfold tableStep vfsRemDescriptor
      by_cases hfd : fd < s.table.descriptorList.length
      · simp only [hfd, if_true]
        exact h
      · simp only [hfd, if_false]
        exact h
  | sys c =>
      cases hrun : sysFdRun s.table c with
      | none =>
          simp only [tableStep, hrun]
          exact h
      | some r =>
          simp only [tableStep, hrun]
          exact sysFdRun_heap_zero h hrun

/-! ## Safe calls -/

/-- Where `fd` names no file, the call returns an error and changes nothing; where it is open, the
call acts on the file that it was opened on. -/
structure FdCallSafe (c : SysFdCall) (s : FdState H F δ) : Prop where
  refuses : NamesNoFile s.table c.fd → ReturnsError s.table c
  acts : ∀ (fd : ℕ) (file : FileDescriptor H F δ), c.fd = fd → s.opened fd = some file →
    ActsOn s.table c file

/-- `fd` lies in the table, and its slot is empty for `lseek` only.  If it is open, its slot leads
to the file, whose driver has what the call needs. -/
def FdServed (c : SysFdCall) (s : FdState H F δ) : Prop :=
  ∃ fd : ℕ, c.fd = fd ∧ fd < s.table.descriptorList.length ∧
    (s.table.descriptorList[fd]? = some 0 → ∃ ebx ecx edx, c = .lseek ebx ecx edx) ∧
    ∀ file, s.opened fd = some file →
      descriptorAt s.table fd = some file ∧ Answers file s.table.vfs.volumes c

theorem reaches_of_null {s : FileTable H F δ} (hzero : s.heap 0 = none)
    (hs : descriptorAt s fd = some file) : SlotReaches s fd file := by
  refine ⟨hs, fun hslot => ?_⟩
  rw [descriptorAt, hslot, Option.bind_some, hzero] at hs
  cases hs

/-- INTERNAL: memory in front of the list or behind it is read. -/
theorem sysFdRun_outside {c : SysFdCall}
    (hout : c.fd < 0 ∨ (s.descriptorList.length : ℤ) ≤ c.fd) : sysFdRun s c = none := by
  rcases hout with hneg | hge
  · exact runWith_of_neg hneg c
  · obtain ⟨fd, hfd⟩ := Int.eq_ofNat_of_zero_le (show 0 ≤ c.fd by omega)
    have hslot : s.descriptorList[fd]? = none := List.getElem?_eq_none (by omega)
    have hfault : c.runWith (fd : ℤ) s = none := by
      apply runWith_of_none
      · simp [descriptorAt, hslot]
      · simp [hslot]
    rwa [← hfd] at hfault

/-- INTERNAL: an empty slot is followed, but for `VFS_seek`. -/
theorem sysFdRun_empty {c : SysFdCall} (hzero : s.heap 0 = none) (hfd : c.fd = fd)
    (hslot : s.descriptorList[fd]? = some 0) (hseek : ∀ ebx ecx edx, c ≠ .lseek ebx ecx edx) :
    sysFdRun s c = none := by
  have hfault : c.runWith (fd : ℤ) s = none := by
    apply runWith_of_none
    · simp [descriptorAt, hslot, hzero]
    · exact fun _ => hseek
  rwa [← hfd] at hfault

theorem FdCallSafe.served {c : SysFdCall} {s : FdState H F δ} (hzero : NullFree s)
    (hsafe : FdCallSafe c s) : FdServed c s := by
  have herror : NamesNoFile s.table c.fd → sysFdRun s.table c ≠ none := by
    intro hno hnone
    obtain ⟨r, -, hrun⟩ := hsafe.refuses hno
    cases hnone.symm.trans (hrun s.table rfl)
  have hinside : 0 ≤ c.fd ∧ c.fd < s.table.descriptorList.length := by
    by_contra hout
    have hout' : c.fd < 0 ∨ (s.table.descriptorList.length : ℤ) ≤ c.fd := by omega
    exact herror (hout'.imp_right .inl) (sysFdRun_outside hout')
  obtain ⟨fd, hfd⟩ := Int.eq_ofNat_of_zero_le hinside.1
  refine ⟨fd, hfd, by omega, fun hslot => ?_, fun file hopen => ?_⟩
  · by_contra hseek
    push Not at hseek
    have hno : NamesNoFile s.table c.fd := .inr (.inr (by rw [hfd]; exact hslot))
    exact herror hno (sysFdRun_empty hzero hfd hslot hseek)
  · obtain ⟨fd', p, -, -, -, hfd', hp, hlive, -⟩ := hsafe.acts fd file hfd hopen
    obtain rfl : fd' = fd := by omega
    have hs : descriptorAt s.table fd' = some file := by
      simp [descriptorAt, hp, hlive]
    exact ⟨hs, (actsOn_iff hfd (reaches_of_null hzero hs)).mp (hsafe.acts fd' file hfd hopen)⟩

theorem FdServed.safe {c : SysFdCall} {s : FdState H F δ} (hzero : NullFree s)
    (hserved : FdServed c s) : FdCallSafe c s := by
  obtain ⟨fd, hfd, hlt, hempty, hopen⟩ := hserved
  refine ⟨fun hno => ?_, fun fd' file hfd' hfile => ?_⟩
  · have hslot : s.table.descriptorList[fd]? = some 0 := by
      rcases hno with hneg | hge | hslot
      · omega
      · omega
      · rwa [hfd] at hslot
    obtain ⟨ebx, ecx, edx, rfl⟩ := hempty hslot
    refine ⟨⟨minusOne, [], none⟩, rfl, fun t ht => ?_⟩
    rw [← ht] at hslot
    rw [sysFdRun, hfd]
    exact runWith_of_empty hslot ebx ecx edx
  · obtain rfl : fd' = fd := by omega
    obtain ⟨hs, hanswers⟩ := hopen file hfile
    exact (actsOn_iff hfd (reaches_of_null hzero hs)).mpr hanswers

theorem fdCallSafe_iff {s : FdState H F δ} (hzero : NullFree s) (c : SysFdCall) :
    FdCallSafe c s ↔ FdServed c s :=
  ⟨FdCallSafe.served hzero, FdServed.safe hzero⟩

end

/-- **Arbitrary descriptors.**  In every table that is reached, by whatever system calls, a call
with a descriptor is safe if the descriptor lies in the table, is not an empty slot, except for
`lseek`, and if it is open still leads to its file, whose driver has what the call needs.  It is
not safe otherwise.
SRCLINE: vfs.c:276-294, vfs.c:323-337, sys.c:7-73 -/
theorem sysFdRun_safe_iff {H F δ : Type} (v : Vfs H F δ) (calls : List (TableCall H F δ))
    (hvalid : EachCall tableStep TableCall.Valid calls (noDescriptors v)) (c : SysFdCall) :
    FdCallSafe c (after tableStep calls (noDescriptors v)) ↔
      FdServed c (after tableStep calls (noDescriptors v)) := by
  have hzero : Throughout tableStep NullFree calls (noDescriptors v) :=
    throughout_of_invariant (fun _ _ h hc => nullFree_step h hc) rfl hvalid
  exact fdCallSafe_iff hzero.last c

/-- The table after a run, where every name is that of a file. -/
abbrev namesAfter (calls : List (TableCall CString CString Unit)) : FdState CString CString Unit :=
  after tableStep calls (noDescriptors namesRoot)

/-- A file is opened and read. -/
theorem sysFdRun_safe_opened :
    FdCallSafe (.read 0 4) (namesAfter [.openFile 0x10 [slash, 0x41] 1]) := by
  refine (sysFdRun_safe_iff namesRoot [.openFile 0x10 [slash, 0x41] 1]
    ⟨⟨by decide, rfl⟩, trivial⟩ (.read 0 4)).mpr ⟨0, rfl, by decide, fun h => ?_, fun file h => ?_⟩
  · cases h
  · cases h
    exact ⟨rfl, rfl⟩

/-- With one file open, the descriptors `-1` and `1` lie outside the list.  With its slot empty, all
calls but `lseek` follow a null pointer.  A descriptor that is closed twice takes with it the
file that was opened in between. -/
theorem sysFdRun_faults :
    (∀ c ∈ [SysFdCall.read 0xFFFFFFFF 4, .write 1 [0x58], .close 1, .fstat 1,
        .lseek 0xFFFFFFFF 0 0],
      sysFdRun (namesAfter [.openFile 0x10 [slash, 0x41] 1]).table c = none) ∧
    ¬ (∀ c, FdCallSafe c (namesAfter [.openFile 0x10 [slash, 0x41] 1])) ∧
    (∀ c ∈ [SysFdCall.read 0 4, .write 0 [0x58], .close 0, .fstat 0],
      sysFdRun (namesAfter [.openFile 0x10 [slash, 0x41] 1, .remDescriptor 0]).table c = none) ∧
    (namesAfter [.openFile 0x10 [slash, 0x41] 1, .sys (.close 0), .openFile 0x10 [slash, 0x42] 1,
      .sys (.close 0)]).opened 1 = some ⟨[0x42], namesOnly⟩ ∧
    sysFdRun (namesAfter [.openFile 0x10 [slash, 0x41] 1, .sys (.close 0),
      .openFile 0x10 [slash, 0x42] 1, .sys (.close 0)]).table (.read 1 4) = none := by
  refine ⟨?_, fun hall => ?_, ?_, rfl, rfl⟩
  · simp only [List.mem_cons, List.not_mem_nil, or_false]
    rintro c (rfl | rfl | rfl | rfl | rfl)
    · rfl
    · rfl
    · rfl
    · rfl
    · rfl
  · have hzero : NullFree (namesAfter [.openFile 0x10 [slash, 0x41] 1]) := rfl
    obtain ⟨fd, hfd, -⟩ := (fdCallSafe_iff hzero (.read 0xFFFFFFFF 4)).mp (hall _)
    have hneg : (SysFdCall.read 0xFFFFFFFF 4).fd = -1 := rfl
    omega
  · simp only [List.mem_cons, List.not_mem_nil, or_false]
    rintro c (rfl | rfl | rfl | rfl)
    · rfl
    · rfl
    · rfl
    · rfl

end LakeOS.Analysis
