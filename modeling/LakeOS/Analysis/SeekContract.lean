import LakeOS.Library.ByteVector
import LakeOS.Model.Vfm

/-!
# Seeking

`VFS_seek` asks the driver for the position with `-1`, adds offsets as unsigned numbers
and fills a file up with zeros that it writes at the current position.  For a driver that
keeps a byte vector as `f_Seek` promises, the position is always the one computed; the
bytes are right when the target is not behind the end or the position is there already.
`VFM_seek` does not answer the query: it moves to `-1`.
-/

set_option autoImplicit false

namespace LakeOS.Analysis

open LakeOS.Library LakeOS.Model

/-! ## What a seek is for -/

/-- The target of a seek, `none` if `whence` is invalid. -/
def seekGoal (v : ByteVector Byte) (offset whence : ℤ) : Option ℤ :=
  if whence = 0 then some offset
  else if whence = 1 then some (v.pos + offset)
  else if whence = 2 then some (v.size + offset)
  else none

@[simp] theorem seekGoal_set (v : ByteVector Byte) (offset : ℤ) :
    seekGoal v offset 0 = some offset := rfl

@[simp] theorem seekGoal_cur (v : ByteVector Byte) (offset : ℤ) :
    seekGoal v offset 1 = some (v.pos + offset) := rfl

@[simp] theorem seekGoal_end (v : ByteVector Byte) (offset : ℤ) :
    seekGoal v offset 2 = some (v.size + offset) := rfl

theorem seekGoal_invalid (v : ByteVector Byte) (offset : ℤ) {whence : ℤ} (h0 : whence ≠ 0)
    (h1 : whence ≠ 1) (h2 : whence ≠ 2) : seekGoal v offset whence = none := by
  rw [seekGoal, if_neg h0, if_neg h1, if_neg h2]

/-- The number returned and the file afterwards, for a target or an invalid `whence`. -/
def SeekResult (v : ByteVector Byte) (goal : Option ℤ) (n : ℕ) (v' : ByteVector Byte) : Prop :=
  match goal with
  | none => n = minusOne ∧ v' = v
  | some target =>
      if target < 0 then n = minusOne ∧ v' = v
      else (n : ℤ) = target ∧ (v'.pos : ℤ) = target ∧
        v'.bytes = v.bytes ++ List.replicate (target.toNat - v.size) 0

section

variable {H F δ : Type}

/-- `VFS_seek` does what it is for, on a file that `vec` reads out of the volumes. -/
def SeekCorrect (vec : δ → ByteVector Byte) (fd : ℕ) (offset whence : ℤ)
    (s : FileTable H F δ) : Prop :=
  ∃ n s', vfsSeek fd offset whence s = some (n, s') ∧
    SeekResult (vec s.vfs.volumes) (seekGoal (vec s.vfs.volumes) offset whence) n
      (vec s'.vfs.volumes)

/-- A driver that keeps a byte vector in an open file: writing at a position in it is
writing to the vector, and `f_Seek` returns the position, after setting it or not. -/
structure KeepsVector (driver : VfsOperations H F δ) (f : F) (vec : δ → ByteVector Byte) : Prop where
  stat : ∀ d, ∃ stat, driver.fStat (.inr f) d = some stat ∧ stat.size = (vec d).size
  query : ∃ fSeek, driver.fSeek = some fSeek ∧
    (∀ d, (fSeek f minusOne d).1 = (vec d).pos ∧ vec (fSeek f minusOne d).2 = vec d) ∧
    ∀ d, ∀ position < minusOne, (fSeek f position d).1 = position ∧
      vec (fSeek f position d).2 = (vec d).seek position
  write : ∃ fWrite, driver.fWrite f = some fWrite ∧
    ∀ d data, (vec d).pos ≤ (vec d).size → (vec d).pos + data.length < 2 ^ 32 →
      vec (fWrite data d).2 = (vec d).write data

/-! ## Calls of the driver -/

/-- The file table with other volumes. -/
def putVolumes (s : FileTable H F δ) (d : δ) : FileTable H F δ :=
  { s with vfs := { s.vfs with volumes := d } }

@[simp] theorem descriptorAt_putVolumes (s : FileTable H F δ) (d : δ) (fd : ℕ) :
    descriptorAt (putVolumes s d) fd = descriptorAt s fd := rfl

@[simp] theorem volumes_putVolumes (s : FileTable H F δ) (d : δ) :
    (putVolumes s d).vfs.volumes = d := rfl

@[simp] theorem putVolumes_putVolumes (s : FileTable H F δ) (d d' : δ) :
    putVolumes (putVolumes s d) d' = putVolumes s d' := rfl

variable {s : FileTable H F δ} {fd position newPos size : ℕ}
  {file : FileDescriptor H F δ} {vec : δ → ByteVector Byte} {fWrite : List Byte → δ → ℕ × δ}

theorem vfsWrite_eq (hfile : descriptorAt s fd = some file)
    (hwrite : file.driver.fWrite file.descriptor = some fWrite) (data : List Byte) :
    vfsWrite fd data s = some ((fWrite data s.vfs.volumes).1,
      putVolumes s (fWrite data s.vfs.volumes).2) := by
  rw [vfsWrite, hfile]
  simp only [Option.bind_eq_bind, Option.bind_some, hwrite]
  rfl

theorem driverSeek_eq (hfile : descriptorAt s fd = some file) {fSeek : F → ℕ → δ → ℕ × δ}
    (hseek : file.driver.fSeek = some fSeek) :
    driverSeek fd position s = some ((fSeek file.descriptor position s.vfs.volumes).1,
      putVolumes s (fSeek file.descriptor position s.vfs.volumes).2) := by
  rw [driverSeek, hfile]
  simp only [Option.bind_eq_bind, Option.bind_some, hseek]
  rfl

theorem vfsFstat_eq (hfile : descriptorAt s fd = some file) :
    vfsFstat fd s = file.driver.fStat (.inr file.descriptor) s.vfs.volumes := by
  rw [vfsFstat, hfile]
  rfl

/-- What `VFS_seek` does on an open descriptor, for each `whence`. -/
theorem vfsSeek_cases (offset whence : ℤ) {stat : FileStat} {asked : ℕ × FileTable H F δ}
    (hnull : s.descriptorList[fd]? ≠ some 0) (hstat : vfsFstat fd s = some stat)
    (hask : driverSeek fd minusOne s = some asked) :
    (whence = 0 ∧ offset < 0 ∧ vfsSeek fd offset whence s = some (minusOne, s)) ∨
    (whence = 0 ∧ 0 ≤ offset ∧
      vfsSeek fd offset whence s = seekTo fd offset.toNat stat.size s) ∨
    (whence = 1 ∧
      vfsSeek fd offset whence s = seekTo fd (addOffset asked.1 offset) stat.size asked.2) ∨
    (whence = 2 ∧
      vfsSeek fd offset whence s = seekTo fd (addOffset stat.size offset) stat.size s) ∨
    (whence ≠ 0 ∧ whence ≠ 1 ∧ whence ≠ 2 ∧
      vfsSeek fd offset whence s = some (minusOne, s)) := by
  rw [vfsSeek, if_neg hnull, hstat]
  simp only [Option.bind_eq_bind, Option.bind_some]
  by_cases h0 : whence = 0
  · by_cases hneg : offset < 0
    · exact .inl ⟨h0, hneg, by rw [if_pos h0, if_pos hneg]⟩
    · exact .inr (.inl ⟨h0, not_lt.mp hneg, by rw [if_pos h0, if_neg hneg]⟩)
  by_cases h1 : whence = 1
  · exact .inr (.inr (.inl ⟨h1, by rw [if_neg h0, if_pos h1, hask, Option.bind_some]⟩))
  by_cases h2 : whence = 2
  · exact .inr (.inr (.inr (.inl ⟨h2, by rw [if_neg h0, if_neg h1, if_pos h2]⟩)))
  · exact .inr (.inr (.inr (.inr ⟨h0, h1, h2, by rw [if_neg h0, if_neg h1, if_neg h2]⟩)))

/-! ## The zeros -/

/-- A loop of writes ends, and `P` of the volumes and the number of zeros written so far
is kept by each of them. -/
theorem zeroFillLoop_run (hfile : descriptorAt s fd = some file)
    (hwrite : file.driver.fWrite file.descriptor = some fWrite) (chunk fuel : ℕ)
    {P : δ → ℕ → Prop} (hchunk : 0 < chunk)
    (hstep : ∀ d size n, size + n ≤ newPos → P d size →
      P (fWrite (List.replicate n 0) d).2 (size + n))
    (hfuel : newPos - size < fuel) (hP : P s.vfs.volumes size) (hle : size ≤ newPos) :
    ∃ size' d, zeroFillLoop fd chunk newPos fuel size s = some (size', putVolumes s d) ∧
      P d size' ∧ size' ≤ newPos := by
  induction fuel generalizing size s with
  | zero => omega
  | succ fuel ih =>
      rw [zeroFillLoop]
      split
      next hmore =>
        rw [vfsWrite_eq hfile hwrite, Option.bind_some]
        exact ih (s := putVolumes s _) hfile (by omega)
          (hstep _ _ _ (by omega) hP) (by omega)
      next => exact ⟨size, s.vfs.volumes, rfl, hP, hle⟩

theorem zeroFill_run (hfile : descriptorAt s fd = some file)
    (hwrite : file.driver.fWrite file.descriptor = some fWrite) (size newPos : ℕ)
    {P : δ → ℕ → Prop}
    (hstep : ∀ d size n, size + n ≤ newPos → P d size →
      P (fWrite (List.replicate n 0) d).2 (size + n))
    (hP : P s.vfs.volumes size) (hle : size ≤ newPos) :
    ∃ d, zeroFill fd newPos size s = some (putVolumes s d) ∧ P d newPos := by
  obtain ⟨size₁, d₁, hlong, hP₁, hle₁⟩ :=
    zeroFillLoop_run hfile hwrite 0xFF (newPos + 1) (by decide) hstep (by omega) hP hle
  obtain ⟨size₂, d₂, hshort, hP₂, hle₂⟩ :=
    zeroFillLoop_run (s := putVolumes s d₁) hfile hwrite 0xF (newPos + 1) (by decide) hstep
      (by omega) hP₁ hle₁
  have hlast := hstep d₂ size₂ (newPos - size₂) (by omega) hP₂
  rw [Nat.add_sub_cancel' hle₂] at hlast
  refine ⟨_, ?_, hlast⟩
  rw [zeroFill, hlong]
  simp only [Option.bind_eq_bind, Option.bind_some]
  rw [hshort]
  simp only [Option.bind_some]
  rw [vfsWrite_eq (s := putVolumes (putVolumes s d₁) d₂) hfile hwrite]
  rfl

/-! ## A driver that keeps a vector -/

/-- The vector after `f_Seek` to a position, which `-1` does not set. -/
def moveTo (v : ByteVector Byte) (newPos : ℕ) : ByteVector Byte :=
  if newPos = minusOne then v else v.seek newPos

/-- The vector after the zeros. -/
def fillTo (v : ByteVector Byte) (newPos : ℕ) : ByteVector Byte :=
  v.write (List.replicate (newPos - v.size) 0)

theorem fillTo_of_le {v : ByteVector Byte} (h : newPos ≤ v.size) : fillTo v newPos = v := by
  rw [fillTo, Nat.sub_eq_zero_of_le h, List.replicate_zero, ByteVector.write_nil]

theorem KeepsVector.driverSeek_query (hkeeps : KeepsVector file.driver file.descriptor vec)
    (hfile : descriptorAt s fd = some file) :
    ∃ d, driverSeek fd minusOne s = some ((vec s.vfs.volumes).pos, putVolumes s d) ∧
      vec d = vec s.vfs.volumes := by
  obtain ⟨fSeek, hseek, hquery, -⟩ := hkeeps.query
  refine ⟨_, ?_, (hquery s.vfs.volumes).2⟩
  rw [driverSeek_eq hfile hseek, (hquery s.vfs.volumes).1]

theorem KeepsVector.driverSeek_move (hkeeps : KeepsVector file.driver file.descriptor vec)
    (hfile : descriptorAt s fd = some file) (hposition : position < 2 ^ 32) :
    ∃ n d, driverSeek fd position s = some (n, putVolumes s d) ∧
      vec d = moveTo (vec s.vfs.volumes) position := by
  obtain ⟨fSeek, hseek, hquery, hmove⟩ := hkeeps.query
  refine ⟨_, _, driverSeek_eq hfile hseek, ?_⟩
  unfold moveTo
  split
  next h => rw [h]; exact (hquery _).2
  next h => exact (hmove _ position (by unfold minusOne at *; omega)).2

/-- The zeros are one write at the current position. -/
theorem KeepsVector.zeroFill (hkeeps : KeepsVector file.driver file.descriptor vec)
    (hfile : descriptorAt s fd = some file)
    (hpos : (vec s.vfs.volumes).pos ≤ (vec s.vfs.volumes).size)
    (hle : (vec s.vfs.volumes).size ≤ newPos) (hlt : newPos < 2 ^ 32) :
    ∃ d, zeroFill fd newPos (vec s.vfs.volumes).size s = some (putVolumes s d) ∧
      vec d = fillTo (vec s.vfs.volumes) newPos := by
  generalize hv : vec s.vfs.volumes = v at hpos hle ⊢
  obtain ⟨fWrite, hwrite, hvec⟩ := hkeeps.write
  have hrun := zeroFill_run hfile hwrite v.size newPos
    (P := fun d size => v.size ≤ size ∧ vec d = fillTo v size) ?_ ⟨le_rfl, ?_⟩ hle
  · obtain ⟨d, hfill, -, hd⟩ := hrun
    exact ⟨d, hfill, hd⟩
  · rintro d size n hroom ⟨hsize, hd⟩
    have hsizeFill := v.size_write (List.replicate (size - v.size) 0) hpos
    have hposFill := v.pos_write (List.replicate (size - v.size) 0)
    rw [List.length_replicate] at hsizeFill hposFill
    rw [← fillTo] at hsizeFill hposFill
    refine ⟨by omega, ?_⟩
    rw [hvec d _ (by rw [hd]; omega) (by rw [hd, List.length_replicate]; omega), hd,
      fillTo, ByteVector.write_write _ _ hpos, List.replicate_append_replicate, fillTo]
    congr 2
    omega
  · rw [hv, fillTo_of_le le_rfl]

theorem KeepsVector.seekTo (hkeeps : KeepsVector file.driver file.descriptor vec)
    (hfile : descriptorAt s fd = some file)
    (hpos : (vec s.vfs.volumes).pos ≤ (vec s.vfs.volumes).size) (hlt : newPos < 2 ^ 32) :
    ∃ d, seekTo fd newPos (vec s.vfs.volumes).size s = some (newPos, putVolumes s d) ∧
      vec d = moveTo (fillTo (vec s.vfs.volumes) newPos) newPos := by
  have hfilled : ∃ d, expandFile fd newPos (vec s.vfs.volumes).size s =
      some (putVolumes s d) ∧ vec d = fillTo (vec s.vfs.volumes) newPos := by
    unfold expandFile
    split
    next h => exact hkeeps.zeroFill hfile hpos (by omega) hlt
    next h => exact ⟨s.vfs.volumes, rfl, (fillTo_of_le (by omega)).symm⟩
  obtain ⟨d₁, hfill, hd₁⟩ := hfilled
  obtain ⟨n, d₂, hmove, hd₂⟩ := hkeeps.driverSeek_move (s := putVolumes s d₁) hfile hlt
  obtain ⟨d₃, hask, hd₃⟩ := hkeeps.driverSeek_query (s := putVolumes s d₂) hfile
  rw [volumes_putVolumes, hd₁] at hd₂
  rw [volumes_putVolumes] at hask hd₃
  -- the answer is the position, except that `-1` looks like the failure
  have hanswer : (if (vec d₂).pos = newPos then newPos else minusOne) = newPos := by
    rw [hd₂, moveTo]
    split
    next h => simp [h]
    next h => simp
  refine ⟨d₃, ?_, hd₃.trans hd₂⟩
  rw [LakeOS.Model.seekTo, if_neg (Nat.not_lt_zero newPos), hfill]
  simp only [Option.bind_eq_bind, Option.bind_some]
  rw [hmove]
  simp only [Option.bind_some, putVolumes_putVolumes]
  rw [hask]
  simp only [Option.bind_some, putVolumes_putVolumes, hanswer]
  rfl

/-! ### Whether that is the target -/

section

variable {v : ByteVector Byte}

theorem pos_fillTo : (fillTo v newPos).pos = v.pos + (newPos - v.size) := by
  simp [fillTo]

theorem bytes_moveTo : (moveTo v newPos).bytes = v.bytes := by
  unfold moveTo
  split
  next => rfl
  next => rfl

theorem pos_moveTo_iff : (moveTo v newPos).pos = newPos ↔ newPos ≠ minusOne ∨ v.pos = newPos := by
  unfold moveTo
  split
  next h => simp [h]
  next h => simp [h]

/-- The zeros are at the end if there are none or the position is there. -/
theorem bytes_fillTo_iff (hpos : v.pos ≤ v.size) :
    (fillTo v newPos).bytes = v.bytes ++ List.replicate (newPos - v.size) 0 ↔
      newPos ≤ v.size ∨ v.pos = v.size := by
  by_cases h : newPos ≤ v.size
  · simp [fillTo_of_le h, h]
  · have hne : List.replicate (newPos - v.size) (0 : Byte) ≠ [] := by
      intro hnil
      have hlen := congrArg List.length hnil
      rw [List.length_replicate, List.length_nil] at hlen
      omega
    rw [fillTo, v.bytes_write_eq_append_iff hpos hne]
    exact ⟨.inr, fun hor => hor.resolve_left h⟩

/-- When the file that `VFS_seek` leaves is the right one. -/
def SeekSound (v : ByteVector Byte) (target : ℤ) : Prop :=
  (0 ≤ target ∧ target < 2 ^ 32 ∧
      (v.pos = v.size ∨ target ≤ v.size ∧ target ≠ minusOne)) ∨
    target = -1 ∧ v.size = minusOne

theorem seekResult_iff {target : ℤ} (hpos : v.pos ≤ v.size) (hsize : v.size < 2 ^ 32)
    (hlow : -2 ^ 32 ≤ target) (hnew : newPos = (target % 2 ^ 32).toNat) :
    SeekResult v (some target) newPos (moveTo (fillTo v newPos) newPos) ↔ SeekSound v target := by
  unfold SeekResult SeekSound
  dsimp only
  split
  next hneg =>
    constructor
    · rintro ⟨hn, hv⟩
      have hfill := congrArg ByteVector.pos hv
      rw [hn, moveTo, if_pos rfl, pos_fillTo] at hfill
      unfold minusOne at *
      omega
    · rintro (h | ⟨htarget, hfull⟩)
      · omega
      · have hn : newPos = minusOne := by unfold minusOne; omega
        rw [hn, moveTo, if_pos rfl, fillTo_of_le hfull.ge]
        exact ⟨rfl, rfl⟩
  next hnonneg =>
    rw [not_lt] at hnonneg
    by_cases hlt : target < 2 ^ 32
    · obtain ⟨t, rfl⟩ := Int.eq_ofNat_of_zero_le hnonneg
      obtain rfl : newPos = t := by omega
      rw [bytes_moveTo, Int.toNat_natCast, bytes_fillTo_iff hpos, Nat.cast_inj, Nat.cast_inj,
        pos_moveTo_iff, pos_fillTo]
      unfold minusOne at *
      omega
    · unfold minusOne
      omega

end

/-- **Seeking in a file of a driver that keeps a vector.** -/
theorem KeepsVector.seekCorrect_iff (hkeeps : KeepsVector file.driver file.descriptor vec)
    (hnull : s.descriptorList[fd]? ≠ some 0) (hfile : descriptorAt s fd = some file)
    (hpos : (vec s.vfs.volumes).pos ≤ (vec s.vfs.volumes).size)
    (hsize : (vec s.vfs.volumes).size < 2 ^ 32) {offset whence : ℤ}
    (hlow : -2 ^ 31 ≤ offset) (hhigh : offset < 2 ^ 31) :
    SeekCorrect vec fd offset whence s ↔
      ∀ target, seekGoal (vec s.vfs.volumes) offset whence = some target →
        whence = 0 ∧ offset < 0 ∨ SeekSound (vec s.vfs.volumes) target := by
  obtain ⟨stat, hstat, hstatSize⟩ := hkeeps.stat s.vfs.volumes
  generalize hv : vec s.vfs.volumes = v at hpos hsize ⊢
  have hcall : ∀ n s', vfsSeek fd offset whence s = some (n, s') →
      (SeekCorrect vec fd offset whence s ↔
        SeekResult v (seekGoal v offset whence) n (vec s'.vfs.volumes)) := by
    intro n s' hcall
    unfold SeekCorrect
    rw [hv, hcall]
    constructor
    · rintro ⟨n', s'', heq, hres⟩
      cases heq
      exact hres
    · exact fun hres => ⟨n, s', rfl, hres⟩
  have hmove : ∀ newPos < 2 ^ 32, ∀ d, vec d = v → ∃ d', LakeOS.Model.seekTo fd newPos v.size
      (putVolumes s d) = some (newPos, putVolumes s d') ∧
        vec d' = moveTo (fillTo v newPos) newPos := by
    intro newPos hlt d hd
    have h := hkeeps.seekTo (s := putVolumes s d) hfile
      (by rw [volumes_putVolumes, hd]; exact hpos) hlt
    rw [volumes_putVolumes, hd] at h
    exact h
  -- a call that reaches `f_Seek` is right when the target is sound
  have hreach : ∀ target : ℤ, -2 ^ 32 ≤ target → seekGoal v offset whence = some target →
      ¬ (whence = 0 ∧ offset < 0) → (∃ d', vfsSeek fd offset whence s =
        some ((target % 2 ^ 32).toNat, putVolumes s d') ∧
          vec d' = moveTo (fillTo v (target % 2 ^ 32).toNat) (target % 2 ^ 32).toNat) →
      (SeekCorrect vec fd offset whence s ↔ ∀ target, seekGoal v offset whence = some target →
        whence = 0 ∧ offset < 0 ∨ SeekSound v target) := by
    rintro target htarget hgoal hearly ⟨d', hseek, hd'⟩
    rw [hcall _ _ hseek, volumes_putVolumes, hd', hgoal, seekResult_iff hpos hsize htarget rfl]
    constructor
    · rintro hsound _ ⟨⟩
      exact .inr hsound
    · exact fun h => (h target rfl).resolve_left hearly
  obtain ⟨d, hask, hd⟩ := hkeeps.driverSeek_query hfile
  have hcases := vfsSeek_cases offset whence hnull
    ((vfsFstat_eq hfile).trans hstat) hask
  rw [hstatSize, hv] at hcases
  obtain ⟨rfl, hneg, hseek⟩ | ⟨rfl, hnonneg, hseek⟩ | ⟨rfl, hseek⟩ | ⟨rfl, hseek⟩ |
    ⟨h0, h1, h2, hseek⟩ := hcases
  · rw [hcall _ _ hseek, hv, seekGoal_set, SeekResult]
    simp [hneg]
  · have hnat : (offset % 2 ^ 32).toNat = offset.toNat := by omega
    apply hreach offset (by omega) rfl (by omega)
    rw [hseek, hnat]
    exact hmove offset.toNat (by omega) s.vfs.volumes hv
  · apply hreach (v.pos + offset) (by omega) rfl (by omega)
    rw [hseek]
    exact hmove _ (addOffset_lt _ _) d (hd.trans hv)
  · apply hreach (v.size + offset) (by omega) rfl (by omega)
    rw [hseek]
    exact hmove _ (addOffset_lt _ _) s.vfs.volumes hv
  · rw [hcall _ _ hseek, hv, seekGoal_invalid v offset h0 h1 h2]
    simp [SeekResult]

end

/-! ## Virtual files -/

/-- The vector in a virtual file. -/
def vfmVector (s : Vfm) : ByteVector Byte where
  bytes := s.memory.read s.file.content (ksize s.memory s.file.content)
  pos := s.file.pos

theorem size_vfmVector (s : Vfm) : (vfmVector s).size = ksize s.memory s.file.content :=
  Store.length_read _ _ _

section

variable {eax : ℕ → Vfm → ℕ} {write : List Byte → Vfm → ℕ × Vfm}
  {s : FileTable Unit Unit Vfm} {fd newPos size : ℕ}

/-- The last query of `VFS_seek` leaves a virtual file at `-1`. -/
theorem vfm_seekTo (hfile : descriptorAt s fd = some ⟨(), vfmOperations eax write⟩) :
    ∃ n d, seekTo fd newPos size s = some (n, putVolumes s d) ∧ d.file.pos = minusOne := by
  have hexpand : ∃ d, expandFile fd newPos size s = some (putVolumes s d) := by
    unfold expandFile
    split
    next h =>
      obtain ⟨d, hfill, -⟩ := zeroFill_run (P := fun _ _ => True) hfile rfl size newPos
        (fun _ _ _ _ _ => trivial) trivial h.le
      exact ⟨d, hfill⟩
    next => exact ⟨s.vfs.volumes, rfl⟩
  obtain ⟨d, hexpand⟩ := hexpand
  refine ⟨if eax minusOne (vfmSeek newPos d) = newPos then newPos else minusOne,
    vfmSeek minusOne (vfmSeek newPos d), ?_, rfl⟩
  rw [seekTo, if_neg (Nat.not_lt_zero newPos), hexpand]
  simp only [Option.bind_eq_bind, Option.bind_some]
  rw [driverSeek_eq (s := putVolumes s d) hfile rfl]
  simp only [Option.bind_some, volumes_putVolumes]
  rw [driverSeek_eq (s := putVolumes (putVolumes s d) (vfmSeek newPos d)) hfile rfl]
  rfl

/-- **Seeking in a virtual file** is right only when it fails before `f_Seek`. -/
theorem vfm_seekCorrect_iff (hnull : s.descriptorList[fd]? ≠ some 0)
    (hfile : descriptorAt s fd = some ⟨(), vfmOperations eax write⟩)
    (hpos : s.vfs.volumes.file.pos ≤ (vfmFstat s.vfs.volumes).size)
    (hsize : (vfmFstat s.vfs.volumes).size ≤ heapSize) {offset whence : ℤ}
    (hhigh : offset < 2 ^ 31) :
    SeekCorrect vfmVector fd offset whence s ↔
      ∀ target, seekGoal (vfmVector s.vfs.volumes) offset whence = some target →
        whence = 0 ∧ offset < 0 := by
  have hvsize : (vfmVector s.vfs.volumes).size = (vfmFstat s.vfs.volumes).size := size_vfmVector _
  have hvpos : (vfmVector s.vfs.volumes).pos = s.vfs.volumes.file.pos := rfl
  have hreach : ∀ target : ℤ, target < minusOne →
      seekGoal (vfmVector s.vfs.volumes) offset whence = some target →
      ¬ (whence = 0 ∧ offset < 0) → (∃ n d, vfsSeek fd offset whence s =
        some (n, putVolumes s d) ∧ d.file.pos = minusOne) →
      (SeekCorrect vfmVector fd offset whence s ↔
        ∀ target, seekGoal (vfmVector s.vfs.volumes) offset whence = some target →
          whence = 0 ∧ offset < 0) := by
    rintro target htarget hgoal hearly ⟨n, d, hseek, hd⟩
    constructor
    · rintro ⟨n', s', hcall, hres⟩
      rw [hseek] at hcall
      cases hcall
      rw [hgoal, SeekResult] at hres
      split at hres
      · have heq := congrArg ByteVector.pos hres.2
        rw [hvpos] at heq
        have hlast : (vfmVector d).pos = minusOne := hd
        rw [volumes_putVolumes, hlast] at heq
        unfold minusOne heapSize at *
        omega
      · have heq : (d.file.pos : ℤ) = target := hres.2.1
        omega
    · exact fun h => absurd (h target hgoal) hearly
  obtain ⟨rfl, hneg, hseek⟩ | ⟨rfl, hnonneg, hseek⟩ | ⟨rfl, hseek⟩ | ⟨rfl, hseek⟩ |
    ⟨h0, h1, h2, hseek⟩ := vfsSeek_cases offset whence hnull
      (vfsFstat_eq hfile) (driverSeek_eq hfile rfl)
  · refine ⟨fun _ _ _ => ⟨rfl, hneg⟩, fun _ => ⟨minusOne, s, hseek, ?_⟩⟩
    rw [seekGoal_set, SeekResult]
    simp [hneg]
  · apply hreach offset (by unfold minusOne; omega) rfl (by omega)
    rw [hseek]
    exact vfm_seekTo hfile
  · apply hreach _ (by rw [hvpos]; unfold minusOne heapSize at *; omega) rfl (by omega)
    rw [hseek]
    exact vfm_seekTo (s := putVolumes s _) hfile
  · apply hreach _ (by rw [hvsize]; unfold minusOne heapSize at *; omega) rfl (by omega)
    rw [hseek]
    exact vfm_seekTo hfile
  · have hgoal := seekGoal_invalid (vfmVector s.vfs.volumes) offset h0 h1 h2
    rw [hgoal]
    refine ⟨fun _ _ h => absurd h (by simp), fun _ => ⟨minusOne, s, hseek, ?_⟩⟩
    rw [hgoal]
    exact ⟨rfl, rfl⟩

end

/-! ## `VFS_seek` -/

/-- **When a seek is right.**  With a driver that keeps a vector: if the call fails
before it reaches `f_Seek`, or the target fits and nothing has to be filled up elsewhere
than at the end.  With virtual files: only if the call fails there. -/
theorem vfs_seek_correct_iff (fd : ℕ) (offset whence : ℤ) (hlow : -2 ^ 31 ≤ offset)
    (hhigh : offset < 2 ^ 31) :
    (∀ {H F δ : Type} (s : FileTable H F δ) (file : FileDescriptor H F δ)
      (vec : δ → ByteVector Byte), s.descriptorList[fd]? ≠ some 0 →
      descriptorAt s fd = some file → KeepsVector file.driver file.descriptor vec →
      (vec s.vfs.volumes).pos ≤ (vec s.vfs.volumes).size →
      (vec s.vfs.volumes).size < 2 ^ 32 →
      (SeekCorrect vec fd offset whence s ↔
        ∀ target, seekGoal (vec s.vfs.volumes) offset whence = some target →
          whence = 0 ∧ offset < 0 ∨ SeekSound (vec s.vfs.volumes) target)) ∧
    ∀ (eax : ℕ → Vfm → ℕ) (write : List Byte → Vfm → ℕ × Vfm) (s : FileTable Unit Unit Vfm),
      s.descriptorList[fd]? ≠ some 0 →
      descriptorAt s fd = some ⟨(), vfmOperations eax write⟩ →
      s.vfs.volumes.file.pos ≤ (vfmFstat s.vfs.volumes).size →
      (vfmFstat s.vfs.volumes).size ≤ heapSize →
      (SeekCorrect vfmVector fd offset whence s ↔
        ∀ target, seekGoal (vfmVector s.vfs.volumes) offset whence = some target →
          whence = 0 ∧ offset < 0) :=
  ⟨fun _ _ _ hnull hfile hkeeps hpos hsize =>
    hkeeps.seekCorrect_iff hnull hfile hpos hsize hlow hhigh,
   fun _ _ _ hnull hfile hpos hsize => vfm_seekCorrect_iff hnull hfile hpos hsize hhigh⟩

/-- The beginning of the year. -/
def newYear : FileChrono := ⟨2025, 0, 0, 0, 1, 1⟩

/-- A driver whose only file is a vector. -/
def vectorDriver : VfsOperations Unit Unit (ByteVector Byte) where
  fLookup := fun _ _ _ => none
  fCreate := fun _ _ _ v => v
  fOpen := fun _ _ v => ((), v.seek 0)
  fClose := fun _ v => v
  fRead := fun _ => some fun n v => (((v.read n).1.length, (v.read n).1), (v.read n).2)
  fWrite := fun _ => some fun data v => (data.length, v.write data)
  fNodeName := fun _ _ => []
  fStat := fun _ v => some ⟨newYear, newYear, v.size, 0⟩
  fSeek := some fun _ position v =>
    (if position = minusOne then v.pos else position, moveTo v position)

theorem vectorDriver_keepsVector : KeepsVector vectorDriver () id where
  stat := fun _ => ⟨_, rfl, rfl⟩
  query := by
    refine ⟨_, rfl, fun v => ?_, fun v position hlt => ?_⟩
    · simp [moveTo]
    · simp [moveTo, hlt.ne]
  write := ⟨_, rfl, fun _ _ _ _ => rfl⟩

/-- One descriptor, `0`, of the only file of a driver. -/
def oneFile {δ : Type} (driver : VfsOperations Unit Unit δ) (d : δ) : FileTable Unit Unit δ where
  vfs := ⟨[], d⟩
  descriptorList := [1]
  heap := fun p => if p = 1 then some ⟨(), driver⟩ else none

/-- To the end of a file of one byte; and before the beginning of a virtual file. -/
theorem vfs_seek_correct_iff_set :
    SeekCorrect id 0 1 0 (oneFile vectorDriver ⟨[7], 0⟩) ∧
    SeekCorrect vfmVector 0 (-1) 0 (oneFile (vfmOperations (fun _ _ => 0) fun _ s => (0, s))
      ⟨fun _ => 0, newYear, vfmNewFile newYear 0⟩) := by
  constructor
  · refine ((vfs_seek_correct_iff 0 1 0 (by decide) (by decide)).1
      (oneFile vectorDriver ⟨[7], 0⟩) ⟨(), vectorDriver⟩ id (by decide) rfl
      vectorDriver_keepsVector (by decide) (by decide)).mpr ?_
    rintro _ ⟨⟩
    exact .inr (.inl ⟨by decide, by decide, .inr ⟨by decide, by decide⟩⟩)
  · refine ((vfs_seek_correct_iff 0 (-1) 0 (by decide) (by decide)).2 (fun _ _ => 0)
      (fun _ s => (0, s)) (oneFile _ _) (by simp [oneFile]) rfl (Nat.zero_le _)
      (Nat.zero_le _)).mpr ?_
    exact fun _ _ => ⟨rfl, by decide⟩

/-- From the beginning of a file of one byte to one behind its end: the byte is lost. -/
theorem vfs_seek_overwrites :
    vfsSeek 0 2 0 (oneFile vectorDriver ⟨[7], 0⟩) = some (2, oneFile vectorDriver ⟨[0], 2⟩) ∧
      ¬ SeekCorrect id 0 2 0 (oneFile vectorDriver ⟨[7], 0⟩) := by
  have hseek : vfsSeek 0 2 0 (oneFile vectorDriver ⟨[7], 0⟩) =
      some (2, oneFile vectorDriver ⟨[0], 2⟩) := rfl
  refine ⟨hseek, ?_⟩
  rintro ⟨n, s', hcall, hres⟩
  rw [hseek] at hcall
  cases hcall
  exact absurd hres.2.2 (by decide)

end LakeOS.Analysis
