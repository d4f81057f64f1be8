import LakeOS.Analysis.DeviceReads

/-!
# Reads up to the end of a file

`FAT_read` should stop at the end of the file.  Its phases compare the number of bytes read
with the size, but not the position, and only after a store: a call reads all the bytes it is
asked for, or more than the file has.  Inside the file it reads what is there, but for the end of
a first piece that is shorter than a sector and runs over its end, which is read as zeros.
-/

set_option autoImplicit false

namespace LakeOS.Analysis

open LakeOS.Library LakeOS.Model

variable {v : FatDevice} {d : Disk} {file file' : FatFile} {cs : List ℕ} {len off : ℕ}

/-- The call returns the bytes of the file from the position on, at most `len` of them, and
moves the position behind them.  The buffer gets no other bytes. -/
def ReadBounded (v : FatDevice) (cs : List ℕ) (file : FatFile) (len : ℕ) (d : Disk) : Prop :=
  ∃ bytes file', v.fatRead file len d = some (bytes, file') ∧
    bytes.length = min len (file.size - file.position) ∧
    bytes = (((chainBytes v.toFatContext d cs).take file.size).drop file.position).take len ∧
    file' = { file with position := file.position + bytes.length }

/-- Of the first piece that a call reads, what lies behind the end of its sector is zeros, if the
piece is shorter than a sector and does not begin one. -/
def CutIsZero (v : FatDevice) (bytes : List Byte) (pos len : ℕ) : Prop :=
  ∀ x, pos ≤ x → x < pos + headPiece v pos len → Cut v.sectorSize pos (headPiece v pos len) x →
    bytes.getD x 0 = 0

/-! ## The bytes that are asked for -/

/-- All that was asked for has been read, or more than the file has. -/
def ReadEnough (len size : ℕ) (r : FatReading) : Prop :=
  r.data.length = len ∨ size < r.data.length

theorem FatDevice.length_get (r : FatReading) (off n : ℕ) :
    (v.get r d off n).data.length = r.data.length + n := by
  simp [FatDevice.get, FatDevice.read, length_sectorRead]

/-- INTERNAL: more was read than the file has, or the rest of the call follows. -/
theorem unlessPast_cases {r r' : FatReading} {rest : FatReading → Option FatReading}
    (h : r.unlessPast rest = some r') :
    r.file.size < r.data.length ∧ r = r' ∨ rest r = some r' := by
  unfold FatReading.unlessPast at h
  split at h
  next hpast => exact .inl ⟨hpast, Option.some.inj h⟩
  next => exact .inr h

/-- INTERNAL: the clusters of a file, and the rest.
SRCLINE: fat.c:963-978 -/
theorem FatDevice.fatReadClusters_enough {fuel : ℕ} {r r' : FatReading} (hle : r.data.length ≤ len)
    (hfile : r.file.size = file.size) (h : v.fatReadClusters len d fuel r = some r') :
    ReadEnough len file.size r' := by
  induction fuel generalizing r with
  | zero => cases h
  | succ fuel ih =>
      rw [FatDevice.fatReadClusters] at h
      split at h
      next hmore =>
        obtain ⟨off, -, h⟩ := Option.bind_eq_some_iff.mp h
        rcases unlessPast_cases h with ⟨hpast, rfl⟩ | h
        · exact .inr (hfile ▸ hpast)
        · refine ih (r := v.get r d off.1 v.bytesPClus) ?_ hfile h
          rw [FatDevice.length_get]
          omega
      next =>
        unfold FatDevice.fatReadTail at h
        split at h
        next =>
          obtain ⟨off, -, h⟩ := Option.bind_eq_some_iff.mp h
          rw [← Option.some.inj h]
          refine .inl ?_
          rw [FatDevice.length_get]
          omega
        next =>
          rw [← Option.some.inj h]
          exact .inl (by omega)

/-- **`FAT_read` does not stop at the end of the file.** -/
theorem FatDevice.fatRead_enough (hflag : hasFlag file.flags fatFileRead) {data : List Byte}
    (h : v.fatRead file len d = some (data, file')) :
    data.length = len ∨ file.size < data.length := by
  unfold FatDevice.fatRead at h
  rw [if_neg (by rw [hflag]; decide)] at h
  obtain ⟨off, -, h⟩ := Option.bind_eq_some_iff.mp h
  split at h
  next =>
    obtain ⟨r, hr, h⟩ := Option.bind_eq_some_iff.mp h
    rw [← (Prod.mk.inj (Option.some.inj h)).1]
    rcases unlessPast_cases hr with ⟨hpast, rfl⟩ | hr
    · exact .inr hpast
    · refine FatDevice.fatReadClusters_enough (r := _) ?_ (show _ = file.size from rfl) hr
      rw [FatDevice.length_get, List.length_nil]
      split <;> omega
  next =>
    obtain ⟨r, hr, h⟩ := Option.bind_eq_some_iff.mp h
    rw [← (Prod.mk.inj (Option.some.inj h)).1]
    exact FatDevice.fatReadClusters_enough (r := ⟨file, []⟩) (Nat.zero_le _) rfl hr

/-- INTERNAL: a call that is bounded asks for no more than the file has. -/
theorem ReadBounded.le (hflag : hasFlag file.flags fatFileRead)
    (hread : ReadBounded v cs file len d) : len ≤ file.size - file.position := by
  obtain ⟨bytes, file', hrun, hlen, -, -⟩ := hread
  rcases FatDevice.fatRead_enough hflag hrun with henough | hpast
  · omega
  · omega

/-! ## The bytes that are read -/

/-- INTERNAL: what is cut of a piece, seen from the file. -/
theorem cut_iff {sectorSize pos i : ℕ} (hmod : off % sectorSize = pos % sectorSize) :
    Cut sectorSize off len (off + i) ↔ Cut sectorSize pos len (pos + i) := by
  have hoff := Nat.div_add_mod' off sectorSize
  have hpos := Nat.div_add_mod' pos sectorSize
  unfold Cut
  rw [hmod]
  refine and_congr_right fun _ => and_congr_right fun _ => ?_
  omega

/-- INTERNAL: a piece that is cut is right where zeros are cut off. -/
theorem read_eq_iff_zeros (h : DeviceLayout v) {pos : ℕ} (hin : pos / v.bytesPClus < cs.length)
    (hpiece : headPiece v pos len = len) :
    v.read d (clusterStart v.toFatContext (cs.getD (pos / v.bytesPClus) 0) + pos % v.bytesPClus)
        len = ((chainBytes v.toFatContext d cs).drop pos).take len ↔
      CutIsZero v (chainBytes v.toFatContext d cs) pos len := by
  have hbpc := h.bytesPClus_pos
  have hmod := Nat.mod_lt pos hbpc
  have hle : len ≤ v.bytesPClus - pos % v.bytesPClus := by
    rw [← hpiece]
    exact Nat.min_le_right _ _
  have hbytes : ((chainBytes v.toFatContext d cs).drop pos).take len =
      d.read (clusterStart v.toFatContext (cs.getD (pos / v.bytesPClus) 0) + pos % v.bytesPClus)
        len := chainBytes_piece hin (by omega)
  have haddress := h.address_mod (cs.getD (pos / v.bytesPClus) 0) pos
  unfold CutIsZero
  rw [hpiece]
  generalize clusterStart v.toFatContext (cs.getD (pos / v.bytesPClus) 0) +
    pos % v.bytesPClus = off at *
  have hcell : ∀ i < len, (chainBytes v.toFatContext d cs).getD (pos + i) 0 = d (off + i) := by
    intro i hi
    have hget := congrArg (fun l : List Byte => l.getD i 0) hbytes
    simpa [List.getD_eq_getElem?_getD, List.getElem?_take_of_lt hi, Store.read, hi] using hget
  rw [hbytes, FatDevice.read, sectorRead_eq v.sectorSize_pos]
  refine (Store.read_eq_iff _ off len _).trans ?_
  constructor
  · rintro ⟨-, hsame⟩ x hx hlt hcut
    obtain ⟨i, rfl⟩ := Nat.exists_eq_add_of_le hx
    have hi := hsame i (by simpa using hlt)
    rw [if_pos ((cut_iff haddress).mpr hcut), Store.getElem_read] at hi
    rw [hcell i (by omega), ← hi]
  · intro hzero
    refine ⟨Store.length_read _ _ _, fun i hi => ?_⟩
    rw [Store.length_read] at hi
    rw [Store.getElem_read]
    split
    next hcut =>
      have hcut' := hzero (pos + i) (by omega) (by omega) ((cut_iff haddress).mp hcut)
      rw [← hcut', hcell i hi]
    next => rfl

/-- INTERNAL: a call that asks for nothing reads nothing, wherever the position is. -/
theorem fatRead_zero {ctx : FatContext} (h : FatLayout ctx)
    (hflag : hasFlag file.flags fatFileRead) (hchain : FatChain ctx d (file.startingClus :: cs))
    (hposition : file.position < 2 ^ 32) : fatRead ctx file 0 d = some ([], file) := by
  have hbpc := h.bytesPClus_pos
  obtain ⟨off, hoff⟩ := fatAbsoluteOffset_isSome h hchain file.position
  have hclusters : fatReadClusters ctx 0 d fatFuel ⟨file, []⟩ = some ⟨file, []⟩ := by
    rw [show fatFuel = (2 ^ 32 - 1) + 1 from rfl, fatReadClusters, if_neg (by simp; omega)]
    simp [fatReadTail]
  have hget : FatReading.get ⟨file, []⟩ d off.1 0 = ⟨file, []⟩ := by
    unfold FatReading.get
    simp [add32_eq (show file.position + 0 < 2 ^ 32 from hposition)]
  unfold fatRead
  simp [hflag, hoff, hget, hclusters, FatReading.unlessPast]

/-- INTERNAL: inside the file, where the entries of its chain are read as they are. -/
theorem readBounded_inside (h : DeviceLayout v) (hflag : hasFlag file.flags fatFileRead)
    (hchain : FatChain v.toFatContext d (file.startingClus :: cs))
    (hsize : file.size ≤ (file.startingClus :: cs).length * v.bytesPClus)
    (hreads : ReadsEntries v d (file.startingClus :: cs)) (hsum : file.position + len ≤ file.size) :
    ReadBounded v (file.startingClus :: cs) file len d ↔
      CutIsZero v (chainBytes v.toFatContext d (file.startingClus :: cs)) file.position len := by
  have hbpc := h.bytesPClus_pos
  have hsmall : file.size < 2 ^ 32 := by
    have hbytes := hchain.bytes_le
    have hvolume := h.volume
    omega
  have hlength : (((chainBytes v.toFatContext d (file.startingClus :: cs)).drop
      file.position).take len).length = len := by
    rw [List.length_take, List.length_drop, length_chainBytes]
    omega
  have hasked : (((chainBytes v.toFatContext d (file.startingClus :: cs)).take file.size).drop
      file.position).take len =
        ((chainBytes v.toFatContext d (file.startingClus :: cs)).drop file.position).take len := by
    rw [List.drop_take, List.take_take]
    congr 1
    omega
  by_cases hfits : HeadFits v.sectorSize (headPiece v file.position len) file.position
  · refine iff_of_true ?_ fun x _ hlt hcut => absurd hcut (hfits.not_cut hlt)
    have hin : file.position < (file.startingClus :: cs).length * v.bytesPClus ∨
        file.position % v.bytesPClus = 0 ∨ len = 0 := by
      by_cases hlt : file.position < (file.startingClus :: cs).length * v.bytesPClus
      · exact .inl hlt
      · exact .inr (.inr (by omega))
    have hrun := fatRead_inside h.toFatLayout hflag hchain hsize hsmall hsum
    rw [← FatDevice.fatRead_eq h hchain hreads hin (by omega) hfits] at hrun
    refine ⟨_, _, hrun, ?_, hasked.symm, ?_⟩
    · rw [hlength]
      omega
    · rw [hlength]
  · have hin : file.position < (file.startingClus :: cs).length * v.bytesPClus := by
      by_contra hge
      refine hfits (.inr (.inr ?_))
      have hzero : headPiece v file.position len = 0 := by
        unfold headPiece
        omega
      have hmod := Nat.mod_lt file.position v.sectorSize_pos
      omega
    obtain ⟨hpiece, hrun⟩ := FatDevice.fatRead_cut h hflag hchain hreads hin (by omega) (by omega)
      hfits
    rw [← read_eq_iff_zeros h ((Nat.div_lt_iff_lt_mul hbpc).mpr hin) hpiece, ← hasked]
    constructor
    · rintro ⟨bytes, file', hbytes, -, hright, -⟩
      obtain ⟨rfl, -⟩ := Prod.mk.inj (Option.some.inj (hrun.symm.trans hbytes))
      exact hright
    · intro hright
      refine ⟨_, _, hrun, ?_, hright, ?_⟩
      · rw [FatDevice.read, length_sectorRead]
        omega
      · rw [FatDevice.read, length_sectorRead]

end LakeOS.Analysis
