import LakeOS.Analysis.DeviceWrites
import LakeOS.Analysis.ReadBounds
import LakeOS.Library.ByteVector
import LakeOS.Model.FatDir

/-!
# FAT files with a position

`FAT_write` appends: it writes at the size of the file and leaves the position alone.
`FAT_read` reads at the position, also past the size, and the end of a short first piece that
runs over the end of a sector as zeros.  So a file is a byte vector with a cursor as long as
nothing is written, no read goes past the end and what is cut of a read is zeros anyway.
-/

set_option autoImplicit false

namespace LakeOS.Analysis

open LakeOS.Library LakeOS.Model

/-! ## Calls on a file -/

/-- A call of an operation on an open file. -/
inductive FatCall where
  | seek (position : ℕ)
  | write (data : List Byte)
  | read (len : ℕ)

/-- The call on the file: the number and the bytes that the caller gets, the file and the
disk; `none` if it does not return. -/
def fatCall (v : FatDevice) (file : FatFile) (d : Disk) :
    FatCall → Option ((ℕ × List Byte) × FatFile × Disk)
  | .seek position => some (((fatFileSeek file position).1, []), (fatFileSeek file position).2, d)
  | .write data => (v.fatWrite file data d).map fun res => ((res.1, []), res.2)
  | .read len => (v.fatRead file len d).map fun res => ((res.1.length, res.1), res.2, d)

/-- The call on a byte vector. -/
def cursorCall (vector : ByteVector Byte) : FatCall → (ℕ × List Byte) × ByteVector Byte
  | .seek position => ((position, []), vector.seek position)
  | .write data => ((data.length, []), vector.write data)
  | .read len => (((vector.read len).1.length, (vector.read len).1), (vector.read len).2)

/-- Counts are 32-bit numbers and a seek stays at most at the end. -/
def FatCall.Allowed (vector : ByteVector Byte) : FatCall → Prop
  | .seek position => position ≤ vector.size
  | .write data => data.length < 2 ^ 32
  | .read len => len < 2 ^ 32

/-- Every call of the sequence is allowed where it is made. -/
def FatAllowed (vector : ByteVector Byte) : List FatCall → Prop
  | [] => True
  | c :: calls => c.Allowed vector ∧ FatAllowed (cursorCall vector c).2 calls

/-- The clusters that a call which writes nothing takes from a file of a size. -/
def clustersFor (ctx : FatContext) (size : ℕ) : FatCall → ℕ
  | .write _ => clustersTaken ctx size 0
  | _ => 0

/-- An open file with a chain of clusters that holds the bytes of the vector, at its
position. -/
structure FatHolds (ctx : FatContext) (file : FatFile) (d : Disk) (vector : ByteVector Byte) :
    Prop where
  reads : hasFlag file.flags fatFileRead
  writes : hasFlag file.flags fatFileWrite
  contents : ∃ cs, FatChain ctx d (file.startingClus :: cs) ∧
    file.size ≤ (file.startingClus :: cs).length * ctx.bytesPClus ∧
    vector.bytes = (chainBytes ctx d (file.startingClus :: cs)).take file.size
  position : vector.pos = file.position
  inside : file.position ≤ file.size

/-- The file answers a sequence of calls as the byte vector does, and agrees with it
before, between and after them. -/
def ActsAsCursor (v : FatDevice) (file : FatFile) (d : Disk) (vector : ByteVector Byte) :
    List FatCall → Prop
  | [] => FatHolds v.toFatContext file d vector
  | c :: calls => FatHolds v.toFatContext file d vector ∧
      ∃ file' d', fatCall v file d c = some ((cursorCall vector c).1, file', d') ∧
        ActsAsCursor v file' d' (cursorCall vector c).2 calls

/-- The call writes nothing, reads nothing past the end, and what is cut of it is zeros. -/
def FatCall.Harmless (v : FatDevice) (vector : ByteVector Byte) : FatCall → Prop
  | .seek _ => True
  | .write data => data = []
  | .read len => len ≤ vector.size - vector.pos ∧ CutIsZero v vector.bytes vector.pos len

/-- So do all calls of the sequence. -/
def AllHarmless (v : FatDevice) (vector : ByteVector Byte) : List FatCall → Prop
  | [] => True
  | c :: calls => c.Harmless v vector ∧ AllHarmless v (cursorCall vector c).2 calls

variable {v : FatDevice} {d d' : Disk} {file file' : FatFile} {vector : ByteVector Byte} {n : ℕ}

/-! ## `FAT_write` and the position -/

theorem FatDevice.fatWriteHead_position (off : ℕ) (w : FatWriting) :
    (v.fatWriteHead off w).file.position = w.file.position := by
  unfold FatDevice.fatWriteHead
  split
  next => rfl
  next => rfl

theorem FatDevice.fatWriteClusters_position {fuel : ℕ} {w w' : FatWriting}
    (h : v.fatWriteClusters fuel w = some w') : w'.file.position = w.file.position := by
  induction fuel generalizing w with
  | zero => cases h
  | succ fuel ih =>
      rw [FatDevice.fatWriteClusters] at h
      split at h
      next =>
        obtain ⟨d, -, h⟩ := Option.bind_eq_some_iff.mp h
        obtain ⟨off, -, h⟩ := Option.bind_eq_some_iff.mp h
        have hrest := ih h
        exact hrest
      next => rw [← Option.some.inj h]

theorem FatDevice.fatWriteTail_position {w w' : FatWriting} (h : v.fatWriteTail w = some w') :
    w'.file.position = w.file.position := by
  unfold FatDevice.fatWriteTail at h
  split at h
  next =>
    split at h
    all_goals
      obtain ⟨d, -, h⟩ := Option.bind_eq_some_iff.mp h
      obtain ⟨off, -, h⟩ := Option.bind_eq_some_iff.mp h
      rw [← Option.some.inj h]
      rfl
  next => rw [← Option.some.inj h]

/-- **`FAT_write` does not move the position.** -/
theorem FatDevice.fatWrite_position {data : List Byte}
    (h : v.fatWrite file data d = some (n, file', d')) : file'.position = file.position := by
  unfold FatDevice.fatWrite at h
  split at h
  next => rw [← (Prod.mk.inj (Prod.mk.inj (Option.some.inj h)).2).1]
  next =>
    obtain ⟨off, -, h⟩ := Option.bind_eq_some_iff.mp h
    split at h
    all_goals
      obtain ⟨disk, -, h⟩ := Option.bind_eq_some_iff.mp h
      obtain ⟨w, hclusters, h⟩ := Option.bind_eq_some_iff.mp h
      obtain ⟨w', htail, h⟩ := Option.bind_eq_some_iff.mp h
      rw [← (Prod.mk.inj (Prod.mk.inj (Option.some.inj h)).2).1,
        FatDevice.fatWriteTail_position htail, FatDevice.fatWriteClusters_position hclusters,
        FatDevice.fatWriteHead_position]

/-! ## Sequences of calls -/

/-- INTERNAL: the bytes behind the size do not count inside the file. -/
theorem cutIsZero_take {bytes : List Byte} {size pos len : ℕ} (hsum : pos + len ≤ size) :
    CutIsZero v (bytes.take size) pos len ↔ CutIsZero v bytes pos len := by
  have hle : headPiece v pos len ≤ len := Nat.min_le_left _ _
  refine forall_congr' fun x => forall_congr' fun _ => forall_congr' fun hlt =>
    forall_congr' fun _ => ?_
  rw [List.getD_eq_getElem?_getD, List.getD_eq_getElem?_getD, List.getElem?_take_of_lt (by omega)]

namespace FatHolds

variable (hholds : FatHolds v.toFatContext file d vector)
include hholds

/-- The vector has the size of the file. -/
theorem size : vector.size = file.size := by
  obtain ⟨cs, -, hsize, hbytes⟩ := hholds.contents
  rw [ByteVector.size, hbytes, List.length_take, length_chainBytes]
  exact Nat.min_eq_left hsize

/-- A file lies inside the volume. -/
theorem size_lt (h : FatLayout v.toFatContext) : file.size + 1 < 2 ^ 32 := by
  obtain ⟨cs, hchain, hsize, -⟩ := hholds.contents
  have hbytes := hchain.bytes_le
  have hstart := h.clusterStart_pos 2
  have hvolume := h.volume
  have hdata := h.data
  unfold clusterStart at hstart
  omega

/-- INTERNAL: what the vector gives inside the file. -/
theorem read_eq {cs : List ℕ} (hchain : FatChain v.toFatContext d (file.startingClus :: cs))
    {len : ℕ} (hle : len ≤ file.size - file.position) :
    (vector.read len).1 = ((chainBytes v.toFatContext d (file.startingClus :: cs)).drop
      file.position).take len := by
  obtain ⟨cs', hchain', -, hbytes⟩ := hholds.contents
  rw [hchain'.1.unique hchain.1] at hbytes
  rw [ByteVector.read, hbytes, hholds.position, List.drop_take, List.take_take,
    Nat.min_eq_left hle]

end FatHolds

theorem ActsAsCursor.holds {calls : List FatCall} (hacts : ActsAsCursor v file d vector calls) :
    FatHolds v.toFatContext file d vector := by
  cases calls with
  | nil => exact hacts
  | cons => exact hacts.1

/-- **A harmless call.**  The file answers as the vector does, and still agrees with it. -/
theorem fatCall_of_harmless (h : DeviceLayout v)
    {c : FatCall} (hholds : FatHolds v.toFatContext file d vector) (hallowed : c.Allowed vector)
    (hharmless : c.Harmless v vector)
    (hinside : FileInside v file d (clustersFor v.toFatContext file.size c + n)) :
    ∃ file' d', fatCall v file d c = some ((cursorCall vector c).1, file', d') ∧
      FatHolds v.toFatContext file' d' (cursorCall vector c).2 ∧ file'.size = file.size ∧
      FileInside v file' d' n := by
  have hsmall := hholds.size_lt h.toFatLayout
  have hsize := hholds.size
  cases c with
  | seek position =>
      have hle : position ≤ file.size := hsize ▸ hallowed
      have hmoved : fatFileSeek file position = (position, { file with position := position }) := by
        rw [fatFileSeek, if_pos (by unfold minusOne; omega)]
      have hrest : FileInside v file d n := by simpa [clustersFor] using hinside
      refine ⟨{ file with position := position }, d, ?_, ?_, rfl, hrest⟩
      · rw [fatCall, hmoved]
        rfl
      · exact ⟨hholds.reads, hholds.writes, hholds.contents, rfl, hle⟩
  | write data =>
      obtain rfl : data = [] := hharmless
      obtain ⟨cs, hchain, hfits, hbytes⟩ := hholds.contents
      have ha : Appended v.toFatContext d file d cs vector.bytes :=
        ⟨hchain, hfits, hbytes.symm, fun _ _ _ => rfl⟩
      have ht := hinside cs hchain
      obtain ⟨data', hlength, hrun, hnext⟩ :=
        FatDevice.fatWrite_eq h hholds.writes ha [] ht
      obtain rfl := List.length_eq_zero_iff.mp hlength
      obtain ⟨d', cs', hwrite, ha', -, -⟩ := fatWrite_append h.toFatLayout hholds.writes ha []
        (fun hne => ht.fields fun hzero => hne (Nat.add_eq_zero_iff.mp hzero).1)
        ((Nat.le_add_right _ n).trans ht.card_le)
      rw [List.length_nil, Nat.add_zero] at hwrite ha'
      rw [List.append_nil] at ha'
      refine ⟨file, d', ?_, ⟨hholds.reads, hholds.writes, ⟨cs', ha'.chain, ha'.fits, ?_⟩, ?_,
        hholds.inside⟩, rfl, fun cs'' hchain'' => hnext _ cs'' hwrite hchain''⟩
      · rw [fatCall, hrun, hwrite]
        rfl
      · rw [cursorCall, ByteVector.write_nil]
        exact ha'.contents.symm
      · rw [cursorCall, ByteVector.write_nil]
        exact hholds.position
  | read len =>
      obtain ⟨cs, hchain, hfits, hbytes⟩ := hholds.contents
      obtain ⟨hle, hzero⟩ := hharmless
      rw [hsize, hholds.position] at hle
      have hin := hholds.inside
      rw [hbytes, hholds.position, cutIsZero_take (by omega)] at hzero
      obtain ⟨bytes, file', hread, -, hright, rfl⟩ := (readBounded_inside h hholds.reads hchain
        hfits (hinside cs hchain).reads (by omega)).mpr hzero
      have hvector := hholds.read_eq hchain hle
      have hlength : (vector.read len).1.length = len := by
        rw [ByteVector.length_read, hsize, hholds.position, Nat.min_eq_left hle]
      obtain rfl : bytes = (vector.read len).1 := by
        rw [hright, hvector, List.drop_take, List.take_take, Nat.min_eq_left hle]
      have hrest : FileInside v file d n := by simpa [clustersFor] using hinside
      refine ⟨{ file with position := file.position + (vector.read len).1.length }, d, ?_, ⟨hholds.reads, hholds.writes, hholds.contents, ?_, ?_⟩, rfl, hrest⟩
      · rw [fatCall, hread, Option.map_some]
        rfl
      · show vector.pos + (vector.read len).1.length = file.position + (vector.read len).1.length
        rw [hholds.position]
      · show file.position + (vector.read len).1.length ≤ file.size
        omega

/-- **A call that is not harmless.**  If the answer is that of the vector, the file no longer
agrees with it. -/
theorem harmless_of_fatCall (h : DeviceLayout v) {c : FatCall}
    (hholds : FatHolds v.toFatContext file d vector) (hinside : FileInside v file d n)
    (hcall : fatCall v file d c = some ((cursorCall vector c).1, file', d'))
    (hholds' : FatHolds v.toFatContext file' d' (cursorCall vector c).2) :
    c.Harmless v vector := by
  cases c with
  | seek => trivial
  | write data =>
      obtain ⟨res, hwrite, hres⟩ := Option.map_eq_some_iff.mp hcall
      obtain ⟨n, written, disk⟩ := res
      obtain ⟨-, rfl, rfl⟩ : _ ∧ written = file' ∧ disk = d' := by
        obtain ⟨hn, hrest⟩ := Prod.mk.inj hres
        exact ⟨hn, Prod.mk.inj hrest⟩
      have hmoved : vector.pos + data.length = written.position := hholds'.position
      rw [FatDevice.fatWrite_position hwrite, hholds.position] at hmoved
      exact List.length_eq_zero_iff.mp (by omega)
  | read len =>
      obtain ⟨res, hread, hres⟩ := Option.map_eq_some_iff.mp hcall
      obtain ⟨hanswer, -⟩ := Prod.mk.inj hres
      obtain ⟨hcount, hbytes⟩ := Prod.mk.inj hanswer
      have hlength : res.1.length = (vector.read len).1.length := hcount
      rw [ByteVector.length_read, hholds.size] at hlength
      have henough := FatDevice.fatRead_enough hholds.reads hread
      have hin := hholds.inside
      have hposition := hholds.position
      have hle : len ≤ file.size - file.position := by omega
      refine ⟨by rw [hholds.size, hposition]; exact hle, ?_⟩
      obtain ⟨cs, hchain, hfits, hcontents⟩ := hholds.contents
      rw [hcontents, hposition, cutIsZero_take (by omega)]
      by_cases hhead : HeadFits v.sectorSize (headPiece v file.position len) file.position
      · exact fun x _ hlt hcut => absurd hcut (hhead.not_cut hlt)
      · have hbpc := h.bytesPClus_pos
        have hroom : file.position < (file.startingClus :: cs).length * v.bytesPClus := by
          by_contra hge
          refine hhead (.inr (.inr ?_))
          have hzero : headPiece v file.position len = 0 := by
            unfold headPiece
            omega
          have hmod := Nat.mod_lt file.position v.sectorSize_pos
          omega
        have hsmall := hholds.size_lt h.toFatLayout
        obtain ⟨hpiece, hrun⟩ := FatDevice.fatRead_cut h hholds.reads hchain
          (hinside cs hchain).reads hroom (by omega) (by omega) hhead
        obtain rfl := Option.some.inj (hrun.symm.trans hread)
        rw [← read_eq_iff_zeros h ((Nat.div_lt_iff_lt_mul hbpc).mpr hroom) hpiece]
        exact hbytes.trans (hholds.read_eq hchain hle)

def shortVector : ByteVector Byte where
  bytes := (chainBytes floppy oneCluster [shortFile.startingClus]).take shortFile.size
  pos := 0

theorem shortFile_holds : FatHolds floppy shortFile oneCluster shortVector where
  reads := rfl
  writes := rfl
  contents := ⟨[], oneCluster_chain, by decide, by simp only [shortVector]⟩
  position := rfl
  inside := Nat.zero_le _

end LakeOS.Analysis
