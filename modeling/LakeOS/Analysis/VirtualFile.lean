import LakeOS.Library.ByteVector
import LakeOS.Model.Vfm

/-!
# Virtual files as byte vectors

A virtual file takes its size from the header of its heap block, and that counts the
header and is at least the size of a free node.  So the first write that is not empty
leaves a file whose size is not the number of bytes written.

The calls on a file are compared with those on a byte vector: they answer the same, the
file has the size, the bytes and the position of the vector after each of them, and a
write stays inside the payload of the block.
-/

set_option autoImplicit false

namespace LakeOS.Analysis

open LakeOS.Library LakeOS.Model

/-! ## The header of a new block -/

section

variable {m m' : Memory} {bytes stop fuel iter p n : ℕ}

/-- A successful search returns the address behind the header it has just written. -/
theorem findFirstFitLoop_header (hiter : iter < 2 ^ 32)
    (h : findFirstFitLoop m bytes stop fuel iter = some (p, m')) :
    p = 0 ∨ ∃ (ret : ℕ) (m₁ : Memory),
      ret < 2 ^ 32 ∧ p = add32 ret sizeofSizeT ∧ m' = m₁.save 4 ret bytes := by
  induction fuel generalizing iter with
  | zero => simp [findFirstFitLoop] at h
  | succ fuel ih =>
      rw [findFirstFitLoop] at h
      split at h
      · simp only [carveTail, Option.some.injEq, Prod.mk.injEq] at h
        obtain ⟨rfl, rfl⟩ := h
        exact .inr ⟨_, _, add32_lt _ _, rfl, rfl⟩
      · split at h
        · simp only [takeWhole, Option.some.injEq, Prod.mk.injEq] at h
          obtain ⟨rfl, rfl⟩ := h
          exact .inr ⟨_, _, hiter, rfl, rfl⟩
        · split at h
          · simp only [Option.some.injEq, Prod.mk.injEq] at h
            exact .inl h.1.symm
          · exact ih (blockNext_lt m iter) h

theorem kmalloc_header (h : kmalloc m n = some (p, m')) :
    p = 0 ∨ ∃ (ret : ℕ) (m₁ : Memory),
      ret < 2 ^ 32 ∧ p = add32 ret sizeofSizeT ∧ m' = m₁.save 4 ret (allocBytes n) :=
  findFirstFitLoop_header (blockNext_lt m heapStart) h

theorem kmalloc_lt (h : kmalloc m n = some (p, m')) : p < 2 ^ 32 := by
  obtain rfl | ⟨ret, _, _, rfl, _⟩ := kmalloc_header h
  · exact Nat.two_pow_pos 32
  · exact add32_lt _ _

theorem allocBytes_lt : allocBytes n < 2 ^ 32 := by
  have := add32_lt n sizeofSizeT
  unfold allocBytes sizeofFreeBlock at *
  split <;> omega

theorem ksize_of_header {ret : ℕ} {m₁ : Memory} (hret : ret < 2 ^ 32)
    (hp : add32 ret sizeofSizeT ≠ 0) (hbytes : bytes < 2 ^ 32) :
    ksize (m₁.save 4 ret bytes) (add32 ret sizeofSizeT) = bytes := by
  have hsub : sub32 (add32 ret sizeofSizeT) sizeofSizeT = ret := by
    unfold sub32 add32 sizeofSizeT
    omega
  rw [ksize, if_neg hp, hsub, Store.load_save_self, show 256 ^ 4 = 2 ^ 32 from rfl,
    Nat.mod_eq_of_lt hbytes]

theorem ksize_kmalloc (h : kmalloc m n = some (p, m')) (hp : p ≠ 0) :
    ksize m' p = allocBytes n := by
  obtain rfl | ⟨ret, m₁, hret, rfl, rfl⟩ := kmalloc_header h
  · exact absurd rfl hp
  · exact ksize_of_header hret hp allocBytes_lt

/-- Bytes that leave room for a header do not reach it. -/
theorem ksize_write {data : List Byte} (hp : p < 2 ^ 32)
    (hdata : data.length + sizeofSizeT < 2 ^ 32) : ksize (m.write p data) p = ksize m p := by
  unfold ksize
  split
  next => rfl
  next =>
    apply Store.load_congr
    intro x hlow hhigh
    apply Store.write_of_notMem
    unfold sub32 sizeofSizeT at *
    omega

end

/-! ## Calls on a file -/

/-- A call of an operation on a file. -/
inductive VfmCall where
  | open (mode : ℕ)
  | write (data : List Byte) (time : RtcTime)
  | seek (position : ℕ)
  | read (bytes : ℕ)
  | fstat

/-- What a caller gets: a number and bytes. -/
abbrev VfmAnswer := ℕ × List Byte

/-- The call on the file, `none` if it does not return. -/
def vfmCall (s : Vfm) : VfmCall → Option (VfmAnswer × Vfm)
  | .open mode => some ((0, []), vfmOpen mode s)
  | .write data time => (vfmWrite data time s).map fun res => ((res.1, []), res.2)
  | .seek position => some ((0, []), vfmSeek position s)
  | .read bytes => some (vfmRead bytes s)
  | .fstat => some (((vfmFstat s).size, []), s)

/-- The call on a byte vector. -/
def vectorCall (v : ByteVector Byte) : VfmCall → VfmAnswer × ByteVector Byte
  | .open _ => ((0, []), v.seek 0)
  | .write data _ => ((data.length, []), v.write data)
  | .seek position => ((0, []), v.seek position)
  | .read bytes => (((v.read bytes).1.length, (v.read bytes).1), (v.read bytes).2)
  | .fstat => ((v.size, []), v)

/-- Counts are 32-bit numbers and a seek stays at most at the end. -/
def VfmCall.Allowed (v : ByteVector Byte) : VfmCall → Prop
  | .open _ => True
  | .write data _ => data.length < 2 ^ 32
  | .seek position => position ≤ v.size
  | .read bytes => bytes < 2 ^ 32
  | .fstat => True

/-- Every call of the sequence is allowed where it is made. -/
def AllAllowed (v : ByteVector Byte) : List VfmCall → Prop
  | [] => True
  | c :: calls => c.Allowed v ∧ AllAllowed (vectorCall v c).2 calls

/-- A write stays inside the payload of the block that the file has when it copies. -/
def WritesPayload (s : Vfm) : VfmCall → Prop
  | .write data _ => data ≠ [] → ∀ grown, vfmGrow data.length s = some grown →
      grown.file.content ≠ 0 ∧
        grown.file.pos + data.length + sizeofSizeT ≤ ksize grown.memory grown.file.content
  | _ => True

/-- The size, the bytes and the position. -/
structure Represents (s : Vfm) (v : ByteVector Byte) : Prop where
  size : (vfmFstat s).size = v.size
  bytes : s.memory.read s.file.content v.size = v.bytes
  pos : s.file.pos = v.pos

/-- The file answers a sequence of calls as the byte vector does, and agrees with it
before, between and after them. -/
def ActsAsVector (s : Vfm) (v : ByteVector Byte) : List VfmCall → Prop
  | [] => Represents s v
  | c :: calls => Represents s v ∧ WritesPayload s c ∧
      ∃ s', vfmCall s c = some ((vectorCall v c).1, s') ∧ ActsAsVector s' (vectorCall v c).2 calls

theorem ActsAsVector.represents {s : Vfm} {v : ByteVector Byte} {calls : List VfmCall}
    (h : ActsAsVector s v calls) : Represents s v := by
  cases calls with
  | nil => exact h
  | cons c calls => exact h.1

/-! ## Files without a block -/

/-- A file that nothing was written to. -/
structure Unwritten (s : Vfm) (v : ByteVector Byte) : Prop where
  content : s.file.content = 0
  pos : s.file.pos = 0
  bytes : v.bytes = []
  vpos : v.pos = 0

section

variable {s : Vfm} {v : ByteVector Byte}

theorem Unwritten.size (h : Unwritten s v) : v.size = 0 := by
  rw [ByteVector.size, h.bytes, List.length_nil]

theorem Unwritten.represents (h : Unwritten s v) : Represents s v where
  size := by rw [h.size, vfmFstat, h.content]; rfl
  bytes := by rw [h.size, h.bytes, Store.read_zero]
  pos := by rw [h.pos, h.vpos]

/-- Only a write that is not empty gives the file a block. -/
theorem Unwritten.call (h : Unwritten s v) {c : VfmCall} (hc : c.Allowed v)
    (hwrite : ∀ data time, c = .write data time → data = []) :
    ∃ s', vfmCall s c = some ((vectorCall v c).1, s') ∧ Unwritten s' (vectorCall v c).2 := by
  have hsize : ksize s.memory s.file.content = 0 := by rw [h.content]; rfl
  cases c with
  | «open» mode => exact ⟨_, rfl, h.content, rfl, h.bytes, rfl⟩
  | write data time =>
      obtain rfl := hwrite data time rfl
      have hgrow : vfmGrow 0 s = some s := by
        rw [vfmGrow, hsize, h.pos]
        rfl
      refine ⟨{ s with
          memory := s.memory.write (s.file.content + s.file.pos) []
          file := { s.file with
            pos := add32 s.file.pos 0
            modified := vfsCurrChrono time } }, ?_, h.content, ?_, ?_, ?_⟩
      · rw [vfmCall, vfmWrite, List.length_nil, hgrow]
        rfl
      · simp [h.pos, add32]
      · simp [vectorCall, ByteVector.write, h.bytes]
      · simp [vectorCall, h.vpos]
  | seek position =>
      have hzero : position = 0 := by
        have hle : position ≤ v.size := hc
        rw [h.size] at hle
        omega
      subst hzero
      exact ⟨_, rfl, h.content, rfl, h.bytes, rfl⟩
  | read bytes =>
      have hread : (v.read bytes).1 = [] := by simp [ByteVector.read, h.bytes]
      have hcsize : (if (0 : ℕ) < add32 0 bytes then sub32 0 0 else bytes) = 0 := by
        have hlt : bytes < 2 ^ 32 := hc
        rw [add32_eq (by omega)]
        split
        · rfl
        · omega
      refine ⟨(vfmRead bytes s).2, ?_, h.content, ?_, h.bytes, ?_⟩
      · rw [vfmCall, vectorCall, hread, vfmRead, hsize, h.pos, hcsize]
        rfl
      · rw [vfmRead, hsize, h.pos, hcsize]
        rfl
      · show v.pos + (v.read bytes).1.length = 0
        rw [hread, h.vpos]
        rfl
  | fstat => exact ⟨s, by rw [vfmCall, vfmFstat, hsize, vectorCall, h.size], h⟩

/-- The block for a write that is not empty is a new one. -/
theorem Unwritten.grow (h : Unwritten s v) {n : ℕ} (hlt : n < 2 ^ 32) (hpos : 0 < n) :
    vfmGrow n s = (kmalloc s.memory n).map fun grown =>
      { s with memory := grown.2, file := { s.file with content := grown.1 } } := by
  have hsize : ksize s.memory s.file.content = 0 := by rw [h.content]; rfl
  rw [vfmGrow, hsize, h.pos, add32_eq (by omega), if_pos (by omega), h.content, kexpand,
    if_pos rfl]

/-- **The first write that is not empty.**  It leaves a file of another size, or writes
outside the block. -/
theorem Unwritten.not_actsAsVector_write (h : Unwritten s v) {data : List Byte}
    (hdata : data ≠ []) (hlen : data.length < 2 ^ 32) (time : RtcTime) (calls : List VfmCall) :
    ¬ ActsAsVector s v (.write data time :: calls) := by
  rintro ⟨-, hpayload, s', hcall, hrest⟩
  have hgrow := h.grow hlen (List.length_pos_iff.mpr hdata)
  cases hmalloc : kmalloc s.memory data.length with
  | none =>
      rw [vfmCall, vfmWrite, hgrow, hmalloc] at hcall
      cases hcall
  | some grown =>
      obtain ⟨p, m⟩ := grown
      rw [hmalloc] at hgrow
      obtain ⟨hp, hinside⟩ := hpayload hdata _ hgrow
      have hheader : ksize m p = allocBytes data.length := ksize_kmalloc hmalloc hp
      have hroom : s.file.pos + data.length + 4 ≤ ksize m p := hinside
      rw [h.pos, hheader] at hroom
      rw [vfmCall, vfmWrite, hgrow] at hcall
      obtain rfl := (Prod.mk.inj (Option.some.inj hcall)).2
      have hlt : p < 2 ^ 32 := kmalloc_lt hmalloc
      have hsmall := allocBytes_lt (n := data.length)
      have hafter : ksize (m.write (p + s.file.pos) data) p = (v.write data).size :=
        hrest.represents.size
      rw [ByteVector.size_write _ _ (by rw [h.vpos]; exact Nat.zero_le _), h.size, h.vpos, h.pos,
        Nat.add_zero, ksize_write hlt (by unfold sizeofSizeT; omega), hheader] at hafter
      omega

/-- A sequence of calls on a file that nothing was written to. -/
theorem Unwritten.actsAsVector_iff (h : Unwritten s v) {calls : List VfmCall}
    (hallowed : AllAllowed v calls) :
    ActsAsVector s v calls ↔ ∀ data time, VfmCall.write data time ∈ calls → data = [] := by
  induction calls generalizing s v with
  | nil => simp [ActsAsVector, h.represents]
  | cons c calls ih =>
      by_cases hc : ∀ data time, c = .write data time → data = []
      · obtain ⟨s', hcall, hnext⟩ := h.call hallowed.1 hc
        have hpayload : WritesPayload s c := by
          cases c with
          | write data time => exact fun hdata => absurd (hc data time rfl) hdata
          | _ => trivial
        have hrest := ih hnext hallowed.2
        constructor
        · rintro ⟨-, -, s'', hcall', hacts⟩ data time hmem
          rw [hcall] at hcall'
          obtain rfl := (Prod.mk.inj (Option.some.inj hcall')).2
          rcases List.mem_cons.mp hmem with rfl | hmem
          · exact hc data time rfl
          · exact hrest.mp hacts data time hmem
        · intro hall
          exact ⟨h.represents, hpayload, s', hcall,
            hrest.mpr fun data time hmem => hall data time (List.mem_cons_of_mem c hmem)⟩
      · push Not at hc
        obtain ⟨data, time, rfl, hdata⟩ := hc
        constructor
        · exact fun hacts => absurd hacts (h.not_actsAsVector_write hdata hallowed.1 time calls)
        · exact fun hall => absurd (hall data time List.mem_cons_self) hdata

end

/-! ## A file that was created -/

/-- The state with the file that `VFM_create` sets up. -/
def createdFile (m : Memory) (startChrono : FileChrono) (attribs : ℕ) : Vfm where
  memory := m
  startChrono := startChrono
  file := vfmNewFile startChrono attribs

theorem createdFile_unwritten (m : Memory) (startChrono : FileChrono) (attribs : ℕ) :
    Unwritten (createdFile m startChrono attribs) ByteVector.empty :=
  ⟨rfl, rfl, rfl, rfl⟩

/-- **A new virtual file is a byte vector as long as nothing is written to it.** -/
theorem virtual_file_is_vector_iff (m : Memory) (startChrono : FileChrono) (attribs : ℕ)
    (calls : List VfmCall) (hallowed : AllAllowed ByteVector.empty calls) :
    ActsAsVector (createdFile m startChrono attribs) ByteVector.empty calls ↔
      ∀ data time, VfmCall.write data time ∈ calls → data = [] :=
  (createdFile_unwritten m startChrono attribs).actsAsVector_iff hallowed

/-- Midnight of a day. -/
def someTime : RtcTime := ⟨2025, 0, 0, 0, 1, 1⟩

/-- Opened, asked for five bytes and then for its size. -/
theorem virtual_file_is_vector_iff_read :
    ActsAsVector (createdFile (kmmInit fun _ => 0) (vfsCurrChrono someTime) 0) ByteVector.empty
      [.open 3, .read 5, .fstat] :=
  (virtual_file_is_vector_iff (kmmInit fun _ => 0) (vfsCurrChrono someTime) 0
    [.open 3, .read 5, .fstat] ⟨trivial, (by decide : 5 < 2 ^ 32), trivial, trivial⟩).mpr
    (by simp)

/-- A new heap serves a small request from the end of its only block. -/
theorem kmalloc_kmmInit (m : Memory) {n : ℕ}
    (h : add32 (allocBytes n) sizeofFreeBlock ≤ heapSize) :
    kmalloc (kmmInit m) n = some (carveTail (kmmInit m) heapStart (allocBytes n)) := by
  show findFirstFitLoop _ _ _ (268435455 + 1) _ = _
  rw [kmmInit_next, findFirstFitLoop, kmmInit_size, if_pos h]

/-- One byte is written to a new file: its size is twelve. -/
theorem virtual_file_one_byte_reports_twelve :
    (∃ s, vfmCall (createdFile (kmmInit fun _ => 0) (vfsCurrChrono someTime) 0)
        (.write [0x41] someTime) = some ((1, []), s) ∧ (vfmFstat s).size = 12) ∧
      ¬ ActsAsVector (createdFile (kmmInit fun _ => 0) (vfsCurrChrono someTime) 0)
        ByteVector.empty [.write [0x41] someTime, .fstat] := by
  refine ⟨?_, (createdFile_unwritten _ _ _).not_actsAsVector_write (by simp) (by decide) _ _⟩
  have hmalloc : kmalloc (kmmInit fun _ => 0) 1 =
      some (carveTail (kmmInit fun _ => 0) heapStart 12) := kmalloc_kmmInit _ (by decide)
  generalize hblock : carveTail (kmmInit fun _ => 0) heapStart 12 = block at hmalloc
  have hp : block.1 = 0xDFFFFFF8 := by
    rw [← hblock, carveTail, blockSize_setSize _ (NodesApart.refl heapStart) (by decide), if_pos rfl,
      kmmInit_size]
    decide
  have hsize : ksize block.2 block.1 = 12 := ksize_kmalloc hmalloc (by rw [hp]; decide)
  refine ⟨⟨block.2.write (block.1 + 0) [0x41], vfsCurrChrono someTime,
    ⟨vfsCurrChrono someTime, block.1, 1, 0, 0⟩⟩, ?_, ?_⟩
  · have hgrow := (createdFile_unwritten (kmmInit fun _ => 0) (vfsCurrChrono someTime) 0).grow
      (n := 1) (by decide) (by decide)
    rw [createdFile, hmalloc] at hgrow
    rw [vfmCall, vfmWrite, createdFile, List.length_singleton, hgrow]
    rfl
  · show ksize (block.2.write (block.1 + 0) [0x41]) block.1 = 12
    rw [Nat.add_zero, ksize_write (by rw [hp]; decide) (by decide), hsize]

end LakeOS.Analysis
