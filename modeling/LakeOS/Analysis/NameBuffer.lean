import LakeOS.Analysis.DirChanges
import LakeOS.Model.FatNames

/-!
# The buffer of a stored name

`FAT_conv_fname` is given eleven bytes of a directory entry.  Each of its loops writes a run
of consecutive bytes; the loop of the extension is bounded by the index into the name, and
runs over the end of the buffer when the base is short and the name long.
-/

set_option autoImplicit false

namespace LakeOS.Analysis

open LakeOS.Library LakeOS.Model

/-! ## The loops -/

variable {name : CString} {l : ℤ}

theorem charAt_of_lt {i : ℕ} (h : i < name.length) : charAt name i = name[i] := by
  simp [charAt, h]

theorem toInt_of_lt {v : ℕ} (h : v < 2 ^ 31) : toInt v = v := by
  unfold toInt
  omega

theorem toInt_neg {v : ℕ} (h : 2 ^ 31 ≤ v) (hlt : v < 2 ^ 32) : toInt v < 0 := by
  unfold toInt
  omega

/-- INTERNAL: a cell that is the same stays so. -/
theorem write_congr {m m' : Store Byte} {a x : ℕ} {run : List Byte} (h : m x = m' x) :
    m.write a run x = m'.write a run x := by
  simp [Store.write, h]

/-- INTERNAL: a character and the run behind it. -/
theorem write_cons (m : Store Byte) (out i : ℕ) (c : Byte) (run : List Byte) :
    (m.write (out + i) [c]).write (out + (i + 1)) run = m.write (out + i) (c :: run) := by
  rw [show c :: run = [c] ++ run from rfl, Store.write_append]
  rfl

/-- INTERNAL: the base is copied up to the dot.
SRCLINE: fat.c:597-598 -/
theorem fatConvBase_eq (out : ℕ) {fuel i : ℕ} (hfuel : 8 ≤ i + fuel) (m : Store Byte) :
    fatConvBase name name.length out fuel i m =
      (i + (((name.take 8).drop i).takeWhile (· != dot)).length,
        m.write (out + i) (((name.take 8).drop i).takeWhile (· != dot))) := by
  induction fuel generalizing i m with
  | zero =>
    have hdrop : (name.take 8).drop i = [] := List.drop_eq_nil_of_le (by simp; omega)
    simp [fatConvBase, hdrop]
  | succ fuel ih =>
    rw [fatConvBase]
    by_cases hin : i < name.length ∧ i < 8
    · have hcons : (name.take 8).drop i = name[i] :: (name.take 8).drop (i + 1) := by
        rw [List.drop_eq_getElem_cons (by simp; omega)]
        simp
      rw [charAt_of_lt hin.1, hcons]
      by_cases hdot : name[i] = dot
      · simp [hdot]
      · have hne : (name[i] != dot) = true := bne_iff_ne.mpr hdot
        rw [if_pos ⟨by exact_mod_cast hin.1, hin.2, hdot⟩, ih (by omega),
          List.takeWhile_cons, if_pos hne, write_cons]
        congr 1
        rw [List.length_cons]
        omega
    · have hdrop : (name.take 8).drop i = [] := List.drop_eq_nil_of_le (by simp; omega)
      rw [if_neg (fun h => hin ⟨by exact_mod_cast h.1, h.2.1⟩), hdrop]
      simp

/-- INTERNAL: blanks up to the bound.
SRCLINE: fat.c:601-602, fat.c:609-610 -/
theorem fatConvPad_eq (bound out : ℕ) {fuel j : ℕ} (hfuel : bound ≤ j + fuel) (m : Store Byte) :
    fatConvPad bound out fuel j m =
      (j + (bound - j), m.write (out + j) (List.replicate (bound - j) blank)) := by
  induction fuel generalizing j m with
  | zero =>
    have hzero : bound - j = 0 := by omega
    simp [fatConvPad, hzero]
  | succ fuel ih =>
    rw [fatConvPad]
    by_cases hlt : j < bound
    · have hsucc : bound - j = bound - (j + 1) + 1 := by omega
      rw [if_pos hlt, ih (by omega), hsucc, List.replicate_succ, write_cons]
      congr 1
      omega
    · have hzero : bound - j = 0 := by omega
      rw [if_neg hlt, hzero]
      simp

/-- INTERNAL: the extension is copied up to the eleventh character of the name.
SRCLINE: fat.c:606-607 -/
theorem fatConvExt_eq (out : ℕ) {fuel i : ℕ} (hfuel : 11 ≤ i + fuel) (j : ℕ) (m : Store Byte) :
    fatConvExt name name.length out fuel i j m =
      (j + ((name.take 11).drop i).length, m.write (out + j) ((name.take 11).drop i)) := by
  induction fuel generalizing i j m with
  | zero =>
    have hdrop : (name.take 11).drop i = [] := List.drop_eq_nil_of_le (by simp; omega)
    simp [fatConvExt, hdrop]
  | succ fuel ih =>
    rw [fatConvExt]
    by_cases hin : i < name.length ∧ i < 11
    · have hcons : (name.take 11).drop i = name[i] :: (name.take 11).drop (i + 1) := by
        rw [List.drop_eq_getElem_cons (by simp; omega)]
        simp
      rw [charAt_of_lt hin.1, hcons, if_pos ⟨by exact_mod_cast hin.1, hin.2⟩, ih (by omega),
        write_cons]
      congr 1
      rw [List.length_cons]
      omega
    · have hdrop : (name.take 11).drop i = [] := List.drop_eq_nil_of_le (by simp; omega)
      rw [if_neg (fun h => hin ⟨by exact_mod_cast h.1, h.2⟩), hdrop]
      simp

/-! ## The memory -/

theorem charAt_zero (name : CString) : charAt name 0 = dot ↔ name.head? = some dot := by
  cases name with
  | nil => simp [charAt]
  | cons c name => simp [charAt]

/-- **What `FAT_conv_fname` writes** is one run of bytes.
SRCLINE: fat.c:586-611 -/
theorem fatConvFnameAt_eq (hlen : name.length < 2 ^ 31) (out : ℕ) (m : Store Byte) :
    fatConvFnameAt name out m = m.write out (fatConvFname name) := by
  have hl := toInt_of_lt hlen
  unfold fatConvFnameAt fatConvFname
  dsimp only
  rw [hl]
  have hfirst := charAt_zero name
  by_cases hdots : name.head? = some dot ∧ name.length < 3
  · have htake : ((name.length : ℤ) % 2 ^ 32).toNat = name.length := by omega
    have hstart : ((out : ℤ) + name.length).toNat = out + name.length := by omega
    have hrest : (11 - (name.length : ℤ)).toNat = 11 - name.length := by omega
    rw [if_pos ⟨hfirst.mpr hdots.1, by exact_mod_cast hdots.2⟩, if_pos hdots, htake, hstart, hrest,
      List.take_length, Store.write_append]
  · rw [if_neg (fun h => hdots ⟨hfirst.mp h.1, by exact_mod_cast h.2⟩), if_neg hdots,
      fatConvBase_eq out (by decide), fatConvPad_eq 8 out (by dsimp only; omega)]
    dsimp only
    rw [fatConvExt_eq out (by omega), fatConvPad_eq 11 out (by dsimp only; omega)]
    simp only [List.drop_zero, Nat.zero_add, Nat.add_zero, Store.write_append, List.length_append,
      List.length_replicate, Nat.add_assoc]

/-- A string of `2 ^ 31` characters or more has a negative length, and only blanks are
written. -/
theorem fatConvFnameAt_long (hlen : 2 ^ 31 ≤ name.length) (hlt : name.length < 2 ^ 32)
    (hdot : name.head? ≠ some dot) (out : ℕ) (m : Store Byte) :
    fatConvFnameAt name out m = m.write out (List.replicate 11 blank) := by
  have hneg := toInt_neg hlen hlt
  have hbase : fatConvBase name (toInt name.length) out 8 0 m = (0, m) := by
    rw [fatConvBase, if_neg]
    omega
  have hext : ∀ j m, fatConvExt name (toInt name.length) out 11 1 j m = (j, m) := by
    intro j m
    rw [fatConvExt, if_neg]
    omega
  unfold fatConvFnameAt
  dsimp only
  rw [if_neg (fun h => hdot ((charAt_zero name).mp h.1)), hbase,
    fatConvPad_eq 8 out (by omega), hext, fatConvPad_eq 11 out (by omega)]
  exact (Store.write_append m out (List.replicate 8 blank) (List.replicate 3 blank)).symm

/-- The entry that `FAT_create` builds is the one in memory that the name is converted into.
SRCLINE: fat.c:837-847 -/
theorem makeEntry_fatConvFname (hlen : name.length < 2 ^ 31)
    (attributes time date cluster : ℕ) :
    (fatConvFnameAt name 0 fun x =>
      (makeEntry [] attributes time date cluster).getD x 0).read 0 sizeofShortDirEntry =
      makeEntry (fatConvFname name) attributes time date cluster := by
  have hle : (fatConvFname name).length ≤ 32 := by
    rw [length_fatConvFname]
    omega
  have hover : makeEntry (fatConvFname name) attributes time date cluster = fatConvFname name ++
      (makeEntry [] attributes time date cluster).drop (fatConvFname name).length := rfl
  have hlength : (makeEntry [] attributes time date cluster).length = 32 :=
    length_makeEntry (Nat.zero_le _) _ _ _ _
  rw [fatConvFnameAt_eq hlen, hover]
  generalize makeEntry [] attributes time date cluster = entry at *
  generalize fatConvFname name = stored at *
  rw [Store.read_eq_iff]
  refine ⟨by simp [hlength, hle], fun i hi => ?_⟩
  simp only [List.length_append, List.length_drop] at hi
  rw [Nat.zero_add]
  by_cases hin : i < stored.length
  · rw [Store.write_of_mem _ _ (Nat.zero_le i) (by omega), List.getElem_append_left hin]
    rfl
  · rw [Store.write_of_ge _ _ (by omega), List.getD_eq_getElem _ _ (by omega),
      List.getElem_append_right (by omega), List.getElem_drop]
    congr 1
    omega

/-! ## The buffer -/

/-- Exactly the eleven bytes from `out` on are written, and the byte of the attributes that
follows them in a directory entry is kept. -/
structure StaysInBuffer (name : CString) (out : ℕ) : Prop where
  inside : ∀ m m' : Store Byte, ∀ x, out ≤ x → x < out + 11 →
    fatConvFnameAt name out m x = fatConvFnameAt name out m' x
  outside : ∀ m : Store Byte, ∀ x, x < out ∨ out + 11 ≤ x → fatConvFnameAt name out m x = m x
  attributes : ∀ m : Store Byte,
    entryAttributes ((fatConvFnameAt name out m).read out sizeofShortDirEntry) =
      entryAttributes (m.read out sizeofShortDirEntry)

/-- The base has seven characters or more, or no more than four are left behind it.  A string
with a negative length must not begin with a dot. -/
def FitsBuffer (name : CString) : Prop :=
  if name.length < 2 ^ 31 then 7 ≤ (baseOf name).length ∨ name.length ≤ (baseOf name).length + 4
  else name.head? ≠ some dot

/-- INTERNAL: a run of eleven bytes stays in the buffer. -/
theorem staysInBuffer_of_write {out : ℕ} {run : List Byte} (hrun : run.length = 11)
    (hwrite : ∀ m, fatConvFnameAt name out m = m.write out run) : StaysInBuffer name out := by
  have houtside : ∀ m : Store Byte, ∀ x, x < out ∨ out + 11 ≤ x →
      fatConvFnameAt name out m x = m x := by
    intro m x hx
    rw [hwrite, Store.write_of_notMem]
    omega
  refine ⟨?_, houtside, ?_⟩
  · intro m m' x hx hx'
    rw [hwrite, hwrite, Store.write_of_mem m run hx (by omega),
      Store.write_of_mem m' run hx (by omega)]
  · intro m
    unfold entryAttributes entryField sizeofShortDirEntry
    rw [drop_take_read _ (by decide), drop_take_read _ (by decide)]
    congr 1
    apply Store.read_congr
    intro x hx _
    exact houtside m x (.inr hx)

/-- INTERNAL: the byte behind the buffer is not kept if it does not count. -/
theorem not_staysInBuffer {out : ℕ}
    (hsame : ∀ m m' : Store Byte,
      fatConvFnameAt name out m (out + 11) = fatConvFnameAt name out m' (out + 11)) :
    ¬ StaysInBuffer name out := by
  intro h
  have hzero := h.outside (fun _ => 0) (out + 11) (.inr (Nat.le_refl _))
  have hone := h.outside (fun _ => 1) (out + 11) (.inr (Nat.le_refl _))
  rw [hsame _ fun _ => 1, hone] at hzero
  exact absurd hzero (by decide)

/-- INTERNAL: a run of more than eleven bytes does not. -/
theorem not_staysInBuffer_of_long (hlen : name.length < 2 ^ 31)
    (hlong : 11 < (fatConvFname name).length) (out : ℕ) : ¬ StaysInBuffer name out := by
  apply not_staysInBuffer
  intro m m'
  rw [fatConvFnameAt_eq hlen, fatConvFnameAt_eq hlen,
    Store.write_of_mem m _ (by omega) (by omega), Store.write_of_mem m' _ (by omega) (by omega)]

/-- **`FAT_conv_fname` stays in its buffer** if the name fits, whatever the memory holds.
SRCLINE: fat.c:586-611, fat.c:837-849 -/
theorem staysInBuffer_iff {name : CString} (hlt : name.length < 2 ^ 32) (out : ℕ) :
    StaysInBuffer name out ↔ FitsBuffer name := by
  unfold FitsBuffer
  by_cases hlen : name.length < 2 ^ 31
  · have hlength := length_fatConvFname name
    rw [if_pos hlen]
    constructor
    · intro h
      by_contra hfits
      exact not_staysInBuffer_of_long hlen (by omega) out h
    · intro hfits
      exact staysInBuffer_of_write (by omega) (fatConvFnameAt_eq hlen out)
  · have hlong : 2 ^ 31 ≤ name.length := by omega
    rw [if_neg hlen]
    constructor
    · intro h hdot
      -- `memcpy` has copied the whole string, which is longer than the buffer
      refine not_staysInBuffer (fun m m' => ?_) h
      have hneg := toInt_neg hlong hlt
      have hall : (toInt name.length % 2 ^ 32).toNat = name.length := by
        unfold toInt
        omega
      have hspecial : charAt name 0 = dot ∧ toInt name.length < 3 :=
        ⟨(charAt_zero name).mpr hdot, by omega⟩
      unfold fatConvFnameAt
      dsimp only
      rw [if_pos hspecial, if_pos hspecial, hall, List.take_length]
      apply write_congr
      rw [Store.write_of_mem m _ (by omega) (by omega),
        Store.write_of_mem m' _ (by omega) (by omega)]
    · intro hdot
      exact staysInBuffer_of_write (by simp) (fatConvFnameAt_long hlong hlt hdot out)

/-- `A.BCDEFGH`. -/
def longExtension : CString := [0x41, 0x2E, 0x42, 0x43, 0x44, 0x45, 0x46, 0x47, 0x48]

/-- `README.TXT` in a buffer of the kernel. -/
theorem staysInBuffer_readme :
    let name : CString := [0x52, 0x45, 0x41, 0x44, 0x4D, 0x45, 0x2E, 0x54, 0x58, 0x54]
    name.length < 2 ^ 32 ∧ (StaysInBuffer name 0xC0100000 ↔ FitsBuffer name) :=
  ⟨by decide, staysInBuffer_iff (by decide) 0xC0100000⟩

/-- The attributes of a new file of that name are `E`. -/
theorem longExtension_overwrites :
    entryAttributes (makeEntry (fatConvFname longExtension) 0x20 0 0 2) = 0x45 ∧
      ¬ StaysInBuffer longExtension 0xC0100000 := by
  constructor
  · decide
  · exact not_staysInBuffer_of_long (by decide) (by decide) 0xC0100000

end LakeOS.Analysis
