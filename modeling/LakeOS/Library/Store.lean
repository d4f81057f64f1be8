import Mathlib.Data.List.GetD
import Mathlib.Tactic.Ring
import Mathlib.Tactic.Linarith

/-!
# Byte stores

A store is a total map from addresses to cells.  `read` takes a run of cells out of
it and `write` puts one back; the rules below say how the two compose: a run reads
back as it was written (`read_write_self`), a disjoint run is unaffected
(`read_write_disjoint`), and consecutive runs glue together (`read_add`,
`write_append`).

The second half is about little-endian words: `leBytes k v` is the `k`-byte
encoding of `v`, `leValue` decodes it, and `load`/`save` are the word accesses the
encoding induces on a store of bytes.
-/

set_option autoImplicit false

namespace LakeOS.Library

/-- A byte of memory or of a disk. -/
abbrev Byte := BitVec 8

/-- A store: every address holds a cell. -/
abbrev Store (β : Type) := ℕ → β

namespace Store

variable {β : Type}

/-- The `n` cells from address `a` on. -/
def read (m : Store β) (a n : ℕ) : List β :=
  (List.range n).map fun i => m (a + i)

/-- The store with the cells from address `a` on replaced by `bs`. -/
def write (m : Store β) (a : ℕ) (bs : List β) : Store β := fun x =>
  if a ≤ x then bs.getD (x - a) (m x) else m x

@[simp] theorem length_read (m : Store β) (a n : ℕ) : (m.read a n).length = n := by
  simp [read]

@[simp] theorem getElem_read (m : Store β) (a n i : ℕ) (h : i < (m.read a n).length) :
    (m.read a n)[i] = m (a + i) := by
  simp [read]

@[simp] theorem read_zero (m : Store β) (a : ℕ) : m.read a 0 = [] := rfl

theorem read_eq_iff (m : Store β) (a n : ℕ) (bs : List β) :
    m.read a n = bs ↔ bs.length = n ∧ ∀ i (h : i < bs.length), m (a + i) = bs[i] := by
  constructor
  · rintro rfl
    exact ⟨length_read m a n, fun i h => (getElem_read m a n i h).symm⟩
  · rintro ⟨hlen, hcell⟩
    refine List.ext_getElem (by simp [hlen]) fun i _ h => ?_
    rw [getElem_read]
    exact hcell i h

theorem read_congr {m m' : Store β} {a n : ℕ} (h : ∀ x, a ≤ x → x < a + n → m' x = m x) :
    m'.read a n = m.read a n := by
  refine List.map_congr_left fun i hi => h _ (by omega) ?_
  have := List.mem_range.mp hi
  omega

theorem read_add (m : Store β) (a n k : ℕ) :
    m.read a (n + k) = m.read a n ++ m.read (a + n) k := by
  simp [read, List.range_add, Nat.add_assoc, Function.comp_def]

theorem write_of_lt (m : Store β) {a x : ℕ} (bs : List β) (h : x < a) :
    m.write a bs x = m x := by
  simp [write, Nat.not_le.mpr h]

theorem write_of_ge (m : Store β) {a x : ℕ} (bs : List β) (h : a + bs.length ≤ x) :
    m.write a bs x = m x := by
  simp only [write]
  split
  · exact List.getD_eq_default _ _ (by omega)
  · rfl

theorem write_of_notMem (m : Store β) {a x : ℕ} (bs : List β)
    (h : x < a ∨ a + bs.length ≤ x) : m.write a bs x = m x :=
  h.elim (write_of_lt m bs) (write_of_ge m bs)

theorem write_add (m : Store β) (a : ℕ) (bs : List β) (i : ℕ) (h : i < bs.length) :
    m.write a bs (a + i) = bs[i] := by
  simp [write, h]

theorem write_of_mem (m : Store β) {a x : ℕ} (bs : List β) (h : a ≤ x)
    (h' : x - a < bs.length) : m.write a bs x = bs[x - a] := by
  simp [write, h, h']

@[simp] theorem write_nil (m : Store β) (a : ℕ) : m.write a [] = m := by
  funext x; simp [write]

/-- **A run reads back as it was written.** -/
theorem read_write_self (m : Store β) (a : ℕ) (bs : List β) :
    (m.write a bs).read a bs.length = bs :=
  (read_eq_iff _ _ _ _).mpr ⟨rfl, fun i h => write_add m a bs i h⟩

/-- INTERNAL: what is there is stored. -/
theorem write_of_read (m : Store β) {a : ℕ} {bs : List β} (h : m.read a bs.length = bs) :
    m.write a bs = m := by
  obtain ⟨-, hcell⟩ := (read_eq_iff m a bs.length bs).mp h
  funext x
  by_cases hx : a ≤ x ∧ x < a + bs.length
  · rw [write_of_mem m bs hx.1 (by omega), ← hcell _ (by omega), Nat.add_sub_of_le hx.1]
  · exact write_of_notMem m bs (by omega)

/-- **A disjoint run is unaffected by a write.** -/
theorem read_write_disjoint (m : Store β) {a b n : ℕ} (bs : List β)
    (h : a + n ≤ b ∨ b + bs.length ≤ a) : (m.write b bs).read a n = m.read a n :=
  read_congr fun _ _ _ => write_of_notMem m bs (by omega)

theorem write_append (m : Store β) (a : ℕ) (bs cs : List β) :
    m.write a (bs ++ cs) = (m.write a bs).write (a + bs.length) cs := by
  funext x
  by_cases h₁ : a ≤ x ∧ x < a + bs.length
  · rw [write_of_lt _ _ h₁.2, write_of_mem m _ h₁.1 (by simp; omega),
      write_of_mem m _ h₁.1 (by omega), List.getElem_append_left]
  · by_cases h₂ : a + bs.length ≤ x ∧ x < a + bs.length + cs.length
    · rw [write_of_mem _ _ h₂.1 (by omega), write_of_mem m _ (by omega) (by simp; omega),
        List.getElem_append_right (by omega)]
      congr 1
      omega
    · rw [write_of_notMem m _ (by simp; omega), write_of_notMem _ cs (by omega),
        write_of_notMem m bs (by omega)]

theorem write_comm (m : Store β) {a b : ℕ} (bs cs : List β)
    (h : a + bs.length ≤ b ∨ b + cs.length ≤ a) :
    (m.write a bs).write b cs = (m.write b cs).write a bs := by
  funext x
  by_cases ha : a ≤ x ∧ x < a + bs.length
  · rw [write_of_notMem _ cs (by omega), write_of_mem m bs ha.1 (by omega),
      write_of_mem _ bs ha.1 (by omega)]
  · rw [write_of_notMem _ bs (by omega)]
    by_cases hb : b ≤ x ∧ x < b + cs.length
    · rw [write_of_mem _ cs hb.1 (by omega), write_of_mem m cs hb.1 (by omega)]
    · rw [write_of_notMem _ cs (by omega), write_of_notMem m bs (by omega),
        write_of_notMem m cs (by omega)]

/-- Staging a run in a scratch store and writing part of it back is a plain write. -/
theorem write_patch (m t : Store β) {a n off : ℕ} (bs : List β) (h : off + bs.length ≤ n) :
    m.write a (((t.write 0 (m.read a n)).write off bs).read 0 n) = m.write (a + off) bs := by
  funext x
  by_cases hx : a ≤ x ∧ x < a + n
  · rw [write_of_mem m _ hx.1 (by simp; omega), getElem_read, Nat.zero_add]
    by_cases hb : a + off ≤ x ∧ x < a + off + bs.length
    · rw [write_of_mem _ bs (by omega) (by omega), write_of_mem m bs hb.1 (by omega)]
      congr 1
      omega
    · rw [write_of_notMem _ bs (by omega), write_of_notMem m bs (by omega),
        write_of_mem t _ (Nat.zero_le _) (by simp; omega), getElem_read]
      congr 1
      omega
  · rw [write_of_notMem m _ (by simp; omega), write_of_notMem m bs (by omega)]

/-- Part of a staged run is part of the run. -/
theorem read_patch (m t : Store β) {a n off k : ℕ} (h : off + k ≤ n) :
    (t.write 0 (m.read a n)).read off k = m.read (a + off) k := by
  refine (read_eq_iff _ _ _ _).mpr ⟨length_read _ _ _, fun i hi => ?_⟩
  rw [length_read] at hi
  rw [write_of_mem t _ (Nat.zero_le _) (by simp; omega), getElem_read, getElem_read]
  congr 1
  omega

end Store

/-! ## Little-endian words -/

/-- The `k` bytes of `v`, least significant first. -/
def leBytes : ℕ → ℕ → List Byte
  | 0, _ => []
  | k + 1, v => BitVec.ofNat 8 v :: leBytes k (v / 256)

/-- The number a little-endian byte string stands for. -/
def leValue : List Byte → ℕ
  | [] => 0
  | b :: bs => b.toNat + 256 * leValue bs

@[simp] theorem length_leBytes (k v : ℕ) : (leBytes k v).length = k := by
  induction k generalizing v with
  | zero => rfl
  | succ k ih => simp [leBytes, ih]

theorem leValue_leBytes (k v : ℕ) : leValue (leBytes k v) = v % 256 ^ k := by
  induction k generalizing v with
  | zero => simp [leBytes, leValue, Nat.mod_one]
  | succ k ih =>
      rw [leBytes, leValue, ih, BitVec.toNat_ofNat, pow_succ' 256 k, Nat.mod_mul]

theorem leBytes_leValue (bs : List Byte) : leBytes bs.length (leValue bs) = bs := by
  induction bs with
  | nil => rfl
  | cons b bs ih =>
      have hb := b.isLt
      have hlow : BitVec.ofNat 8 (b.toNat + 256 * leValue bs) = b := by
        rw [← BitVec.toNat_inj, BitVec.toNat_ofNat]
        omega
      have hhigh : (b.toNat + 256 * leValue bs) / 256 = leValue bs := by omega
      rw [List.length_cons, leValue, leBytes, hlow, hhigh, ih]

theorem leValue_lt (bs : List Byte) : leValue bs < 256 ^ bs.length := by
  induction bs with
  | nil => simp [leValue]
  | cons b bs ih =>
      have hb := b.isLt
      simp only [leValue, List.length_cons, pow_succ']
      omega

namespace Store

/-- The `k`-byte word at address `a`. -/
def load (m : Store Byte) (k a : ℕ) : ℕ := leValue (m.read a k)

/-- The store with the `k`-byte word at address `a` set to `v`. -/
def save (m : Store Byte) (k a v : ℕ) : Store Byte := m.write a (leBytes k v)

theorem load_lt (m : Store Byte) (k a : ℕ) : m.load k a < 256 ^ k := by
  have := leValue_lt (m.read a k)
  simpa [load] using this

theorem load_save_self (m : Store Byte) (k a v : ℕ) :
    (m.save k a v).load k a = v % 256 ^ k := by
  have h := read_write_self m a (leBytes k v)
  rw [length_leBytes] at h
  rw [load, save, h, leValue_leBytes]

theorem load_save_disjoint (m : Store Byte) {k j a b v : ℕ} (h : a + j ≤ b ∨ b + k ≤ a) :
    (m.save k b v).load j a = m.load j a := by
  rw [load, save, read_write_disjoint m _ (by simpa using h), load]

theorem save_of_notMem (m : Store Byte) {k a v x : ℕ} (h : x < a ∨ a + k ≤ x) :
    m.save k a v x = m x :=
  write_of_notMem m _ (by simpa using h)

theorem save_comm (m : Store Byte) {k j a b v w : ℕ} (h : a + k ≤ b ∨ b + j ≤ a) :
    (m.save k a v).save j b w = (m.save j b w).save k a v :=
  write_comm m _ _ (by simpa using h)

/-- A word that is loaded and saved is a run of bytes copied. -/
theorem save_load (m m' : Store Byte) (k a b : ℕ) :
    m'.save k a (m.load k b) = m'.write a (m.read b k) := by
  have h := leBytes_leValue (m.read b k)
  rw [length_read] at h
  rw [save, load, h]

/-- The second of two words saved at one address stays. -/
theorem save_save (m : Store Byte) (k a v w : ℕ) : (m.save k a v).save k a w = m.save k a w := by
  funext x
  by_cases hx : a ≤ x ∧ x < a + k
  · unfold save
    rw [write_of_mem _ _ hx.1 (by rw [length_leBytes]; omega),
      write_of_mem m _ hx.1 (by rw [length_leBytes]; omega)]
  · rw [save_of_notMem _ (by omega), save_of_notMem m (by omega), save_of_notMem m (by omega)]

theorem load_congr {m m' : Store Byte} {k a : ℕ} (h : ∀ x, a ≤ x → x < a + k → m' x = m x) :
    m'.load k a = m.load k a := by
  rw [load, load, read_congr h]

end Store

end LakeOS.Library
