import LakeOS.Library.Store

/-!
# Nibbles of a byte store

A store of bytes seen as one of half-bytes, the low half of each byte first.  A field that
does not begin or end at a byte is a run of nibbles, and a word that is saved puts its digits
to base sixteen there.
-/

set_option autoImplicit false

namespace LakeOS.Library

/-- The digit of a number to base sixteen. -/
def hexDigit (v j : ℕ) : ℕ := v / 16 ^ j % 16

theorem hexDigit_zero (j : ℕ) : hexDigit 0 j = 0 := by
  simp [hexDigit]

namespace Store

variable {m m' : Store Byte} {a k n x : ℕ}

/-- The half of a byte. -/
def nibble (m : Store Byte) (n : ℕ) : ℕ := hexDigit (m (n / 2)).toNat (n % 2)

theorem nibble_lt (m : Store Byte) (n : ℕ) : m.nibble n < 16 := Nat.mod_lt _ (by decide)

theorem nibble_congr (h : m' (n / 2) = m (n / 2)) : m'.nibble n = m.nibble n := by
  rw [nibble, nibble, h]

/-- A byte is its two nibbles. -/
theorem toNat_eq_nibbles (m : Store Byte) (x : ℕ) :
    (m x).toNat = m.nibble (2 * x) + 16 * m.nibble (2 * x + 1) := by
  have hlt := (m x).isLt
  have hlow : 2 * x / 2 = x ∧ 2 * x % 2 = 0 := by omega
  have hhigh : (2 * x + 1) / 2 = x ∧ (2 * x + 1) % 2 = 1 := by omega
  simp only [nibble, hexDigit, hlow, hhigh, Nat.pow_zero, Nat.pow_one, Nat.div_one]
  omega

theorem getElem_leBytes {i v : ℕ} (h : i < (leBytes k v).length) :
    ((leBytes k v)[i]).toNat = v / 256 ^ i % 256 := by
  induction k generalizing v i with
  | zero => simp at h
  | succ k ih =>
    cases i with
    | zero => simp [leBytes]
    | succ i =>
      have hi : i < (leBytes k (v / 256)).length := by simpa [leBytes] using h
      have hdiv : v / 256 / 256 ^ i = v / 256 ^ (i + 1) := by
        rw [Nat.div_div_eq_div_mul, Nat.pow_succ, Nat.mul_comm]
      simp only [leBytes, List.getElem_cons_succ]
      rw [ih hi, hdiv]

/-- **A word that is saved** is the run of its digits. -/
theorem nibble_save (m : Store Byte) (k a v n : ℕ) : (m.save k a v).nibble n =
    if 2 * a ≤ n ∧ n < 2 * (a + k) then hexDigit v (n - 2 * a) else m.nibble n := by
  by_cases hin : 2 * a ≤ n ∧ n < 2 * (a + k)
  · have hlt : n / 2 - a < (leBytes k v).length := by
      rw [length_leBytes]
      omega
    rw [if_pos hin, nibble, save, write_of_mem m _ (by omega) (by rw [length_leBytes]; omega),
      getElem_leBytes hlt]
    have hsum : n - 2 * a = 2 * (n / 2 - a) + n % 2 := by omega
    rw [hsum]
    generalize n / 2 - a = i
    have hpow : 16 ^ (2 * i + n % 2) = 256 ^ i * 16 ^ (n % 2) := by
      rw [Nat.pow_add, Nat.pow_mul]
    unfold hexDigit
    rw [hpow, ← Nat.div_div_eq_div_mul]
    generalize v / 256 ^ i = w
    obtain hhalf | hhalf := Nat.mod_two_eq_zero_or_one n
    · rw [hhalf]
      omega
    · rw [hhalf]
      omega
  · rw [if_neg hin]
    apply nibble_congr
    apply save_of_notMem
    omega

/-- A word of two bytes is four nibbles. -/
theorem load_two_eq_nibbles (m : Store Byte) (a : ℕ) : m.load 2 a =
    m.nibble (2 * a) + 16 * m.nibble (2 * a + 1) + 256 * m.nibble (2 * a + 2) +
      4096 * m.nibble (2 * a + 3) := by
  have hload : m.load 2 a = (m a).toNat + 256 * (m (a + 1)).toNat := by
    simp [load, read, leValue, List.range_succ]
  rw [hload, toNat_eq_nibbles, toNat_eq_nibbles, show 2 * (a + 1) = 2 * a + 2 by omega,
    show 2 * a + 2 + 1 = 2 * a + 3 from rfl]
  omega

/-- **Steps that each put a digit at the nibble**, or leave it, in a row. -/
theorem nibble_foldl {ι : Type} {f : Store Byte → ι → Store Byte} {puts : ι → Prop}
    [DecidablePred puts] (hf : ∀ m i, (f m i).nibble n = if puts i then x else m.nibble n)
    (is : List ι) (m : Store Byte) :
    (is.foldl f m).nibble n = if ∃ i ∈ is, puts i then x else m.nibble n := by
  induction is generalizing m with
  | nil => simp
  | cons i is ih =>
    rw [List.foldl_cons, ih, hf]
    by_cases hrest : ∃ i ∈ is, puts i
    · obtain ⟨i', hi', hin⟩ := hrest
      rw [if_pos ⟨i', hi', hin⟩, if_pos ⟨i', List.mem_cons_of_mem i hi', hin⟩]
    · rw [if_neg hrest]
      by_cases hin : puts i
      · rw [if_pos hin, if_pos ⟨i, List.mem_cons_self, hin⟩]
      · rw [if_neg hin, if_neg]
        rintro ⟨i', hi', hin'⟩
        rcases List.mem_cons.mp hi' with rfl | hi'
        · exact hin hin'
        · exact hrest ⟨i', hi', hin'⟩

end Store

end LakeOS.Library
