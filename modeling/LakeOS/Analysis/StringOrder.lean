import LakeOS.Analysis.WalkCopy
import LakeOS.Model.Strcmp

/-!
# What order `strcmp` is

The bytes of two strings in memory are compared up to the end of the shorter one.  Where they
differ before, this is the lexicographic order; a string that goes on is equal to its beginning,
so names that are equal to a common beginning can be of either order.
-/

set_option autoImplicit false

namespace LakeOS.Analysis

open LakeOS.Library LakeOS.Model

/-! ## The order of strings -/

/-- The sign of the first difference, where the terminator counts as `0`. -/
def firstDifference : CString → CString → ℤ
  | [], [] => 0
  | [], y :: _ => Int.sign (0 - (y.toNat : ℤ))
  | x :: _, [] => Int.sign ((x.toNat : ℤ) - 0)
  | x :: s, y :: t => if x = y then firstDifference s t else Int.sign (x.toNat - y.toNat)

/-- The laws of the lexicographic order, for the strings `s`, `t` and `u` at `a`, `b` and `c`. -/
structure LexicographicAt (m : Store Byte) (a b c : ℕ) (s t : CString) : Prop where
  equal : strcmpAt m a b = 0 ↔ s = t
  opposite : Int.sign (strcmpAt m a b) = -Int.sign (strcmpAt m b a)
  trans : strcmpAt m a b ≤ 0 → strcmpAt m b c ≤ 0 → strcmpAt m a c ≤ 0
  first : Int.sign (strcmpAt m a b) = firstDifference s t

/-- Neither string goes on behind the other. -/
def NotExtended (s t : CString) : Prop := (s <+: t → s = t) ∧ (t <+: s → s = t)

section

variable {m : Store Byte} {a b : ℕ} {s t u : CString} {x y : Byte}

theorem NotExtended.symm (h : NotExtended s t) : NotExtended t s :=
  ⟨fun hpre => (h.2 hpre).symm, fun hpre => (h.1 hpre).symm⟩

theorem NotExtended.tail (h : NotExtended (x :: s) (x :: t)) : NotExtended s t := by
  constructor
  · exact fun hpre => List.tail_eq_of_cons_eq (h.1 (List.cons_prefix_cons.mpr ⟨rfl, hpre⟩))
  · exact fun hpre => List.tail_eq_of_cons_eq (h.2 (List.cons_prefix_cons.mpr ⟨rfl, hpre⟩))

theorem NotExtended.nil (h : NotExtended [] t) : t = [] := (h.1 List.nil_prefix).symm

/-! ## Lists of bytes -/

/-- INTERNAL: the values of one byte.  The induction for each law splits on these. -/
theorem byte_cases (x y : Byte) : x < y ∧ ¬ y < x ∨ x = y ∨ y < x ∧ ¬ x < y := by
  rcases Nat.lt_trichotomy x.toNat y.toNat with hlt | heq | hgt
  · exact .inl ⟨BitVec.lt_def.mpr hlt, fun h => absurd (BitVec.lt_def.mp h) (by omega)⟩
  · exact .inr (.inl (BitVec.eq_of_toNat_eq heq))
  · exact .inr (.inr ⟨BitVec.lt_def.mpr hgt, fun h => absurd (BitVec.lt_def.mp h) (by omega)⟩)

/-- INTERNAL: exchanged strings compare the other way. -/
theorem strcmp_opposite (s t : CString) : strcmp s t = -strcmp t s := by
  induction s generalizing t with
  | nil => rw [strcmp_nil_left, strcmp_nil_right, neg_zero]
  | cons x s ih =>
      cases t with
      | nil => rw [strcmp_nil_left, strcmp_nil_right, neg_zero]
      | cons y t =>
          rw [strcmp_cons, strcmp_cons]
          rcases byte_cases x y with ⟨hlt, hnot⟩ | rfl | ⟨hgt, hnot⟩
          · simp [hlt, hnot]
          · simp [ih t]
          · simp [hgt, hnot]

/-- INTERNAL: **the order is transitive** where the first string does not go on behind the second
or the other way round; the third may be anything. -/
theorem strcmp_trans (h : NotExtended s t) (hst : strcmp s t ≤ 0) (htu : strcmp t u ≤ 0) :
    strcmp s u ≤ 0 := by
  induction s generalizing t u with
  | nil => rw [strcmp_nil_left]
  | cons x s ih =>
      cases t with
      | nil => cases h.symm.nil
      | cons y t =>
          cases u with
          | nil => rw [strcmp_nil_right]
          | cons z u =>
              rw [strcmp_cons] at hst htu ⊢
              rcases byte_cases x y with ⟨hxy, -⟩ | rfl | ⟨hyx, hnot⟩
              · rcases byte_cases y z with ⟨hyz, -⟩ | rfl | ⟨hzy, hnot⟩
                · simp [BitVec.lt_trans hxy hyz]
                · simp [hxy]
                · simp [hzy, hnot] at htu
              · rcases byte_cases x z with ⟨hxz, -⟩ | rfl | ⟨hzx, hnot⟩
                · simp [hxz]
                · simp only [BitVec.lt_irrefl, if_false] at hst htu ⊢
                  exact ih h.tail hst htu
                · simp [hzx, hnot] at htu
              · simp [hyx, hnot] at hst

/-- INTERNAL: the first difference decides, if both strings have a byte there. -/
theorem strcmp_first (h : NotExtended s t) : Int.sign (strcmp s t) = firstDifference s t := by
  induction s generalizing t with
  | nil =>
      obtain rfl := h.nil
      rfl
  | cons x s ih =>
      cases t with
      | nil => cases h.symm.nil
      | cons y t =>
          rw [strcmp_cons, firstDifference]
          rcases byte_cases x y with ⟨hlt, -⟩ | rfl | ⟨hgt, hnot⟩
          · have hne : ¬ x = y := by
              rintro rfl
              exact BitVec.lt_irrefl x hlt
            have hneg : (x.toNat : ℤ) - y.toNat < 0 := by
              have := BitVec.lt_def.mp hlt
              omega
            rw [if_pos hlt, if_neg hne, Int.sign_eq_neg_one_of_neg hneg]
            rfl
          · simp only [BitVec.lt_irrefl, if_false, if_true]
            exact ih h.tail
          · have hne : ¬ x = y := by
              rintro rfl
              exact BitVec.lt_irrefl x hgt
            have hpos : 0 < (x.toNat : ℤ) - y.toNat := by
              have := BitVec.lt_def.mp hgt
              omega
            rw [if_neg hnot, if_pos hgt, if_neg hne, Int.sign_eq_one_of_pos hpos]
            rfl

/-! ## Memory -/

theorem memcmpAt_eq (ha : StringAt m a s) (hb : StringAt m b t) {n : ℕ} (hs : n ≤ s.length)
    (ht : n ≤ t.length) : memcmpAt m a b n = memcmp s t n := by
  induction n generalizing a b s t with
  | zero => cases s <;> cases t <;> rfl
  | succ n ih =>
      cases s with
      | nil => exact absurd hs (Nat.not_succ_le_zero n)
      | cons x s =>
          cases t with
          | nil => exact absurd ht (Nat.not_succ_le_zero n)
          | cons y t =>
              obtain ⟨hx, -, ha'⟩ := ha.cons
              obtain ⟨hy, -, hb'⟩ := hb.cons
              have hrest := ih ha' hb' (Nat.le_of_succ_le_succ hs) (Nat.le_of_succ_le_succ ht)
              rw [memcmpAt, memcmp, hx, hy, hrest]
              rfl

/-- INTERNAL: strings in memory are compared as their bytes are.
SRCLINE: strcmp.c:3-7, memcmp.c:4-13, strlen.c:3-8 -/
theorem strcmpAt_eq (ha : StringAt m a s) (hb : StringAt m b t) (hs : s.length < 2 ^ 32)
    (ht : t.length < 2 ^ 32) : strcmpAt m a b = strcmp s t := by
  rw [strcmpAt, strlen_string ha hs, strlen_string hb ht]
  apply memcmpAt_eq ha hb
  · split <;> omega
  · split <;> omega

end

/-- **`strcmp` is the lexicographic order** of two strings exactly if neither is the beginning of
the other.
SRCLINE: strcmp.c:3-7, memcmp.c:4-13, strlen.c:3-8 -/
theorem lexicographicAt_iff {m : Store Byte} {a b c : ℕ} {s t u : CString} (ha : StringAt m a s)
    (hb : StringAt m b t) (hc : StringAt m c u) (hs : s.length < 2 ^ 32) (ht : t.length < 2 ^ 32)
    (hu : u.length < 2 ^ 32) : LexicographicAt m a b c s t ↔ NotExtended s t := by
  have hab := strcmpAt_eq ha hb hs ht
  have hba := strcmpAt_eq hb ha ht hs
  have hbc := strcmpAt_eq hb hc ht hu
  have hac := strcmpAt_eq ha hc hs hu
  constructor
  · intro hlex
    have hequal := hlex.equal
    rw [hab, strcmp_eq_zero_iff] at hequal
    exact ⟨fun hpre => hequal.mp (.inl hpre), fun hpre => hequal.mp (.inr hpre)⟩
  · intro hne
    refine ⟨?_, ?_, ?_, ?_⟩
    · rw [hab, strcmp_eq_zero_iff]
      constructor
      · exact fun hpre => hpre.elim hne.1 hne.2
      · rintro rfl
        exact .inl List.prefix_rfl
    · rw [hab, hba, strcmp_opposite s t, Int.sign_neg]
    · rw [hab, hbc, hac]
      exact strcmp_trans hne
    · rw [hab]
      exact strcmp_first hne

/-- The strings `AB`, `A` and `AA`. -/
def threeNames : Store Byte :=
  Store.write (Store.write (Store.write (fun _ => 0) 0x10 [0x41, 0x42]) 0x20 [0x41]) 0x30 [0x41, 0x41]

theorem threeNames_strings : StringAt threeNames 0x10 [0x41, 0x42] ∧
    StringAt threeNames 0x20 [0x41] ∧ StringAt threeNames 0x30 [0x41, 0x41] :=
  ⟨⟨by decide, by decide, by decide⟩, ⟨by decide, by decide, by decide⟩,
    ⟨by decide, by decide, by decide⟩⟩

theorem lexicographicAt_names :
    LexicographicAt threeNames 0x10 0x30 0x20 [0x41, 0x42] [0x41, 0x41] := by
  obtain ⟨hab, ha, haa⟩ := threeNames_strings
  exact (lexicographicAt_iff hab haa ha (by decide) (by decide) (by decide)).mpr
    ⟨by decide, by decide⟩

/-- `AB` is equal to `A` and `A` to `AA`, but `AB` comes behind `AA`. -/
theorem strcmp_not_order : strcmpAt threeNames 0x10 0x20 = 0 ∧ strcmpAt threeNames 0x20 0x30 = 0 ∧
    strcmpAt threeNames 0x10 0x30 = 1 ∧
      ¬ LexicographicAt threeNames 0x10 0x20 0x30 [0x41, 0x42] [0x41] := by
  obtain ⟨hab, ha, haa⟩ := threeNames_strings
  have hfirst : strcmpAt threeNames 0x10 0x20 = 0 := by
    rw [strcmpAt_eq hab ha (by decide) (by decide)]
    decide
  have hsecond : strcmpAt threeNames 0x20 0x30 = 0 := by
    rw [strcmpAt_eq ha haa (by decide) (by decide)]
    decide
  have hthird : strcmpAt threeNames 0x10 0x30 = 1 := by
    rw [strcmpAt_eq hab haa (by decide) (by decide)]
    decide
  refine ⟨hfirst, hsecond, hthird, fun hlex => ?_⟩
  have hle := hlex.trans hfirst.le hsecond.le
  rw [hthird] at hle
  exact absurd hle (by decide)

end LakeOS.Analysis
