import LakeOS.Library.Store

/-!
# Strings in memory

`StringAt m a s` says that the bytes of `s`, none of which is `0`, lie at `a` with a `0`
behind them.  What is behind a prefix of a string is a string again, and a string is not
changed by writing next to it.
-/

set_option autoImplicit false

namespace LakeOS.Library

/-- Memory holds a string, with its terminator. -/
structure StringAt (m : Store Byte) (a : ℕ) (s : List Byte) : Prop where
  bytes : ∀ (i : ℕ) (h : i < s.length), m (a + i) = s[i]
  nonzero : ∀ c ∈ s, c ≠ 0
  terminator : m (a + s.length) = 0

namespace StringAt

variable {m m' : Store Byte} {a : ℕ} {s : List Byte} {x : Byte}

theorem cons (h : StringAt m a (x :: s)) : m a = x ∧ x ≠ 0 ∧ StringAt m (a + 1) s := by
  refine ⟨h.bytes 0 (by simp), h.nonzero x List.mem_cons_self, ?_, ?_, ?_⟩
  · intro i hi
    have hbyte := h.bytes (i + 1) (by simpa using hi)
    rw [Nat.add_assoc, Nat.add_comm 1 i]
    simpa using hbyte
  · exact fun c hc => h.nonzero c (List.mem_cons_of_mem _ hc)
  · have hend := h.terminator
    rw [List.length_cons] at hend
    rw [Nat.add_assoc, Nat.add_comm 1]
    exact hend

theorem of_cons (hx : m a = x) (hne : x ≠ 0) (h : StringAt m (a + 1) s) :
    StringAt m a (x :: s) := by
  refine ⟨?_, ?_, ?_⟩
  · intro i hi
    cases i with
    | zero => simpa using hx
    | succ i =>
        have hbyte := h.bytes i (by simpa using hi)
        rw [show a + (i + 1) = a + 1 + i by omega, hbyte, List.getElem_cons_succ]
  · intro c hc
    rcases List.mem_cons.mp hc with rfl | hc
    · exact hne
    · exact h.nonzero c hc
  · have hend := h.terminator
    rw [List.length_cons, Nat.add_comm s.length 1, ← Nat.add_assoc]
    exact hend

/-- What is behind a prefix. -/
theorem drop {l : List Byte} (h : StringAt m a (l ++ s)) : StringAt m (a + l.length) s := by
  induction l generalizing a with
  | nil => exact h
  | cons x l ih =>
      have hrest := ih h.cons.2.2
      rw [List.length_cons, Nat.add_comm l.length 1, ← Nat.add_assoc]
      exact hrest

/-- A string depends on its own bytes. -/
theorem congr (h : StringAt m a s) (hsame : ∀ y, a ≤ y → y ≤ a + s.length → m' y = m y) :
    StringAt m' a s where
  bytes i hi := by rw [hsame _ (by omega) (by omega), h.bytes i hi]
  nonzero := h.nonzero
  terminator := by rw [hsame _ (by omega) (by omega), h.terminator]

/-- A `0` written behind a prefix ends the string there. -/
theorem take {l : List Byte} (h : StringAt m a (l ++ s)) :
    StringAt (m.write (a + l.length) [0]) a l where
  bytes i hi := by
    rw [Store.write_of_lt _ _ (by omega), h.bytes i (by simp; omega)]
    simp [List.getElem_append_left hi]
  nonzero c hc := h.nonzero c (List.mem_append_left _ hc)
  terminator := by
    rw [Store.write_of_mem _ _ (Nat.le_refl _) (by simp)]
    simp

/-- What is behind the first characters with a property. -/
theorem dropWhile (h : StringAt m a s) (q : Byte → Bool) :
    StringAt m (a + (s.takeWhile q).length) (s.dropWhile q) := by
  rw [← List.takeWhile_append_dropWhile (p := q) (l := s)] at h
  exact h.drop

/-- There is one string at an address. -/
theorem unique {t : List Byte} (h : StringAt m a s) (h' : StringAt m a t) : s = t := by
  have hle : ∀ {s t : List Byte}, StringAt m a s → StringAt m a t → t.length ≤ s.length := by
    intro s t h h'
    by_contra hlt
    have hbyte := h'.bytes s.length (by omega)
    rw [h.terminator] at hbyte
    exact h'.nonzero _ (List.getElem_mem _) hbyte.symm
  have hlen := Nat.le_antisymm (hle h' h) (hle h h')
  exact List.ext_getElem hlen fun i hi hi' => (h.bytes i hi).symm.trans (h'.bytes i hi')

/-- What is behind a place of a string. -/
theorem behind {p q : ℕ} (h : StringAt m (a + p) (s.drop p)) (hpq : p ≤ q)
    (hq : q ≤ s.length) : StringAt m (a + q) (s.drop q) := by
  have hsplit := List.take_append_drop (q - p) (s.drop p)
  rw [List.drop_drop, show p + (q - p) = q by omega] at hsplit
  rw [← hsplit] at h
  have hdrop := h.drop
  rw [List.length_take, List.length_drop, Nat.min_eq_left (by omega),
    show a + p + (q - p) = a + q by omega] at hdrop
  exact hdrop

/-- A `0` ends a string at a place. -/
theorem ended {p e : ℕ} (h : StringAt m (a + p) (s.drop p)) (hpe : p ≤ e)
    (he : e ≤ s.length) : StringAt (m.write (a + e) [0]) (a + p) ((s.drop p).take (e - p)) := by
  rw [← List.take_append_drop (e - p) (s.drop p)] at h
  have htake := h.take
  rw [List.length_take, List.length_drop, Nat.min_eq_left (by omega),
    show a + p + (e - p) = a + e by omega] at htake
  exact htake

/-- A copy of a string. -/
theorem write (h : StringAt m a s) (b : ℕ) :
    StringAt (m.write b (m.read a (s.length + 1))) b s where
  bytes i hi := by
    rw [Store.write_add _ _ _ _ (by simp; omega), Store.getElem_read, h.bytes i hi]
  nonzero := h.nonzero
  terminator := by
    rw [Store.write_add _ _ _ _ (by simp), Store.getElem_read, h.terminator]

end StringAt

end LakeOS.Library
