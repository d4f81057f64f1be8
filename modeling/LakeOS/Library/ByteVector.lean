import Mathlib.Data.List.Basic
import Mathlib.Tactic.Common

/-!
# A byte vector with a cursor

What a regular file is for: a finite sequence of cells and a position in it.  Reading
returns the cells from the position on and moves it behind them, writing replaces them
and extends the sequence where it ends.
-/

set_option autoImplicit false

namespace LakeOS.Library

/-- A sequence of cells and a position. -/
structure ByteVector (β : Type) where
  bytes : List β
  pos : ℕ

namespace ByteVector

variable {β : Type} (v : ByteVector β) {data : List β} {n i : ℕ}

/-- No cells, and the position at their end. -/
def empty : ByteVector β := ⟨[], 0⟩

def size : ℕ := v.bytes.length

/-- Up to `n` cells from the position on. -/
def read (n : ℕ) : List β × ByteVector β :=
  let out := (v.bytes.drop v.pos).take n
  (out, { v with pos := v.pos + out.length })

/-- The cells from the position on become `data`. -/
def write (data : List β) : ByteVector β where
  bytes := v.bytes.take v.pos ++ data ++ v.bytes.drop (v.pos + data.length)
  pos := v.pos + data.length

def seek (pos : ℕ) : ByteVector β := { v with pos := pos }

@[simp] theorem size_empty : (empty : ByteVector β).size = 0 := rfl

@[simp] theorem pos_empty : (empty : ByteVector β).pos = 0 := rfl

@[simp] theorem pos_write (data : List β) : (v.write data).pos = v.pos + data.length := rfl

@[simp] theorem size_seek : (v.seek i).size = v.size := rfl

@[simp] theorem pos_seek : (v.seek i).pos = i := rfl

@[simp] theorem read_bytes : (v.read n).2.bytes = v.bytes := rfl

theorem length_read : (v.read n).1.length = min n (v.size - v.pos) := by
  simp [read, size]

theorem size_write (data : List β) (h : v.pos ≤ v.size) :
    (v.write data).size = max v.size (v.pos + data.length) := by
  simp only [size] at h
  simp only [write, size, List.length_append, List.length_take, List.length_drop]
  omega

@[simp] theorem bytes_seek : (v.seek i).bytes = v.bytes := rfl

@[simp] theorem write_nil : v.write [] = v := by
  simp [write]

/-- At the end, writing appends. -/
theorem bytes_write_of_end (h : v.pos = v.size) : (v.write data).bytes = v.bytes ++ data := by
  simp [write, h, size]

/-- Consecutive writes are one write. -/
theorem write_write (more : List β) (h : v.pos ≤ v.size) :
    (v.write data).write more = v.write (data ++ more) := by
  obtain ⟨bytes, pos⟩ := v
  simp only [size] at h
  have hlen : (bytes.take pos ++ data).length = pos + data.length := by
    rw [List.length_append, List.length_take]
    omega
  have htake : (bytes.take pos ++ data ++ bytes.drop (pos + data.length)).take
      (pos + data.length) = bytes.take pos ++ data := by
    rw [List.take_append_of_le_length (Nat.le_of_eq hlen.symm),
      List.take_of_length_le (Nat.le_of_eq hlen)]
  have hdrop : (bytes.take pos ++ data ++ bytes.drop (pos + data.length)).drop
      (pos + data.length + more.length) = bytes.drop (pos + data.length + more.length) := by
    rw [List.drop_append, hlen, List.drop_of_length_le (by rw [hlen]; omega),
      List.nil_append, List.drop_drop]
    congr 1
    omega
  simp only [write, htake, hdrop, List.length_append]
  simp [Nat.add_assoc]

/-- **Writing behind the end.**  Data of the length that is missing lengthens the vector
by itself only at its end. -/
theorem bytes_write_eq_append_iff (h : v.pos ≤ v.size) (hdata : data ≠ []) :
    (v.write data).bytes = v.bytes ++ data ↔ v.pos = v.size := by
  constructor
  · intro heq
    have hsize := v.size_write data h
    have hpos := List.length_pos_iff.mpr hdata
    rw [size, heq, List.length_append] at hsize
    simp only [size] at hsize h ⊢
    omega
  · exact v.bytes_write_of_end

end ByteVector

end LakeOS.Library
