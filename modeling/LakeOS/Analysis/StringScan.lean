import LakeOS.Model.VfsPath

/-!
# Scanning strings

`strchr`, `strpbrk` and `strtok` on strings in memory, for any set of separators: where each of
them stops, and what one call of `strtok` leaves behind.
-/

set_option autoImplicit false

namespace LakeOS.Analysis

open LakeOS.Library LakeOS.Model

section

variable {mem : Store Byte} {a sep fuel : ℕ} {s seps : List Byte}

/-- INTERNAL: **the first place of a character.**
SRCLINE: strchr.c:3-13 -/
theorem strchr_spec (h : StringAt mem a s) {chr : Byte} (hchr : chr ≠ 0)
    (hfuel : s.length < fuel) :
    strchr mem chr fuel a =
      some (if chr ∈ s then some (a + (s.takeWhile (· != chr)).length) else none) := by
  induction s generalizing a fuel with
  | nil =>
      cases fuel with
      | zero => simp at hfuel
      | succ fuel =>
          have hend : mem a = 0 := h.terminator
          rw [strchr, if_neg (not_not.mpr hend), if_neg hchr]
          simp
  | cons x s ih =>
      obtain ⟨hx, hne, hrest⟩ := h.cons
      cases fuel with
      | zero => simp at hfuel
      | succ fuel =>
          rw [strchr, hx, if_pos hne]
          by_cases heq : x = chr
          · simp [heq]
          · have hne' : ¬ chr = x := fun h => heq h.symm
            rw [if_neg heq, ih hrest (by simpa using hfuel), List.takeWhile_cons]
            simp [heq, hne', Nat.add_assoc, Nat.add_comm 1]

/-- INTERNAL: the first place of the first separator that is there at all.
SRCLINE: strpbrk.c:3-11 -/
theorem strpbrk_spec (hsep : StringAt mem sep seps) (h : StringAt mem a s) (hfuel : s.length < fuel)
    {n : ℕ} (hn : seps.length < n) :
    strpbrk mem fuel a n sep =
      some ((seps.find? (· ∈ s)).map fun d => a + (s.takeWhile (· != d)).length) := by
  induction seps generalizing sep n with
  | nil =>
      cases n with
      | zero => simp at hn
      | succ n => rw [strpbrk, if_pos (show mem sep = 0 from hsep.terminator)]; rfl
  | cons d seps ih =>
      obtain ⟨hd, hne, hrest⟩ := hsep.cons
      cases n with
      | zero => simp at hn
      | succ n =>
          rw [strpbrk, hd, if_neg hne, strchr_spec h hne hfuel]
          by_cases hmem : d ∈ s
          · rw [if_pos hmem, List.find?_cons_of_pos (by simpa using hmem)]
            rfl
          · rw [if_neg hmem, List.find?_cons_of_neg (by simpa using hmem),
              ← ih hrest (n := n) (by simpa using hn)]
            rfl

/-- INTERNAL: separators are passed over.
SRCLINE: strtok.c:9 -/
theorem strtokSkip_spec (hsep : StringAt mem sep seps) (hsepFuel : seps.length < fuel)
    (h : StringAt mem a s) {n : ℕ} (hn : s.length < n) :
    strtokSkip mem sep fuel n a = some (a + (s.takeWhile (· ∈ seps)).length) := by
  induction s generalizing a n with
  | nil =>
      cases n with
      | zero => simp at hn
      | succ n => rw [strtokSkip, if_pos (show mem a = 0 from h.terminator)]; rfl
  | cons x s ih =>
      obtain ⟨hx, hne, hrest⟩ := h.cons
      cases n with
      | zero => simp at hn
      | succ n =>
          rw [strtokSkip, hx, if_neg hne, strchr_spec hsep hne hsepFuel]
          by_cases hmem : x ∈ seps
          · have hstep := ih hrest (n := n) (by simpa using hn)
            rw [if_pos hmem]
            simp only [Option.bind_eq_bind, Option.bind_some]
            rw [hstep, List.takeWhile_cons_of_pos (by simpa using hmem), List.length_cons]
            congr 1
            omega
          · rw [if_neg hmem, List.takeWhile_cons_of_neg (by simpa using hmem)]
            rfl

/-- The token that begins at `b`, where the string `start` is, with the separator to look for. -/
def tokenAt (mem : Store Byte) (sepChar : Option Byte) (b : ℕ) (start : List Byte) : Token :=
  if start = [] then ⟨none, none, mem⟩
  else match sepChar with
    | some d =>
        let found := b + (start.takeWhile (· != d)).length
        ⟨some b, some (found + 1), mem.write found [0]⟩
    | none => ⟨some b, none, mem⟩

/-- INTERNAL: **one call of `strtok`** passes over separators and ends the token behind them.
SRCLINE: strtok.c:3-27 -/
theorem strtokAt_string (hsep : StringAt mem sep seps) (hsepFuel : seps.length < fuel)
    (h : StringAt mem a s) (hfuel : s.length < fuel) :
    strtokAt mem fuel sep (some a) none =
      some (tokenAt mem (seps.find? (· ∈ s.dropWhile (· ∈ seps)))
        (a + (s.takeWhile (· ∈ seps)).length) (s.dropWhile (· ∈ seps))) := by
  have hskip := strtokSkip_spec hsep hsepFuel h hfuel
  have hrest := h.dropWhile (· ∈ seps)
  have hlen := (List.dropWhile_suffix (l := s) (· ∈ seps)).length_le
  unfold strtokAt tokenAt
  simp only [Option.none_or, hskip, Option.bind_eq_bind, Option.bind_some]
  by_cases hempty : s.dropWhile (· ∈ seps) = []
  · rw [hempty] at hrest
    have hend : mem (a + (s.takeWhile (· ∈ seps)).length) = 0 := hrest.terminator
    rw [if_pos hempty, if_pos hend]
  · have hfirst : mem (a + (s.takeWhile (· ∈ seps)).length) ≠ 0 := by
      obtain ⟨x, rest, hcons⟩ := List.exists_cons_of_ne_nil hempty
      rw [hcons] at hrest
      rw [hrest.cons.1]
      exact hrest.cons.2.1
    rw [if_neg hempty, if_neg hfirst, strpbrk_spec hsep hrest (by omega) hsepFuel]
    cases seps.find? (· ∈ s.dropWhile (· ∈ seps)) with
    | none => rfl
    | some d => rfl

end

end LakeOS.Analysis
