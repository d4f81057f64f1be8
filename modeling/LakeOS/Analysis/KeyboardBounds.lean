import LakeOS.Library.Runs
import LakeOS.Model.Ps2Steps

/-!
# The bounds of the keyboard buffer

`keycode <= 0x58` lets through one code more than `KEYBOARD_MAP` has, an interrupt may change the
code behind the tests, and `strlen(ps2_stdin) < PS2_STDIN_SIZE` is true of a buffer that has room
for the terminator alone.  Without these three a run stays inside both arrays.
-/

set_option autoImplicit false

namespace LakeOS.Analysis

open LakeOS.Library LakeOS.Model

/-- Nothing outside `KEYBOARD_MAP` and `ps2_stdin` was used, and the buffer is a string. -/
structure KeyboardSafe (s : Ps2State) : Prop where
  lookups : ∀ i ∈ s.lookups, i < 0x58
  writes : ∀ i ∈ s.writes, i < ps2StdinSize
  terminated : ∃ i < ps2StdinSize, s.stdin i = 0

/-- The code that is looked up is one of `KEYBOARD_MAP`, and a character is stored if there is room
for it and the terminator. -/
def RoomForKey : KeyboardEvent → Ps2State → Prop
  | .irq _ _, _ => True
  | .step, s =>
      match s.pc with
      | .lookup => 0 ≤ s.keycode.toInt ∧ s.keycode.toInt < 0x58
      | .store c => c ≠ 0 → strlen s.stdin 0 ≠ ps2StdinSize - 1
      | _ => True

/-! ## The buffer -/

/-- INTERNAL: the length of a buffer with a terminator. -/
theorem strlen_of_terminated {m : Store Byte} (h : ∃ i < ps2StdinSize, m i = 0) :
    strlen m 0 < ps2StdinSize ∧ m (strlen m 0) = 0 := by
  have hex : ∃ i, m i = 0 := h.imp fun i hi => hi.2
  obtain ⟨i, hi, hzero⟩ := h
  have hfirst : Nat.find hex < 0xFF := Nat.lt_of_le_of_lt (Nat.find_min' hex hzero) hi
  have hlen : strlen m 0 = Nat.find hex := by
    refine strlenLoop_eq (fun j hj => ?_) ?_ (Nat.zero_le _) (by omega)
    · rw [Nat.zero_add]
      exact Nat.find_min hex hj
    · rw [Nat.zero_add]
      exact Nat.find_spec hex
  rw [hlen]
  exact ⟨hfirst, Nat.find_spec hex⟩

/-- INTERNAL: the index of a code without its sign. -/
theorem keyIndex_lt_iff (keycode : Byte) :
    keyIndex keycode < 0x58 ↔ 0 ≤ keycode.toInt ∧ keycode.toInt < 0x58 := by
  have hlow := keycode.le_toInt
  have hhigh := keycode.toInt_lt
  unfold keyIndex
  omega

/-- INTERNAL: a string that begins with a character has a length. -/
theorem one_le_strlen {m : Store Byte} {a : ℕ} (h : m a ≠ 0) : 1 ≤ strlen m a := by
  have hle : ∀ fuel len, len ≤ strlenLoop m a fuel len := by
    intro fuel
    induction fuel with
    | zero => exact fun len => Nat.le_refl len
    | succ fuel ih =>
      intro len
      unfold strlenLoop
      split_ifs
      · exact Nat.le_refl len
      · exact Nat.le_of_succ_le (ih (len + 1))
  obtain ⟨n, hn⟩ : ∃ n, 2 ^ 32 = n + 1 := ⟨2 ^ 32 - 1, rfl⟩
  rw [strlen, hn, strlenLoop, Nat.add_zero, if_neg h]
  exact hle n 1

/-- INTERNAL: `strncat` stores the character and the terminator. -/
theorem strncatBytes_char {c : Byte} (hc : c ≠ 0) (stack : Store Byte) :
    strncatBytes (stack.write 0 [c]) 1 = [c] ++ [0] := by
  have hfirst : stack.write 0 [c] 0 = c := Store.write_of_mem _ _ (Nat.le_refl 0) (by simp)
  have hlen := one_le_strlen (show stack.write 0 [c] 0 ≠ 0 by rw [hfirst]; exact hc)
  rw [strncatBytes, Nat.min_eq_left hlen]
  rfl

section

variable {behind : ℕ → Byte} {stack : Store Byte} {s : Ps2State}

/-- INTERNAL: **a string stored in the buffer** is inside it if its terminator is. -/
theorem KeyboardSafe.put_iff (h : KeyboardSafe s) (i : ℕ) (bytes : List Byte) :
    KeyboardSafe (s.put i (bytes ++ [0])) ↔ i + bytes.length < ps2StdinSize := by
  constructor
  · intro hput
    refine hput.writes _ (List.mem_append_right _ (List.mem_map.mpr ⟨bytes.length, ?_, rfl⟩))
    rw [List.mem_range, List.length_append, List.length_singleton]
    exact Nat.lt_succ_self _
  · intro hlt
    refine ⟨h.lookups, fun j hj => ?_, i + bytes.length, hlt, ?_⟩
    · rcases List.mem_append.mp hj with hold | hnew
      · exact h.writes j hold
      · obtain ⟨k, hk, rfl⟩ := List.mem_map.mp hnew
        rw [List.mem_range, List.length_append, List.length_singleton] at hk
        omega
    · rw [Ps2State.put]
      simp only
      rw [Store.write_append, Store.write_of_mem _ _ (Nat.le_refl _) (by simp)]
      simp

/-- INTERNAL: a step that leaves the arrays alone. -/
theorem KeyboardSafe.of_eq {t : Ps2State} (h : KeyboardSafe s) (hlookups : t.lookups = s.lookups)
    (hwrites : t.writes = s.writes) (hstdin : t.stdin = s.stdin) : KeyboardSafe t := by
  refine ⟨?_, ?_, ?_⟩
  · rw [hlookups]
    exact h.lookups
  · rw [hwrites]
    exact h.writes
  · rw [hstdin]
    exact h.terminated

/-- INTERNAL: a test of the code leaves them alone. -/
theorem KeyboardSafe.test (h : KeyboardSafe s)
    (hpc : s.pc = .enter ∨ s.pc = .above ∨ s.pc = .below) :
    KeyboardSafe (ps2Step behind stack s) := by
  unfold ps2Step
  rcases hpc with hpc | hpc | hpc
  all_goals
    rw [hpc]
    simp only
    split_ifs <;> exact h.of_eq rfl rfl rfl

/-- INTERNAL: **`BACKSPACE`** stays inside the buffer. -/
theorem KeyboardSafe.backspace (h : KeyboardSafe s) (hpc : s.pc = .backspace) :
    KeyboardSafe (ps2Step behind stack s) := by
  unfold ps2Step
  rw [hpc]
  simp only
  split_ifs with hcode hempty
  · have hlt := (strlen_of_terminated h.terminated).1
    exact (h.put_iff (strlen s.stdin 0 - 1) []).mpr (by rw [List.length_nil]; omega)
  · exact h.of_eq rfl rfl rfl
  · exact h.of_eq rfl rfl rfl

/-- INTERNAL: a lookup is inside the map if the code is. -/
theorem KeyboardSafe.lookup_iff (h : KeyboardSafe s) (hpc : s.pc = .lookup) :
    KeyboardSafe (ps2Step behind stack s) ↔ 0 ≤ s.keycode.toInt ∧ s.keycode.toInt < 0x58 := by
  unfold ps2Step
  rw [hpc, ← keyIndex_lt_iff]
  simp only
  constructor
  · exact fun hstep => hstep.lookups _ (List.mem_append_right _ List.mem_cons_self)
  · intro hlt
    refine ⟨fun i hi => ?_, h.writes, h.terminated⟩
    rcases List.mem_append.mp hi with hold | hnew
    · exact h.lookups i hold
    · rw [List.mem_singleton.mp hnew]
      exact hlt

/-- INTERNAL: a character is stored inside the buffer if there is room for the terminator. -/
theorem KeyboardSafe.store_iff (h : KeyboardSafe s) {c : Byte} (hpc : s.pc = .store c) :
    KeyboardSafe (ps2Step behind stack s) ↔
      (c ≠ 0 → strlen s.stdin 0 ≠ ps2StdinSize - 1) := by
  have hlt := (strlen_of_terminated h.terminated).1
  unfold ps2Step
  rw [hpc]
  simp only
  by_cases hc : c = 0
  · rw [if_neg fun hboth => hboth.1 hc]
    exact iff_of_true (h.of_eq rfl rfl rfl) fun hne => absurd hc hne
  · rw [if_pos ⟨hc, hlt⟩, strncatBytes_char hc, h.put_iff, List.length_singleton]
    have hsize : ps2StdinSize = 0xFF := rfl
    constructor
    · intro hroom _
      omega
    · intro hroom
      have hne := hroom hc
      omega

/-- INTERNAL: **one step stays inside the arrays** exactly if there is room. -/
theorem keyboardStep_safe_iff (event : KeyboardEvent) (h : KeyboardSafe s) :
    KeyboardSafe (keyboardStep behind stack event s) ↔ RoomForKey event s := by
  cases event with
  | irq status code =>
    refine iff_of_true ?_ trivial
    simp only [keyboardStep, irqKeyboardHandler]
    split_ifs
    · exact h.of_eq rfl rfl rfl
    · exact h
  | step =>
    simp only [keyboardStep, RoomForKey]
    cases hpc : s.pc with
    | enter => exact iff_of_true (h.test (.inl hpc)) trivial
    | above => exact iff_of_true (h.test (.inr (.inl hpc))) trivial
    | below => exact iff_of_true (h.test (.inr (.inr hpc))) trivial
    | backspace => exact iff_of_true (h.backspace hpc) trivial
    | lookup => exact h.lookup_iff hpc
    | store c => exact h.store_iff hpc

end

/-- INTERNAL: **a key that no interrupt comes between** does what it does in one go.
SRCLINE: ps2.c:105-125 -/
theorem after_ps2Key {behind : ℕ → Byte} {stack : Store Byte} {s : Ps2State}
    (hpc : s.pc = .enter) (hcode : s.keycode.toNat < 0x58) (henter : s.keycode.toNat ≠ ps2Enter) :
    (after (keyboardStep behind stack) (List.replicate 6 .step) s).stdin =
      ps2Key s.stdin s.keycode.toNat := by
  obtain ⟨pc, k, m, lookups, writes⟩ := s
  dsimp only at hpc hcode henter ⊢
  subst hpc
  have hint : k.toInt = k.toNat := by
    rw [BitVec.toInt_eq_toNat_cond, if_pos (by omega)]
  have hindex : keyIndex k = k.toNat := by
    unfold keyIndex
    omega
  unfold ps2Key
  by_cases hzero : k.toNat = 0
  · simp [after, keyboardStep, ps2Step, hint, hzero]
  · rw [if_pos ⟨by omega, by omega⟩]
    by_cases hback : k.toNat = ps2Backspace
    · rw [if_pos hback]
      by_cases hempty : m 0 = 0
      · simp [after, keyboardStep, ps2Step, hint, hback, hempty]
      · have hfull : ¬ m 0 = 0#8 := hempty
        simp [after, keyboardStep, ps2Step, hint, hback, hfull, Ps2State.put]
    · have hchar : keyboardMapAt behind k.toNat = keyChar k.toNat := if_pos hcode
      have hpos : (0 : ℤ) < k.toNat := by omega
      have hle : (k.toNat : ℤ) ≤ 0x58 := by omega
      rw [if_neg hback]
      simp only
      by_cases hstore : keyChar k.toNat ≠ 0 ∧ strlen m 0 < ps2StdinSize
      · have hbytes := strncatBytes_char hstore.1 stack
        simp only [List.replicate, after, keyboardStep, ps2Step, henter, hint, hpos, hle, hback,
          hindex, hchar, if_true, if_false, if_pos hstore, hbytes, Ps2State.put, List.cons_append,
          List.nil_append]
      · simp only [List.replicate, after, keyboardStep, ps2Step, henter, hint, hpos, hle, hback,
          hindex, hchar, hstore, if_true, if_false]
/-! ## Runs -/

theorem keyboardSafe_start (rest : Store Byte) : KeyboardSafe (ps2Start rest) :=
  ⟨fun i hi => (List.not_mem_nil hi).elim, fun i hi => (List.not_mem_nil hi).elim,
    0, by decide, by simp [ps2Start]⟩

/-- **The keyboard stays inside its arrays** in a run exactly if, at each lookup, the code is one
of `KEYBOARD_MAP` and, at each character, the buffer does not hold 254 of them.
SRCLINE: ps2.c:64-132, strncat.c:4-16, ps2.h:9-10 -/
theorem keyboard_safe_iff (behind : ℕ → Byte) (stack rest : Store Byte)
    (events : List KeyboardEvent) :
    Throughout (keyboardStep behind stack) KeyboardSafe events (ps2Start rest) ↔
      EachCall (keyboardStep behind stack) RoomForKey events (ps2Start rest) :=
  throughout_iff_eachCall (I := fun _ => True) (V := fun _ _ => True) (fun _ _ _ _ => trivial)
    (fun event _ _ _ h => keyboardStep_safe_iff event h) trivial (keyboardSafe_start rest)
    (eachCall_true events _)

/-- The key `F12`: its code passes the test of the range. -/
def f12Events : List KeyboardEvent := .irq 1 0x58 :: List.replicate 5 .step

theorem keyboard_not_safe :
    ¬ ∀ (behind : ℕ → Byte) (stack rest : Store Byte) (events : List KeyboardEvent),
      Throughout (keyboardStep behind stack) KeyboardSafe events (ps2Start rest) := by
  intro hall
  have hlast := (hall (fun _ => 0) (fun _ => 0) (fun _ => 0) f12Events).last
  have hlookups : (after (keyboardStep (fun _ => 0) fun _ => 0) f12Events
      (ps2Start fun _ => 0)).lookups = [0x58] := by decide
  have hlt := hlast.lookups 0x58 (by rw [hlookups]; exact List.mem_cons_self)
  exact absurd hlt (by decide)

end LakeOS.Analysis
