import LakeOS.Library.Store

/-!
# The keyboard

`PS2_read` collects characters in the static buffer `ps2_stdin` until the key `ENTER` and
returns the buffer.  Its three callers take from it in their own ways.

A line is the list of the scancodes of the keys that are pressed before `ENTER`.  The
buffer is a store, so an access behind its end shows.  The words that `memmove` copies
lie above the place they are copied to, so the copy reads each byte before it writes it.
-/

set_option autoImplicit false

namespace LakeOS.Model

open LakeOS.Library

/-- `PS2_STDIN_SIZE`. -/
abbrev ps2StdinSize : ℕ := 0xFF

/-- `PS2_BACKSPACE`. -/
abbrev ps2Backspace : ℕ := 0x0E

/-- `KEYBOARD_MAP`, up to its last character.
SRCLINE: ps2.c:64-87 -/
def keyboardMap : List Byte :=
  [0, 0,
    0x31, 0x32, 0x33, 0x34, 0x35, 0x36, 0x37, 0x38, 0x39, 0x30,
    0x2D, 0x3D,
    0, 0,
    0x71, 0x77, 0x65, 0x72, 0x74, 0x79, 0x75, 0x69, 0x6F, 0x70,
    0x5B, 0x5D,
    0, 0,
    0x61, 0x73, 0x64, 0x66, 0x67, 0x68, 0x6A, 0x6B, 0x6C,
    0x3B, 0x27, 0x60,
    0,
    0x5C,
    0x7A, 0x78, 0x63, 0x76, 0x62, 0x6E, 0x6D,
    0x2C, 0x2E, 0x2F,
    0,
    0x2A,
    0,
    0x20,
    0]

/-- The character of a key, `0` for a key without one. -/
def keyChar (keycode : ℕ) : Byte := keyboardMap.getD keycode 0

/-- The length of the string at `a`; the fuel is the number of addresses. -/
def strlenLoop (m : Store Byte) (a : ℕ) : (fuel len : ℕ) → ℕ
  | 0, len => len
  | fuel + 1, len => if m (a + len) = 0 then len else strlenLoop m a fuel (len + 1)

/-- SRCLINE: strlen.c:3-8 -/
def strlen (m : Store Byte) (a : ℕ) : ℕ := strlenLoop m a (2 ^ 32) 0

theorem strlenLoop_eq {m : Store Byte} {a n : ℕ} (hlen : ∀ i < n, m (a + i) ≠ 0)
    (hend : m (a + n) = 0) {fuel i : ℕ} (hi : i ≤ n) (hfuel : n - i < fuel) :
    strlenLoop m a fuel i = n := by
  induction fuel generalizing i with
  | zero => omega
  | succ fuel ih =>
      unfold strlenLoop
      by_cases heq : i = n
      · rw [if_pos (heq ▸ hend), heq]
      · rw [if_neg (hlen i (by omega))]
        exact ih (by omega) (by omega)

/-- INTERNAL: `strlen` of a string.
SRCLINE: strlen.c:3-8 -/
theorem strlen_eq {m : Store Byte} {a : ℕ} {u : List Byte} (hread : m.read a (u.length + 1) = u ++ [0])
    (hzero : ∀ c ∈ u, c ≠ 0) (hlt : u.length < 2 ^ 32) : strlen m a = u.length := by
  obtain ⟨-, hcell⟩ := (Store.read_eq_iff _ _ _ _).mp hread
  apply strlenLoop_eq
  · intro i hi
    rw [hcell i (by simp; omega), List.getElem_append_left hi]
    exact hzero _ (List.getElem_mem hi)
  · rw [hcell u.length (by simp), List.getElem_concat_length rfl]
  · exact Nat.zero_le _
  · omega

/-- What one key does to the buffer.
SRCLINE: ps2.c:106-122 -/
def ps2Key (m : Store Byte) (keycode : ℕ) : Store Byte :=
  if 0 < keycode ∧ keycode ≤ 0x58 then
    if keycode = ps2Backspace then
      if m 0 ≠ 0 then m.write (strlen m 0 - 1) [0] else m
    else
      let c := keyChar keycode
      -- `strncat` ends the string behind the character
      if c ≠ 0 ∧ strlen m 0 < ps2StdinSize then m.write (strlen m 0) [c, 0] else m
  else m

/-- `PS2_read`: the buffer with a further line in it.
SRCLINE: ps2.c:102-132 -/
def ps2Read (line : List ℕ) (m : Store Byte) : Store Byte := line.foldl ps2Key m

/-- The calls that read from the keyboard. -/
inductive KeyboardRead where
  | getchar
  | gets
  | readBytes (bytes : ℕ)
deriving DecidableEq

/-- The characters that a call delivers and, for `PS2_read_bytes`, its result. -/
structure ReadResult where
  chars : List Byte
  size : Option ℕ
deriving DecidableEq

/-- SRCLINE: getchar.c:9-15 -/
def getchar (m : Store Byte) : ReadResult × Store Byte :=
  (⟨if m 0 = 0 then [] else [m 0], none⟩, m.write 0 (m.read 1 (ps2StdinSize - 1)))

/-- SRCLINE: gets.c:9-19 -/
def gets (m : Store Byte) : ReadResult × Store Byte :=
  let len := strlen m 0
  (⟨m.read 0 len, none⟩, m.write 0 (m.read len (ps2StdinSize - len)))

/-- `PS2_read_bytes` stores characters and ends without a `return`.
SRCLINE: ps2.c:134-144, dev.c:112-116 -/
def ps2ReadBytes (bytes : ℕ) (m : Store Byte) : ReadResult × Store Byte :=
  let size := strlen m 0
  (⟨if bytes < size then m.read 0 bytes else m.read 0 size, none⟩, m)

/-- A call, from the moment its line has been typed. -/
def KeyboardRead.take : KeyboardRead → Store Byte → ReadResult × Store Byte
  | .getchar => LakeOS.Model.getchar
  | .gets => LakeOS.Model.gets
  | .readBytes bytes => ps2ReadBytes bytes

/-- The calls that return, with their results: each waits for a line of its own. -/
def session : List KeyboardRead → List (List ℕ) → Store Byte → List (KeyboardRead × ReadResult)
  | call :: calls, line :: lines, m =>
      let result := call.take (ps2Read line m)
      (call, result.1) :: session calls lines result.2
  | _, _, _ => []

/-- `ps2_stdin` at the start. -/
def emptyStdin : Store Byte := fun _ => 0

end LakeOS.Model
