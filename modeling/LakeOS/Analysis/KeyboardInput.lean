import LakeOS.Model.Ps2

/-!
# What the readers of the keyboard deliver

`getchar` and `gets` take what they deliver out of the buffer: the characters left over
from one call are the first ones of the next.  `PS2_read_bytes` leaves them in, so that
they are delivered again, and it has no result.

A `gets` of more than 127 characters leaves some of them behind the terminator, and a
`getchar` that finds the buffer empty moves its terminator out.
-/

set_option autoImplicit false

namespace LakeOS.Analysis

open LakeOS.Library LakeOS.Model

/-- A key with a character. -/
def CharKey (keycode : ℕ) : Prop := keyChar keycode ≠ 0

instance (keycode : ℕ) : Decidable (CharKey keycode) := inferInstanceAs (Decidable (_ ≠ _))

/-- The characters left over and those of each line fit the buffer, with the terminator. -/
def LinesFit : List KeyboardRead → List (List ℕ) → Store Byte → Prop
  | call :: calls, line :: lines, m =>
      strlen m 0 + line.length < ps2StdinSize ∧
        LinesFit calls lines (call.take (ps2Read line m)).2
  | _, _, _ => True

instance decidableLinesFit : ∀ (calls : List KeyboardRead) (lines : List (List ℕ))
    (m : Store Byte), Decidable (LinesFit calls lines m)
  | call :: calls, line :: lines, m =>
      have : Decidable (LinesFit calls lines (call.take (ps2Read line m)).2) :=
        decidableLinesFit calls lines _
      inferInstanceAs (Decidable (_ ∧ _))
  | [], _, _ => inferInstanceAs (Decidable True)
  | _ :: _, [], _ => inferInstanceAs (Decidable True)

/-- A call that takes what it delivers, and no terminator with a byte behind it. -/
def CleanRead : KeyboardRead → Store Byte → Prop
  | .getchar, m => m 0 ≠ 0 ∨ m 1 = 0
  | .gets, _ => True
  | .readBytes _, _ => False

instance : ∀ (call : KeyboardRead) (m : Store Byte), Decidable (CleanRead call m)
  | .getchar, m => inferInstanceAs (Decidable (m 0 ≠ 0 ∨ m 1 = 0))
  | .gets, _ => inferInstanceAs (Decidable True)
  | .readBytes _, _ => inferInstanceAs (Decidable False)

/-- All calls of a session are clean, each when its line has been typed. -/
def CleanReads : List KeyboardRead → List (List ℕ) → Store Byte → Prop
  | call :: calls, line :: lines, m =>
      CleanRead call (ps2Read line m) ∧ CleanReads calls lines (call.take (ps2Read line m)).2
  | _, _, _ => True

instance decidableCleanReads : ∀ (calls : List KeyboardRead) (lines : List (List ℕ))
    (m : Store Byte), Decidable (CleanReads calls lines m)
  | call :: calls, line :: lines, m =>
      have : Decidable (CleanReads calls lines (call.take (ps2Read line m)).2) :=
        decidableCleanReads calls lines _
      inferInstanceAs (Decidable (_ ∧ _))
  | [], _, _ => inferInstanceAs (Decidable True)
  | _ :: _, [], _ => inferInstanceAs (Decidable True)

/-- The characters delivered in a session. -/
def delivered (results : List (KeyboardRead × ReadResult)) : List Byte :=
  results.flatMap fun result => result.2.chars

/-- What is delivered is the beginning of what is typed, and each `PS2_read_bytes` returns
the number of bytes it has stored. -/
def DeliversOnce (calls : List KeyboardRead) (lines : List (List ℕ)) : Prop :=
  delivered (session calls lines emptyStdin) <+: lines.flatMap (fun line => line.map keyChar) ∧
    ∀ bytes result, (.readBytes bytes, result) ∈ session calls lines emptyStdin →
      result.size = some result.chars.length

/-! ## The buffer -/

/-- The buffer holds the characters `u` and a terminator. -/
structure Holds (m : Store Byte) (u : List Byte) : Prop where
  length_lt : u.length < ps2StdinSize
  ne_zero : ∀ c ∈ u, c ≠ 0
  cells : ∀ i, (hi : i < u.length) → m i = u[i]
  terminator : m u.length = 0

variable {m : Store Byte} {u : List Byte}

theorem holds_emptyStdin : Holds emptyStdin [] :=
  ⟨by decide, by simp, fun i hi => absurd hi (Nat.not_lt_zero i), rfl⟩

/-- INTERNAL: the buffer is a string. -/
theorem Holds.strlen (h : Holds m u) : strlen m 0 = u.length := by
  have hlt : u.length < 0xFF := h.length_lt
  apply strlenLoop_eq
  · intro i hi
    rw [Nat.zero_add, h.cells i hi]
    exact h.ne_zero _ (List.getElem_mem hi)
  · rw [Nat.zero_add]
    exact h.terminator
  · exact Nat.zero_le _
  · omega

theorem Holds.read (h : Holds m u) : m.read 0 u.length = u :=
  (Store.read_eq_iff _ _ _ _).mpr ⟨rfl, fun i hi => by rw [Nat.zero_add, h.cells i hi]⟩

/-- INTERNAL: what lies behind moves to the front. -/
theorem moved_cell (m : Store Byte) {k i : ℕ} (h : i + k < ps2StdinSize) :
    m.write 0 (m.read k (ps2StdinSize - k)) i = m (k + i) := by
  have hi : i < ps2StdinSize - k := by omega
  rw [Store.write_of_mem _ _ (Nat.zero_le i) (by simpa using hi), Store.getElem_read, Nat.sub_zero]

/-! ## Typing -/

theorem CharKey.lt {keycode : ℕ} (h : CharKey keycode) : keycode < keyboardMap.length := by
  by_contra hge
  exact h (List.getD_eq_default _ _ (Nat.not_lt.mp hge))

/-- INTERNAL: a key with a character is neither `0` nor `BACKSPACE`. -/
theorem CharKey.code {keycode : ℕ} (h : CharKey keycode) :
    (0 < keycode ∧ keycode ≤ 0x58) ∧ keycode ≠ ps2Backspace := by
  have hlt : keycode < 59 := h.lt
  refine ⟨⟨Nat.pos_of_ne_zero ?_, by omega⟩, ?_⟩
  · rintro rfl
    exact h rfl
  · rintro rfl
    exact h rfl

/-- INTERNAL: a character is put behind the others. -/
theorem Holds.ps2Key (h : Holds m u) {keycode : ℕ} (hkey : CharKey keycode)
    (hlt : u.length + 1 < ps2StdinSize) : Holds (ps2Key m keycode) (u ++ [keyChar keycode]) := by
  obtain ⟨hcode, hback⟩ := hkey.code
  unfold LakeOS.Model.ps2Key
  rw [if_pos hcode, if_neg hback]
  simp only
  rw [h.strlen, if_pos ⟨hkey, h.length_lt⟩]
  refine ⟨by simpa using hlt, fun c hc => ?_, fun i hi => ?_, ?_⟩
  · cases List.mem_append.mp hc with
    | inl hold => exact h.ne_zero c hold
    | inr hnew =>
        rw [List.mem_singleton.mp hnew]
        exact hkey
  · by_cases hold : i < u.length
    · rw [Store.write_of_lt _ _ hold, h.cells i hold, List.getElem_append_left hold]
    · rw [List.length_append, List.length_singleton] at hi
      obtain rfl : i = u.length := by omega
      simp [Store.write]
  · simp [Store.write]

theorem Holds.ps2Read (h : Holds m u) {line : List ℕ} (hline : ∀ key ∈ line, CharKey key)
    (hlt : u.length + line.length < ps2StdinSize) :
    Holds (ps2Read line m) (u ++ line.map keyChar) := by
  induction line generalizing m u with
  | nil => simpa [LakeOS.Model.ps2Read] using h
  | cons key line ih =>
      rw [List.length_cons] at hlt
      have hkey := h.ps2Key (hline key List.mem_cons_self) (by omega)
      have hrest := ih hkey (fun k hk => hline k (List.mem_cons_of_mem key hk)) (by simp; omega)
      simpa [LakeOS.Model.ps2Read] using hrest

/-! ## Reading -/

/-- INTERNAL: a call that takes what it delivers leaves the rest. -/
theorem CleanRead.take {call : KeyboardRead} (hclean : CleanRead call m) (h : Holds m u) :
    ∃ rest, u = (call.take m).1.chars ++ rest ∧ Holds (call.take m).2 rest := by
  have hlt := h.length_lt
  cases call with
  | getchar =>
      simp only [KeyboardRead.take, getchar]
      cases u with
      | nil =>
          have hempty : m 0 = 0 := h.terminator
          have hbehind : m 1 = 0 := hclean.resolve_left (not_not.mpr hempty)
          refine ⟨[], by simp [hempty], by decide, by simp, fun i hi => absurd hi (Nat.not_lt_zero i),
            ?_⟩
          exact (moved_cell m (k := 1) (i := 0) (by decide)).trans hbehind
      | cons c u =>
          have hfirst : m 0 = c := h.cells 0 (Nat.zero_lt_succ _)
          have hne : ¬ c = 0#8 := h.ne_zero c List.mem_cons_self
          rw [List.length_cons] at hlt
          refine ⟨u, by simp [hfirst, hne], by omega,
            fun d hd => h.ne_zero d (List.mem_cons_of_mem c hd), fun i hi => ?_, ?_⟩
          · rw [moved_cell m (k := 1) (by omega), Nat.add_comm, h.cells (i + 1) (by simpa using hi),
              List.getElem_cons_succ]
          · rw [moved_cell m (k := 1) (by omega), Nat.add_comm]
            exact h.terminator
  | gets =>
      simp only [KeyboardRead.take, gets]
      rw [h.strlen, h.read]
      refine ⟨[], by simp, by decide, by simp, fun i hi => absurd hi (Nat.not_lt_zero i), ?_⟩
      exact (moved_cell m (k := u.length) (i := 0) (by omega)).trans h.terminator
  | readBytes bytes => exact hclean.elim

/-- INTERNAL: the calls of a session are those for which a line is typed. -/
theorem session_calls (calls : List KeyboardRead) (lines : List (List ℕ)) (m : Store Byte) :
    (session calls lines m).map Prod.fst = calls.take lines.length := by
  induction calls generalizing lines m with
  | nil => simp [session]
  | cons call calls ih =>
      cases lines with
      | nil => simp [session]
      | cons line lines => simp [session, ih]

/-- INTERNAL: `PS2_read_bytes` returns nothing. -/
theorem session_readBytes {calls : List KeyboardRead} {lines : List (List ℕ)} {m : Store Byte}
    {bytes : ℕ} {result : ReadResult} (h : (.readBytes bytes, result) ∈ session calls lines m) :
    result.size = none := by
  induction calls generalizing lines m with
  | nil => simp [session] at h
  | cons call calls ih =>
      cases lines with
      | nil => simp [session] at h
      | cons line lines =>
          rw [session] at h
          cases List.mem_cons.mp h with
          | inl heq =>
              obtain ⟨rfl, rfl⟩ := Prod.mk.inj heq
              rfl
          | inr hlater => exact ih hlater

/-- INTERNAL: a session delivers what is left over and then what is typed. -/
theorem session_isPrefix {calls : List KeyboardRead} {lines : List (List ℕ)} (h : Holds m u)
    (hchars : ∀ line ∈ lines, ∀ key ∈ line, CharKey key) (hfit : LinesFit calls lines m)
    (hclean : CleanReads calls lines m) :
    delivered (session calls lines m) <+: u ++ lines.flatMap fun line => line.map keyChar := by
  induction calls generalizing m u lines with
  | nil => simp [session, delivered]
  | cons call calls ih =>
      cases lines with
      | nil => simp [session, delivered]
      | cons line lines =>
          obtain ⟨hlt, hfit⟩ := hfit
          obtain ⟨hcall, hclean⟩ := hclean
          rw [h.strlen] at hlt
          have hread := h.ps2Read (hchars line List.mem_cons_self) hlt
          obtain ⟨rest, hsplit, hrest⟩ := hcall.take hread
          have hlater := ih hrest (fun l hl => hchars l (List.mem_cons_of_mem line hl)) hfit hclean
          rw [session, delivered, List.flatMap_cons, List.flatMap_cons, ← List.append_assoc,
            hsplit, List.append_assoc]
          exact (List.prefix_append_right_inj _).mpr hlater

/-- INTERNAL: no clean call is one of `PS2_read_bytes`. -/
theorem CleanReads.ne_readBytes {calls : List KeyboardRead} {lines : List (List ℕ)}
    (hclean : CleanReads calls lines m) :
    ∀ call ∈ calls.take lines.length, ∀ bytes, call ≠ .readBytes bytes := by
  induction calls generalizing m lines with
  | nil => simp
  | cons call calls ih =>
      cases lines with
      | nil => simp
      | cons line lines =>
          intro c hc bytes
          rw [List.length_cons, List.take_succ_cons] at hc
          cases List.mem_cons.mp hc with
          | inl heq =>
              rintro rfl
              rw [← heq] at hclean
              exact hclean.1
          | inr hlater => exact ih hclean.2 c hlater bytes

/-- **Keyboard input is delivered once**, and the bytes read are counted, if all calls are
clean; and not if a line is typed for a call of `PS2_read_bytes`.
SRCLINE: ps2.c:102-145, getchar.c:9-15, gets.c:9-19, dev.c:112-116 -/
theorem clean_reads_deliver_once {calls : List KeyboardRead} {lines : List (List ℕ)}
    (hchars : ∀ line ∈ lines, ∀ key ∈ line, CharKey key) (hfit : LinesFit calls lines emptyStdin) :
    (CleanReads calls lines emptyStdin → DeliversOnce calls lines) ∧
      (DeliversOnce calls lines →
        ∀ call ∈ calls.take lines.length, ∀ bytes, call ≠ .readBytes bytes) := by
  constructor
  · intro hclean
    refine ⟨session_isPrefix holds_emptyStdin hchars hfit hclean, fun bytes result hresult => ?_⟩
    have hcall := List.mem_map_of_mem (f := Prod.fst) hresult
    rw [session_calls] at hcall
    exact absurd rfl (hclean.ne_readBytes _ hcall bytes)
  · rintro ⟨-, hsizes⟩ call hcall bytes rfl
    rw [← session_calls calls lines emptyStdin] at hcall
    obtain ⟨⟨call, result⟩, hresult, rfl⟩ := List.mem_map.mp hcall
    have hsize := hsizes bytes result hresult
    rw [session_readBytes hresult] at hsize
    cases hsize

/-- The line "ab" and an empty line. -/
def abAndEmpty : List (List ℕ) := [[0x1E, 0x30], []]

theorem clean_reads_deliver_once_ab :
    DeliversOnce [.getchar, .gets] abAndEmpty ∧
      ¬ DeliversOnce [.readBytes 10, .gets] abAndEmpty :=
  ⟨(clean_reads_deliver_once (by decide) (by decide +kernel)).1 (by decide +kernel),
    fun h => (clean_reads_deliver_once (by decide) (by decide +kernel)).2 h (.readBytes 10)
      List.mem_cons_self 10 rfl⟩

/-- After `PS2_read_bytes` has stored "ab", `gets` delivers it again. -/
theorem read_bytes_delivers_twice :
    delivered (session [.readBytes 10, .gets] abAndEmpty emptyStdin) =
        [0x61, 0x62, 0x61, 0x62] ∧
      ¬ ∀ (calls : List KeyboardRead) (lines : List (List ℕ)),
        (∀ line ∈ lines, ∀ key ∈ line, CharKey key) → LinesFit calls lines emptyStdin →
          DeliversOnce calls lines := by
  have hrun : delivered (session [.readBytes 10, .gets] abAndEmpty emptyStdin) =
      [0x61, 0x62, 0x61, 0x62] := by decide +kernel
  refine ⟨hrun, fun h => ?_⟩
  have hprefix := (h [.readBytes 10, .gets] abAndEmpty (by decide) (by decide +kernel)).1
  rw [hrun] at hprefix
  exact absurd hprefix (by decide)

end LakeOS.Analysis
