import LakeOS.Analysis.TerminalScreen

/-!
# The cursor of the terminal

`terminal_putchar` keeps the cursor on the screen, and what it put can be deleted.
`terminal_delchar` in column 0 goes to column `TERMINAL_WIDTH` and not to the last one: the
cell that it blanks is the one it comes from, and since the test of `terminal_putchar` is
an equality nothing brings the column back (`cursor_bounds_iff`).
-/

set_option autoImplicit false

namespace LakeOS.Analysis

open LakeOS.Library LakeOS.Model

variable {s : Tty} {c : Byte}

/-- The cursor is on the screen. -/
structure InScreen (s : Tty) : Prop where
  row_lt : s.terminalRow < 25
  col_lt : s.terminalCol < 80

/-- The indices that a call writes. -/
def TtyCall.writes : TtyCall → Tty → List ℕ
  | .putchar c, s => s.putcharWrites c
  | .write str, s => s.writeWrites str
  | .delchar, s => s.delcharWrites

/-- This put scrolls. -/
def PutScrolls (s : Tty) (c : Byte) : Prop :=
  (c = 0x0A ∨ add32 s.terminalCol 1 = terminalWidth) ∧ add32 s.terminalRow 1 = terminalHeight

/-- A put and a delete leave the terminal as it was, with a blank in the cell. -/
def Undone (s : Tty) (c : Byte) : Prop :=
  (s.terminalPutchar c).terminalDelchar =
    (s.terminalPutentryat 0x20 s.terminalColor s.terminalCol s.terminalRow).terminalUpdateCursor

/-- The cursor stays on the screen, all writes go to the buffer and a delete takes the put
before it back. -/
structure CursorBounds (calls : List TtyCall) (s : Tty) : Prop where
  cursor : Throughout TtyCall.step InScreen calls s
  written : EachCall TtyCall.step (fun call s => ∀ i ∈ call.writes s, i < 80 * 25) calls s
  undone : ∀ (before after' : List TtyCall) (call : TtyCall) (str : List Byte) (c : Byte),
    calls = before ++ call :: .delchar :: after' → call.text = str ++ [c] → c ≠ 0x0A →
    ¬ PutScrolls (str.foldl Tty.terminalPutchar (after TtyCall.step before s)) c →
    Undone (str.foldl Tty.terminalPutchar (after TtyCall.step before s)) c

/-! ## Puts -/

theorem inScreen_boot (m : Memory) : InScreen (bootTty m) := by
  refine ⟨?_, ?_⟩
  · exact Nat.zero_lt_succ 24
  · exact Nat.zero_lt_succ 79

/-- SRCLINE: tty.c:55-58, 61-63 -/
theorem inScreen_nextRow (hrow : s.terminalRow < 25) : InScreen s.nextRow := by
  have hsucc : add32 s.terminalRow 1 = s.terminalRow + 1 := by
    apply add32_eq
    omega
  unfold Tty.nextRow
  simp only [hsucc]
  by_cases hlast : s.terminalRow + 1 = terminalHeight
  · rw [if_pos hlast]
    exact ⟨Nat.lt_succ_self 24, Nat.zero_lt_succ 79⟩
  · rw [if_neg hlast]
    refine ⟨?_, Nat.zero_lt_succ 79⟩
    unfold terminalHeight at hlast
    simp only
    omega

/-- A newline.
SRCLINE: tty.c:60-66 -/
theorem putchar_newline (s : Tty) : s.terminalPutchar 0x0A = s.nextRow.terminalUpdateCursor :=
  if_neg (not_not.mpr rfl)

/-- A character that leaves room in its row.
SRCLINE: tty.c:53-55 -/
theorem putchar_room (hnewline : c ≠ 0x0A) (hroom : add32 s.terminalCol 1 ≠ terminalWidth) :
    s.terminalPutchar c = { s.terminalPutentryat c s.terminalColor s.terminalCol s.terminalRow with
      terminalCol := add32 s.terminalCol 1 }.terminalUpdateCursor := by
  unfold Tty.terminalPutchar
  rw [if_pos hnewline]
  exact congrArg Tty.terminalUpdateCursor (if_neg hroom)

/-- A character that fills its row.
SRCLINE: tty.c:53-59 -/
theorem putchar_full (hnewline : c ≠ 0x0A) (hfull : add32 s.terminalCol 1 = terminalWidth) :
    s.terminalPutchar c = { s.terminalPutentryat c s.terminalColor s.terminalCol s.terminalRow with
      terminalCol := add32 s.terminalCol 1 }.nextRow.terminalUpdateCursor := by
  unfold Tty.terminalPutchar
  rw [if_pos hnewline]
  exact congrArg Tty.terminalUpdateCursor (if_pos hfull)

/-- SRCLINE: tty.c:52-68 -/
theorem inScreen_putchar (hs : InScreen s) (c : Byte) : InScreen (s.terminalPutchar c) := by
  have hrow := hs.row_lt
  have hcol := hs.col_lt
  have hsucc : add32 s.terminalCol 1 = s.terminalCol + 1 := by
    apply add32_eq
    omega
  by_cases hnewline : c = 0x0A
  · have hnext := inScreen_nextRow hrow
    rw [hnewline, putchar_newline]
    exact ⟨hnext.row_lt, hnext.col_lt⟩
  · by_cases hfull : add32 s.terminalCol 1 = terminalWidth
    · rw [putchar_full hnewline hfull]
      have hnext := inScreen_nextRow (s := { s.terminalPutentryat c s.terminalColor s.terminalCol
        s.terminalRow with terminalCol := add32 s.terminalCol 1 }) hrow
      exact ⟨hnext.row_lt, hnext.col_lt⟩
    · rw [putchar_room hnewline hfull]
      refine ⟨hrow, ?_⟩
      rw [hsucc] at hfull
      simp only [updateCursor_col, hsucc]
      unfold terminalWidth at hfull
      omega

theorem inScreen_write (str : List Byte) (hs : InScreen s) :
    InScreen (str.foldl Tty.terminalPutchar s) := by
  induction str generalizing s with
  | nil => exact hs
  | cons c str ih => exact ih (inScreen_putchar hs c)

/-- A call that puts characters. -/
theorem step_of_put {call : TtyCall} (hput : call ≠ .delchar) (s : Tty) :
    call.step s = call.text.foldl Tty.terminalPutchar s := by
  cases call with
  | putchar c => rfl
  | write str =>
      rw [TtyCall.step, Tty.terminalWrite, List.take_length]
      rfl
  | delchar => exact absurd rfl hput

/-- A delete behind the first column.
SRCLINE: tty.c:30-31 -/
theorem delchar_of_ne (hne : s.terminalCol ≠ 0) :
    s.terminalDelchar = (Tty.terminalPutentryat { s with terminalCol := sub32 s.terminalCol 1 }
      0x20 s.terminalColor (sub32 s.terminalCol 1) s.terminalRow).terminalUpdateCursor := by
  unfold Tty.terminalDelchar
  rw [if_pos hne]

/-- A delete in the first column.
SRCLINE: tty.c:32-33 -/
theorem delchar_of_eq (hzero : s.terminalCol = 0) :
    s.terminalDelchar = (Tty.terminalPutentryat { s with terminalCol := terminalWidth
                                                         terminalRow := sub32 s.terminalRow 1 }
      0x20 s.terminalColor terminalWidth (sub32 s.terminalRow 1)).terminalUpdateCursor := by
  unfold Tty.terminalDelchar
  rw [if_neg (not_not.mpr hzero)]

/-- INTERNAL: **the column is what a delete depends on**.
SRCLINE: tty.c:29-36 -/
theorem inScreen_delchar_iff (hs : InScreen s) :
    InScreen s.terminalDelchar ↔ s.terminalCol ≠ 0 := by
  have hrow := hs.row_lt
  have hcol := hs.col_lt
  constructor
  · intro hafter hzero
    have hcol' := hafter.col_lt
    rw [delchar_of_eq hzero] at hcol'
    exact absurd hcol' (Nat.lt_irrefl 80)
  · intro hne
    have hpred : sub32 s.terminalCol 1 = s.terminalCol - 1 := by
      apply sub32_eq
      · omega
      · omega
    rw [delchar_of_ne hne, hpred]
    refine ⟨hrow, ?_⟩
    simp only [updateCursor_col, Tty.terminalPutentryat]
    omega

/-- INTERNAL: one call, from a cursor on the screen. -/
theorem inScreen_step_iff (hs : InScreen s) (call : TtyCall) :
    InScreen (call.step s) ↔ (call = .delchar → s.terminalCol ≠ 0) := by
  by_cases hput : call = .delchar
  · subst hput
    rw [TtyCall.step, inScreen_delchar_iff hs]
    exact ⟨fun hne _ => hne, fun hne => hne rfl⟩
  · rw [step_of_put hput]
    exact ⟨fun _ hdel => absurd hdel hput, fun _ => inScreen_write _ hs⟩

/-! ## Writes -/

theorem mem_scrollWrites {i : ℕ} : i ∈ Tty.scrollWrites ↔ i < 80 * 25 := by
  unfold Tty.scrollWrites
  rw [List.mem_append, List.mem_range, List.mem_map]
  constructor
  · rintro (hup | ⟨x, hx, rfl⟩)
    · omega
    · rw [List.mem_range] at hx
      omega
  · intro hi
    by_cases hup : i < 80 * 24
    · exact Or.inl hup
    · refine Or.inr ⟨i - 80 * 24, ?_, by omega⟩
      rw [List.mem_range]
      omega

theorem cellIndex_lt (hs : InScreen s) : cellIndex s.terminalCol s.terminalRow < 80 * 25 := by
  have hrow := hs.row_lt
  have hcol := hs.col_lt
  rw [cellIndex_eq hcol.le hrow]
  omega

/-- SRCLINE: tty.c:52-68 -/
theorem putcharWrites_lt (hs : InScreen s) (c : Byte) : ∀ i ∈ s.putcharWrites c, i < 80 * 25 := by
  intro i hi
  unfold Tty.putcharWrites at hi
  by_cases hnewline : c = 0x0A
  · rw [if_neg (not_not.mpr hnewline)] at hi
    split at hi
    · exact mem_scrollWrites.mp hi
    · exact absurd hi List.not_mem_nil
  · rw [if_pos hnewline, List.mem_cons] at hi
    cases hi with
    | inl hcell =>
        rw [hcell]
        exact cellIndex_lt hs
    | inr hi =>
        split at hi
        · exact mem_scrollWrites.mp hi
        · exact absurd hi List.not_mem_nil

theorem writeWrites_lt (str : List Byte) (hs : InScreen s) :
    ∀ i ∈ s.writeWrites str, i < 80 * 25 := by
  induction str generalizing s with
  | nil => exact fun i hi => absurd hi List.not_mem_nil
  | cons c str ih =>
      intro i hi
      rw [Tty.writeWrites, List.mem_append] at hi
      cases hi with
      | inl hfirst => exact putcharWrites_lt hs c i hfirst
      | inr hrest => exact ih (inScreen_putchar hs c) i hrest

/-- SRCLINE: tty.c:29-36 -/
theorem delcharWrites_lt (hs : InScreen s) (hne : s.terminalCol ≠ 0) :
    ∀ i ∈ s.delcharWrites, i < 80 * 25 := by
  have hrow := hs.row_lt
  have hcol := hs.col_lt
  have hpred : sub32 s.terminalCol 1 = s.terminalCol - 1 := by
    apply sub32_eq
    · omega
    · omega
  intro i hi
  unfold Tty.delcharWrites at hi
  rw [if_pos hne, List.mem_singleton, hpred, cellIndex_eq (by omega) hrow] at hi
  omega

/-- INTERNAL: the writes of one call. -/
theorem writes_lt (call : TtyCall) (hs : InScreen s)
    (hcol : call = .delchar → s.terminalCol ≠ 0) : ∀ i ∈ call.writes s, i < 80 * 25 := by
  cases call with
  | putchar c => exact putcharWrites_lt hs c
  | write str => exact writeWrites_lt str hs
  | delchar => exact delcharWrites_lt hs (hcol rfl)

/-- INTERNAL: no other cell changes in a scroll.
SRCLINE: tty.c:38-50 -/
theorem charByte_nextRow {i : ℕ}
    (hi : i ∉ if add32 s.terminalRow 1 = terminalHeight then Tty.scrollWrites else []) :
    charByte s.nextRow.memory i = charByte s.memory i := by
  unfold Tty.nextRow
  dsimp only
  by_cases hlast : add32 s.terminalRow 1 = terminalHeight
  · rw [if_pos hlast, mem_scrollWrites] at hi
    rw [if_pos hlast, scroll_memory, charByte_fillRow (by norm_num) le_rfl, if_neg (by omega)]
    unfold charByte
    rw [copyUp_of_ge (by norm_num) (by omega)]
  · rw [if_neg hlast]

/-- INTERNAL: no other cell changes in a put.
SRCLINE: tty.c:52-68 -/
theorem charByte_putchar (hs : InScreen s) (c : Byte) {i : ℕ} (hi : i ∉ s.putcharWrites c) :
    charByte (s.terminalPutchar c).memory i = charByte s.memory i := by
  have hindex := cellIndex_lt hs
  unfold Tty.putcharWrites at hi
  by_cases hnewline : c = 0x0A
  · rw [if_neg (not_not.mpr hnewline)] at hi
    rw [hnewline, putchar_newline, updateCursor_memory, charByte_nextRow hi]
  · rw [if_pos hnewline, List.mem_cons, not_or] at hi
    obtain ⟨hcell, hscroll⟩ := hi
    have hput : charByte (setCell s.memory (cellIndex s.terminalCol s.terminalRow)
        (vgaEntry c s.terminalColor)) i = charByte s.memory i := by
      rw [charByte_setCell (by omega), if_neg hcell]
    by_cases hfull : add32 s.terminalCol 1 = terminalWidth
    · simp only [hfull, true_and] at hscroll
      rw [putchar_full hnewline hfull, updateCursor_memory]
      refine Eq.trans (charByte_nextRow ?_) hput
      exact hscroll
    · rw [putchar_room hnewline hfull, updateCursor_memory]
      exact hput

/-- **A call writes no other cell** than `writes` lists.
SRCLINE: tty.c:29-75 -/
theorem charByte_step (hs : InScreen s) (call : TtyCall) {i : ℕ} (hi : i ∉ call.writes s) :
    charByte (call.step s).memory i = charByte s.memory i := by
  have hwrite : ∀ (str : List Byte) (s : Tty), InScreen s → i ∉ s.writeWrites str →
      charByte (str.foldl Tty.terminalPutchar s).memory i = charByte s.memory i := by
    intro str
    induction str with
    | nil => exact fun s _ _ => rfl
    | cons c str ih =>
        intro s hs hi
        rw [Tty.writeWrites, List.mem_append, not_or] at hi
        exact (ih _ (inScreen_putchar hs c) hi.2).trans (charByte_putchar hs c hi.1)
  cases call with
  | putchar c => exact charByte_putchar hs c hi
  | write str =>
      rw [step_of_put (by simp)]
      exact hwrite str s hs hi
  | delchar =>
      have hrow := hs.row_lt
      have hcol := hs.col_lt
      simp only [TtyCall.writes, Tty.delcharWrites] at hi
      by_cases hzero : s.terminalCol = 0
      · rw [if_neg (not_not.mpr hzero), List.mem_singleton] at hi
        rw [TtyCall.step, delchar_of_eq hzero, updateCursor_memory]
        simp only [Tty.terminalPutentryat]
        rw [charByte_setCell, if_neg hi]
        cases hrows : s.terminalRow with
        | zero => decide
        | succ row =>
            rw [sub32_eq (by omega) (by omega), cellIndex_eq le_rfl (by omega)]
            omega
      · rw [if_pos hzero, List.mem_singleton] at hi
        rw [TtyCall.step, delchar_of_ne hzero, updateCursor_memory]
        simp only [Tty.terminalPutentryat]
        rw [charByte_setCell, if_neg hi]
        rw [sub32_eq (by omega) (by omega), cellIndex_eq (by omega) hrow]
        omega

/-! ## A put and a delete -/

/-- INTERNAL: a put in the last column ends in column 0.
SRCLINE: tty.c:52-59 -/
theorem putchar_last_col (hnewline : c ≠ 0x0A) (hlast : add32 s.terminalCol 1 = terminalWidth) :
    (s.terminalPutchar c).terminalCol = 0 := by
  rw [putchar_full hnewline hlast, updateCursor_col]
  unfold Tty.nextRow
  dsimp only
  split
  · rfl
  · rfl

/-- INTERNAL: **a put that leaves room in its row** is taken back by a delete.
SRCLINE: tty.c:29-36, 52-59 -/
theorem undone_of_col_lt (hs : InScreen s) (hnewline : c ≠ 0x0A)
    (hroom : s.terminalCol + 1 < 80) : Undone s c := by
  have hsucc : add32 s.terminalCol 1 = s.terminalCol + 1 := by
    apply add32_eq
    omega
  have hpred : sub32 (s.terminalCol + 1) 1 = s.terminalCol := by
    apply sub32_eq
    · omega
    · omega
  have hindex := cellIndex_lt hs
  have hput := putchar_room (s := s) hnewline (by rw [hsucc]; exact Nat.ne_of_lt hroom)
  rw [hsucc] at hput
  unfold Undone
  rw [hput, delchar_of_ne (Nat.succ_ne_zero s.terminalCol)]
  simp only [Tty.terminalUpdateCursor, Tty.terminalPutentryat, hpred]
  rw [setCell_eq (by omega), setCell_eq (by omega), setCell_eq (by omega), Store.save_save]

/-! ## Runs -/

/-- No delete is made in column 0. -/
def NoDeleteAtStart (calls : List TtyCall) (s : Tty) : Prop :=
  EachCall TtyCall.step (fun call s => call = .delchar → s.terminalCol ≠ 0) calls s

/-- **The cursor is bounded** exactly as long as no delete is made in column 0.
SRCLINE: tty.c:29-36, 52-75 -/
theorem cursor_bounds_iff (m : Memory) (calls : List TtyCall) :
    CursorBounds calls (bootTty m) ↔ NoDeleteAtStart calls (bootTty m) := by
  have hboot := inScreen_boot m
  have hvalid : EachCall TtyCall.step (fun _ _ => True) calls (bootTty m) :=
    eachCall_true calls (bootTty m)
  have hcursor : Throughout TtyCall.step InScreen calls (bootTty m) ↔
      NoDeleteAtStart calls (bootTty m) :=
    throughout_iff_eachCall (I := fun _ => True) (fun _ _ _ _ => trivial)
      (fun call _ _ _ hs => inScreen_step_iff hs call) trivial hboot hvalid
  refine ⟨fun hbounds => hcursor.mp hbounds.cursor, fun hcols => ?_⟩
  have hscreen := hcursor.mpr hcols
  refine ⟨hscreen, ?_, ?_⟩
  · exact eachCall_of_throughout (P := InScreen) (fun call _ hs hcol => writes_lt call hs hcol)
      hscreen hcols
  · intro before after' call str c hcalls htext hnewline _
    subst hcalls
    have hput : call ≠ .delchar := by
      rintro rfl
      exact absurd htext (by simp [TtyCall.text])
    have hs := inScreen_write str hscreen.reached
    -- the delete is made in the state after the put
    have hcol : ((str.foldl Tty.terminalPutchar (after TtyCall.step before
        (bootTty m))).terminalPutchar c).terminalCol ≠ 0 := by
      rw [← List.singleton_append, ← List.append_assoc] at hcols
      have hmade := hcols.made rfl
      rwa [after_append, after, after, step_of_put hput, htext, List.foldl_append] at hmade
    apply undone_of_col_lt hs hnewline
    have hcol_lt := hs.col_lt
    apply lt_of_le_of_ne hcol_lt
    intro hlast
    apply hcol
    apply putchar_last_col hnewline
    rw [add32_eq (by omega)]
    exact hlast

/-- What the keyboard makes of a line: no more deletes than puts, `held` of them are left, and
at most 254 deletes in a row, `deleted` until now.
SRCLINE: ps2.c:102-133 -/
def keyboardEdits : ℕ → ℕ → List TtyCall → Bool
  | _, _, [] => true
  | held, deleted, call :: calls =>
      if call = .delchar then
        0 < held && deleted < 254 && keyboardEdits (held - 1) (deleted + 1) calls
      else
        keyboardEdits (call.text.foldl (fun held c => if c = 0x0A then 0 else held + 1) held)
          (if call.text = [] then deleted else 0) calls

/-- A full row and a delete: the cursor goes to column 80. -/
theorem delete_after_full_row :
    keyboardEdits 0 0 [.write (List.replicate 80 0x41), .delchar] = true ∧
      ¬ CursorBounds [.write (List.replicate 80 0x41), .delchar] (bootTty fun _ => 0) := by
  refine ⟨by decide, fun hbounds => ?_⟩
  have hwrapped : (TtyCall.step (.write (List.replicate 80 0x41)) (bootTty fun _ => 0)).terminalCol
      = 0 := by decide +kernel
  have hscreen := hbounds.cursor.2.first
  have hdeleted := hbounds.cursor.2.2.first
  exact (inScreen_step_iff hscreen .delchar).mp hdeleted rfl hwrapped

end LakeOS.Analysis
