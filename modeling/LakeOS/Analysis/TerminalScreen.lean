import LakeOS.Library.Page
import LakeOS.Library.Runs
import LakeOS.Model.Tty
import Mathlib.Algebra.Order.Ring.Star

/-!
# The terminal shows the end of its page

The text that was written since `terminal_init` is a page of rows of 80 characters.  After
every call the buffer holds the last 25 rows of this page (`terminal_renders_page`): a
scroll moves the rows up by one, which is the page seen one row further down.
-/

set_option autoImplicit false

namespace LakeOS.Analysis

open LakeOS.Library LakeOS.Model

variable {m : Memory} {s : Tty} {c color : Byte} {i k : ℕ}

/-! ## The characters of the buffer -/

/-- The character byte of a cell. -/
def charByte (m : Memory) (i : ℕ) : Byte := m (terminalBuff + 2 * i)

/-- INTERNAL: the address of a cell does not wrap around. -/
theorem setCell_eq (hk : k < 2 ^ 20) (entry : BitVec 16) :
    setCell m k entry = m.save 2 (terminalBuff + 2 * k) entry.toNat := by
  unfold setCell
  rw [mul32_eq (by omega), add32_eq (by unfold terminalBuff; omega), Nat.mul_comm k 2]

theorem charByte_setCell (hk : k < 2 ^ 20) (entry : BitVec 16) :
    charByte (setCell m k entry) i =
      if i = k then BitVec.ofNat 8 entry.toNat else charByte m i := by
  rw [charByte, setCell_eq hk]
  split
  · next heq =>
      rw [heq]
      exact Store.write_add m (terminalBuff + 2 * k) (leBytes 2 entry.toNat) 0 (by simp)
  · next hne =>
      exact Store.save_of_notMem m (by omega)

/-- INTERNAL: the low byte of an entry is the character. -/
theorem low_vgaEntry (c color : Byte) : BitVec.ofNat 8 (vgaEntry c color).toNat = c := by
  rw [BitVec.ofNat_toNat]
  ext j hj
  simp only [vgaEntry, BitVec.getElem_setWidth, BitVec.getLsbD_or, BitVec.getLsbD_signExtend,
    BitVec.getLsbD_shiftLeft]
  simp [hj]
  intro hj16
  omega

theorem cellIndex_eq {x y : ℕ} (hx : x ≤ 80) (hy : y < 25) : cellIndex x y = y * 80 + x := by
  unfold cellIndex terminalWidth
  rw [mul32_eq (by omega), add32_eq (by omega)]

/-- INTERNAL: a row that is filled up to column `n`. -/
theorem charByte_fillRow {y n : ℕ} (hy : y < 25) (hn : n ≤ 80) (entry : BitVec 16) :
    charByte (fillRow entry y n m) i =
      if y * 80 ≤ i ∧ i < y * 80 + n then BitVec.ofNat 8 entry.toNat else charByte m i := by
  induction n with
  | zero => rw [fillRow, if_neg (by omega)]
  | succ n ih =>
      rw [fillRow, cellIndex_eq (by omega) hy, charByte_setCell (by omega), ih (by omega)]
      by_cases hlast : i = y * 80 + n
      · rw [if_pos hlast, if_pos (by omega)]
      · rw [if_neg hlast]
        by_cases hin : y * 80 ≤ i ∧ i < y * 80 + n
        · rw [if_pos hin, if_pos (by omega)]
        · rw [if_neg hin, if_neg (by omega)]

theorem charByte_fillRows {n : ℕ} (hn : n ≤ 25) (hi : i < n * 80) (entry : BitVec 16) :
    charByte (fillRows entry n m) i = BitVec.ofNat 8 entry.toNat := by
  induction n with
  | zero => omega
  | succ n ih =>
      rw [fillRows, charByte_fillRow (by omega) le_rfl]
      split
      · rfl
      · exact ih (by omega) (by omega)

/-- INTERNAL: the words that a scroll moves.
SRCLINE: tty.c:38-50 -/
theorem scroll_memory (s : Tty) : s.terminalScroll.memory =
    fillRow (vgaEntry 0x20 s.terminalColor) 24 80
      (copyUp s.memory terminalBuff (terminalBuff + 160) 960) := by
  have hmove : memmove s.memory terminalBuff (terminalBuff + 160) (4 * 960) =
      copyUp s.memory terminalBuff (terminalBuff + 160) 960 := memmove_words (by norm_num)
  rw [← hmove]
  rfl

/-- INTERNAL: **a scroll** moves the characters up by a row and blanks the last one.
SRCLINE: tty.c:38-50 -/
theorem charByte_scroll (hi : i < 2000) :
    charByte s.terminalScroll.memory i =
      if i < 1920 then charByte s.memory (i + 80) else 0x20 := by
  rw [scroll_memory, charByte_fillRow (by norm_num) le_rfl, low_vgaEntry]
  by_cases hup : i < 1920
  · rw [if_neg (by omega), if_pos hup]
    unfold charByte
    rw [copyUp_moved (by norm_num) (by omega)]
    congr 1
    omega
  · rw [if_pos (by omega), if_neg hup]

/-! ## The page -/

/-- The buffer shows the last rows of `rows`. -/
def ShowsRows (m : Memory) (rows : List (List Byte)) : Prop :=
  ∀ i j, i < 25 → j < 80 → charByte m (i * 80 + j) = shown 0x20 25 rows i j

/-- The buffer shows the last rows of the page, and row and column are the place of the
next character. -/
structure Shows (s : Tty) (p : Page Byte 80) : Prop where
  chars : ShowsRows s.memory p.rows
  row : s.terminalRow = p.cursorRow 25
  col : s.terminalCol = p.line.length

/-- INTERNAL: a new row below `above`.
SRCLINE: tty.c:55-58, 61-63 -/
theorem nextRow_shows {rows : List (List Byte)} (hpos : 0 < rows.length)
    (hchars : ShowsRows s.memory rows) (hrow : s.terminalRow = rows.length - 1 - (rows.length - 25)) :
    ShowsRows s.nextRow.memory (rows ++ [[]]) ∧
      s.nextRow.terminalRow = rows.length - (rows.length + 1 - 25) ∧ s.nextRow.terminalCol = 0 := by
  have hsucc : add32 s.terminalRow 1 = s.terminalRow + 1 := add32_eq (by omega)
  unfold Tty.nextRow
  dsimp only
  rw [hsucc]
  by_cases hroom : rows.length < 25
  · rw [if_neg (by unfold terminalHeight; omega)]
    refine ⟨fun i j hi hj => ?_, ?_, rfl⟩
    · rw [shown_newRow_of_lt _ hroom, ← hchars i j hi hj]
    · simp only
      omega
  · rw [if_pos (by unfold terminalHeight; omega)]
    refine ⟨fun i j hi hj => ?_, ?_, rfl⟩
    · rw [shown_newRow_of_le _ (by omega) hi, charByte_scroll (by omega)]
      by_cases hlast : i + 1 < 25
      · rw [if_pos hlast, if_pos (by omega), ← hchars (i + 1) j hlast hj]
        congr 1
        ring
      · rw [if_neg hlast, if_neg (by omega)]
    · simp only [Tty.terminalScroll]
      omega

/-- INTERNAL: a character in the cell of the cursor.
SRCLINE: tty.c:54 -/
theorem putentryat_shows {p : Page Byte 80} (hs : Shows s p) (c color : Byte) :
    ShowsRows (s.terminalPutentryat c color s.terminalCol s.terminalRow).memory
      (p.above ++ [p.line ++ [c]]) := by
  have hcol := p.line_lt
  have hrow : p.cursorRow 25 < 25 := p.cursorRow_lt (by norm_num)
  have hcursor : p.cursorRow 25 = p.above.length - (p.above.length + 1 - 25) := rfl
  intro i j hi hj
  unfold Tty.terminalPutentryat
  dsimp only
  rw [hs.row, hs.col, cellIndex_eq hcol.le hrow, charByte_setCell (by omega), low_vgaEntry,
    shown_type, hs.chars i j hi hj, Page.rows]
  by_cases hcell : i = p.cursorRow 25 ∧ j = p.line.length
  · rw [if_pos (by rw [hcell.1, hcell.2]), if_pos (by omega)]
  · rw [if_neg (by omega), if_neg (by omega)]

@[simp] theorem updateCursor_memory (s : Tty) : s.terminalUpdateCursor.memory = s.memory := rfl

@[simp] theorem updateCursor_row (s : Tty) : s.terminalUpdateCursor.terminalRow = s.terminalRow :=
  rfl

@[simp] theorem updateCursor_col (s : Tty) : s.terminalUpdateCursor.terminalCol = s.terminalCol :=
  rfl

/-- INTERNAL: **one character** of the text.
SRCLINE: tty.c:52-68 -/
theorem putchar_shows {p : Page Byte 80} (hs : Shows s p) (c : Byte) :
    Shows (s.terminalPutchar c) (p.type 0x0A c) := by
  have hlen := p.length_rows
  have hcol := p.line_lt
  unfold Tty.terminalPutchar Page.type
  by_cases hnewline : c = 0x0A
  · rw [if_neg (not_not.mpr hnewline), if_pos hnewline]
    have hrow : s.terminalRow = p.rows.length - 1 - (p.rows.length - 25) := by
      rw [hlen]
      exact hs.row
    obtain ⟨hchars, hrow', hcol'⟩ := nextRow_shows (by omega) hs.chars hrow
    refine ⟨hchars, ?_, hcol'⟩
    rw [updateCursor_row, hrow', Page.cursorRow, Page.newRow, ← Page.rows]
  · rw [if_pos hnewline, if_neg hnewline]
    have htyped := putentryat_shows hs c s.terminalColor
    have hsucc : add32 s.terminalCol 1 = p.line.length + 1 := by
      rw [hs.col, add32_eq (by omega)]
    simp only [Tty.terminalPutentryat, hsucc] at htyped ⊢
    unfold Page.put
    by_cases hroom : p.line.length + 1 < 80
    · rw [if_neg (by unfold terminalWidth; omega), dif_pos hroom]
      refine ⟨htyped, hs.row, ?_⟩
      simp
    · rw [if_pos (by unfold terminalWidth; omega), dif_neg hroom]
      have hrow : s.terminalRow = (p.above ++ [p.line ++ [c]]).length - 1 -
          ((p.above ++ [p.line ++ [c]]).length - 25) := by
        rw [List.length_append, List.length_singleton]
        exact hs.row
      obtain ⟨hchars, hrow', hcol'⟩ := nextRow_shows (s := ⟨setCell s.memory
        (cellIndex s.terminalCol s.terminalRow) (vgaEntry c s.terminalColor), s.terminalRow,
        p.line.length + 1, s.terminalColor, s.cursor⟩) (by simp) htyped hrow
      refine ⟨hchars, ?_, hcol'⟩
      rw [updateCursor_row, hrow', Page.cursorRow]

/-! ## Runs -/

/-- A call of the terminal. -/
inductive TtyCall where
  | putchar (c : Byte)
  | write (str : List Byte)
  | delchar
  deriving DecidableEq

namespace TtyCall

/-- What a call does to the terminal. -/
def step : TtyCall → Tty → Tty
  | .putchar c, s => s.terminalPutchar c
  | .write str, s => (s.terminalWrite str str.length).2
  | .delchar, s => s.terminalDelchar

/-- The characters that a call puts. -/
def text : TtyCall → List Byte
  | .putchar c => [c]
  | .write str => str
  | .delchar => []

end TtyCall

/-- The terminal after `terminal_init` at boot. -/
def bootTty (m : Memory) : Tty := Tty.terminalInit ⟨m, 0, 0, 0, 0⟩

theorem bootTty_shows (m : Memory) : Shows (bootTty m) (Page.empty (by norm_num)) := by
  refine ⟨fun i j hi hj => ?_, rfl, rfl⟩
  unfold bootTty Tty.terminalInit
  dsimp only
  rw [charByte_fillRows le_rfl (by omega), low_vgaEntry]
  cases i with
  | zero => rfl
  | succ i => rfl

/-- INTERNAL: a call that only puts characters. -/
theorem step_shows {call : TtyCall} {p : Page Byte 80} (hs : Shows s p) (hput : call ≠ .delchar) :
    Shows (call.step s) (call.text.foldl (Page.type 0x0A) p) := by
  have hwrite : ∀ (str : List Byte) (s : Tty) (p : Page Byte 80), Shows s p →
      Shows (str.foldl Tty.terminalPutchar s) (str.foldl (Page.type 0x0A) p) := by
    intro str
    induction str with
    | nil => exact fun s p hs => hs
    | cons c str ih => exact fun s p hs => ih _ _ (putchar_shows hs c)
  cases call with
  | putchar c => exact putchar_shows hs c
  | write str =>
      rw [TtyCall.step, Tty.terminalWrite, List.take_length]
      exact hwrite str s p hs
  | delchar => exact absurd rfl hput

/-- **The terminal shows the last 25 rows of its page**, after every sequence of calls of
`terminal_putchar` and `terminal_write` since `terminal_init`, and the next character goes
to the end of its last row.
SRCLINE: tty.c:38-75 -/
theorem terminal_renders_page (m : Memory) (calls : List TtyCall) (hdel : TtyCall.delchar ∉ calls) :
    Shows (after TtyCall.step calls (bootTty m))
        (Page.render 0x0A (by norm_num) (calls.flatMap TtyCall.text)) ∧
      (after TtyCall.step calls (bootTty m)).terminalRow < 25 ∧
      (after TtyCall.step calls (bootTty m)).terminalCol < 80 := by
  have hrun : ∀ (calls : List TtyCall) (s : Tty) (p : Page Byte 80), TtyCall.delchar ∉ calls →
      Shows s p → Shows (after TtyCall.step calls s)
        ((calls.flatMap TtyCall.text).foldl (Page.type 0x0A) p) := by
    intro calls
    induction calls with
    | nil => exact fun s p _ hs => hs
    | cons call calls ih =>
        intro s p hdel hs
        rw [List.mem_cons, not_or] at hdel
        rw [List.flatMap_cons, List.foldl_append]
        exact ih _ _ hdel.2 (step_shows hs (Ne.symm hdel.1))
  have hshows := hrun calls (bootTty m) _ hdel (bootTty_shows m)
  refine ⟨hshows, ?_, ?_⟩
  · rw [hshows.row]
    exact Page.cursorRow_lt _ (by norm_num)
  · rw [hshows.col]
    exact Page.line_lt _

/-- Two characters and a newline, in two calls. -/
theorem terminal_renders_page_two : TtyCall.delchar ∉ [.putchar 0x41, .write [0x42, 0x0A]] ∧
    Shows (after TtyCall.step [.putchar 0x41, .write [0x42, 0x0A]] (bootTty fun _ => 0))
        (Page.render 0x0A (by norm_num) [0x41, 0x42, 0x0A]) ∧
      (after TtyCall.step [.putchar 0x41, .write [0x42, 0x0A]] (bootTty fun _ => 0)).terminalRow
        < 25 ∧
      (after TtyCall.step [.putchar 0x41, .write [0x42, 0x0A]] (bootTty fun _ => 0)).terminalCol
        < 80 :=
  ⟨by decide, terminal_renders_page (fun _ => 0) _ (by decide)⟩

end LakeOS.Analysis
