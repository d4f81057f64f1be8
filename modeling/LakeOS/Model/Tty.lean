import LakeOS.Model.Memmove

/-!
# The terminal

`tty.c` writes to the text buffer of the VGA, 25 rows of 80 cells of two bytes, the
character and its colour.  Row and column are `size_t`; nothing bounds the index that is
computed from them but the tests of `terminal_putchar`.

The two ports of the cursor are the index and the data register of the VGA: `cursor` is
the location that the four writes of `terminal_update_cursor` leave there.
-/

set_option autoImplicit false

namespace LakeOS.Model

open LakeOS.Library

/-- `TERMINAL_WIDTH`. -/
abbrev terminalWidth : ℕ := 80

/-- `TERMINAL_HEIGHT`. -/
abbrev terminalHeight : ℕ := 25

/-- `terminal_buff`. -/
abbrev terminalBuff : ℕ := 0xC00B8000

/-- `vga_color`.
SRCLINE: vga.h:25-27 -/
def vgaColor (fg bg : Byte) : Byte := fg ||| bg <<< 4

/-- `vga_entry`: the character is signed.
SRCLINE: vga.h:29-31 -/
def vgaEntry (c color : Byte) : BitVec 16 := c.signExtend 16 ||| color.zeroExtend 16 <<< 8

/-- `VGA_WHITE` on `VGA_BLACK`. -/
def whiteOnBlack : Byte := vgaColor 15 0

/-- Memory, the statics of `tty.c` and the location of the VGA's cursor. -/
structure Tty where
  memory : Memory
  terminalRow : ℕ
  terminalCol : ℕ
  terminalColor : Byte
  cursor : ℕ

/-- The index `y * TERMINAL_WIDTH + x`. -/
def cellIndex (x y : ℕ) : ℕ := add32 (mul32 y terminalWidth) x

/-- `terminal_buff[index] = entry`. -/
def setCell (m : Memory) (index : ℕ) (entry : BitVec 16) : Memory :=
  m.save 2 (add32 terminalBuff (mul32 index 2)) entry.toNat

/-- The cells of row `y` from column 0 on. -/
def fillRow (entry : BitVec 16) (y : ℕ) : ℕ → Memory → Memory
  | 0, m => m
  | x + 1, m => setCell (fillRow entry y x m) (cellIndex x y) entry

/-- The rows from row 0 on. -/
def fillRows (entry : BitVec 16) : ℕ → Memory → Memory
  | 0, m => m
  | y + 1, m => fillRow entry y terminalWidth (fillRows entry y m)

namespace Tty

/-- `terminal_update_cursor`: the low and the high byte go to the location registers.
SRCLINE: tty.c:84-92 -/
def terminalUpdateCursor (s : Tty) : Tty :=
  let index := cellIndex s.terminalCol s.terminalRow % 2 ^ 16
  { s with cursor := index % 256 + 256 * (index / 256 % 256) }

/-- `terminal_init`.
SRCLINE: tty.c:13-18 -/
def terminalInit (s : Tty) : Tty :=
  { s with
    memory := fillRows (vgaEntry 0x20 whiteOnBlack) terminalHeight s.memory
    terminalColor := whiteOnBlack }

/-- `terminal_putentryat`. -/
def terminalPutentryat (s : Tty) (c color : Byte) (x y : ℕ) : Tty :=
  { s with memory := setCell s.memory (cellIndex x y) (vgaEntry c color) }

/-- `terminal_delchar`.
SRCLINE: tty.c:29-36 -/
def terminalDelchar (s : Tty) : Tty :=
  let s :=
    if s.terminalCol ≠ 0 then { s with terminalCol := sub32 s.terminalCol 1 }
    else { s with terminalCol := terminalWidth, terminalRow := sub32 s.terminalRow 1 }
  (s.terminalPutentryat 0x20 s.terminalColor s.terminalCol s.terminalRow).terminalUpdateCursor

/-- `terminal_scroll`.
SRCLINE: tty.c:38-50 -/
def terminalScroll (s : Tty) : Tty :=
  let m := memmove s.memory (terminalBuff + 2 * (0 * 80 + 0)) (terminalBuff + 2 * (1 * 80 + 0))
    (80 * 24 * 2)
  { s with
    memory := fillRow (vgaEntry 0x20 s.terminalColor) 24 80 m
    terminalCol := 0
    terminalRow := 24 }

/-- A new row, with a scroll behind the last one.
SRCLINE: tty.c:55-58, 61-63 -/
def nextRow (s : Tty) : Tty :=
  let s := { s with terminalCol := 0, terminalRow := add32 s.terminalRow 1 }
  if s.terminalRow = terminalHeight then s.terminalScroll else s

/-- `terminal_putchar`.
SRCLINE: tty.c:52-68 -/
def terminalPutchar (s : Tty) (c : Byte) : Tty :=
  if c ≠ 0x0A then
    let s := s.terminalPutentryat c s.terminalColor s.terminalCol s.terminalRow
    let s := { s with terminalCol := add32 s.terminalCol 1 }
    (if s.terminalCol = terminalWidth then s.nextRow else s).terminalUpdateCursor
  else s.nextRow.terminalUpdateCursor

/-- `terminal_write`: the length that it returns, and the terminal afterwards.
SRCLINE: tty.c:70-75 -/
def terminalWrite (s : Tty) (str : List Byte) (len : ℕ) : ℕ × Tty :=
  (len, (str.take len).foldl terminalPutchar s)

/-- `terminal_print` of a string that ends in a zero byte.
SRCLINE: tty.c:77-79 -/
def terminalPrint (s : Tty) (str : List Byte) : Tty :=
  (s.terminalWrite str (str.takeWhile (· ≠ 0)).length).2

/-! ## The indices that are written -/

/-- The cells that `terminal_scroll` writes: all rows move up, the last one is blanked. -/
def scrollWrites : List ℕ := List.range (80 * 24) ++ (List.range 80).map (24 * 80 + ·)

/-- SRCLINE: tty.c:52-68 -/
def putcharWrites (s : Tty) (c : Byte) : List ℕ :=
  if c ≠ 0x0A then
    cellIndex s.terminalCol s.terminalRow ::
      if add32 s.terminalCol 1 = terminalWidth ∧ add32 s.terminalRow 1 = terminalHeight then
        scrollWrites
      else []
  else if add32 s.terminalRow 1 = terminalHeight then scrollWrites else []

/-- SRCLINE: tty.c:29-36 -/
def delcharWrites (s : Tty) : List ℕ :=
  if s.terminalCol ≠ 0 then [cellIndex (sub32 s.terminalCol 1) s.terminalRow]
  else [cellIndex terminalWidth (sub32 s.terminalRow 1)]

/-- SRCLINE: tty.c:70-75 -/
def writeWrites : Tty → List Byte → List ℕ
  | _, [] => []
  | s, c :: str => s.putcharWrites c ++ writeWrites (s.terminalPutchar c) str

end Tty

end LakeOS.Model
