import Mathlib.Data.List.GetD
import Mathlib.Tactic.Common

/-!
# Text pages

A page is text broken into rows of at most `w` characters: a row ends when it is full or
where the text says so.  A screen of `h` rows shows the last rows of a page, from its top
on, and blanks where there is no text (`shown`).

Three changes cover what typing does to the screen: a character at the end of the last
row (`shown_type`), and an empty row below the others, with room for it
(`shown_newRow_of_lt`) or not (`shown_newRow_of_le`).
-/

set_option autoImplicit false

namespace LakeOS.Library

variable {α : Type} {w h : ℕ}

/-- The rows that are complete and the last one, which has room for a character. -/
structure Page (α : Type) (w : ℕ) where
  above : List (List α)
  line : List α
  line_lt : line.length < w

/-- What a screen of `h` rows shows of `rows` in row `i`, column `j`. -/
def shown (blank : α) (h : ℕ) (rows : List (List α)) (i j : ℕ) : α :=
  (rows.getD (i + (rows.length - h)) []).getD j blank

/-- A character at the end of the last row. -/
theorem shown_type (blank : α) (h : ℕ) (above : List (List α)) (line : List α) (c : α) (i j : ℕ) :
    shown blank h (above ++ [line ++ [c]]) i j =
      if i + (above.length + 1 - h) = above.length ∧ j = line.length then c
      else shown blank h (above ++ [line]) i j := by
  have hlen : ∀ l : List α, (above ++ [l]).length = above.length + 1 := by simp
  unfold shown
  rw [hlen, hlen]
  by_cases hrow : i + (above.length + 1 - h) = above.length
  · rw [hrow, List.getD_append_right _ _ _ _ (Nat.le_refl _), List.getD_append_right _ _ _ _ (Nat.le_refl _),
      Nat.sub_self, List.getD_cons_zero, List.getD_cons_zero]
    by_cases hcol : j = line.length
    · rw [if_pos ⟨rfl, hcol⟩, hcol, List.getD_append_right _ _ _ _ (Nat.le_refl _), Nat.sub_self,
        List.getD_cons_zero]
    · rw [if_neg fun hboth => hcol hboth.2]
      by_cases hlt : j < line.length
      · rw [List.getD_append _ _ _ _ hlt]
      · rw [List.getD_eq_default _ _ (by rw [List.length_append, List.length_singleton]; omega),
          List.getD_eq_default _ _ (by omega)]
  · rw [if_neg fun hboth => hrow hboth.1]
    by_cases hlt : i + (above.length + 1 - h) < above.length
    · rw [List.getD_append _ _ _ _ hlt, List.getD_append _ _ _ _ hlt]
    · rw [List.getD_eq_default (above ++ [line ++ [c]]) [] (by rw [hlen]; omega),
        List.getD_eq_default (above ++ [line]) [] (by rw [hlen]; omega)]

/-- An empty row on a screen with room for it changes nothing. -/
theorem shown_newRow_of_lt (blank : α) {rows : List (List α)} (hlt : rows.length < h) (i j : ℕ) :
    shown blank h (rows ++ [[]]) i j = shown blank h rows i j := by
  unfold shown
  rw [List.length_append, List.length_singleton, Nat.sub_eq_zero_of_le hlt,
    Nat.sub_eq_zero_of_le (Nat.le_of_lt hlt), Nat.add_zero]
  by_cases hi : i < rows.length
  · rw [List.getD_append _ _ _ _ hi]
  · rw [List.getD_append_right _ _ _ _ (by omega), List.getD_eq_default rows _ (by omega)]
    cases i - rows.length with
    | zero => rfl
    | succ k => rfl

/-- An empty row on a full screen: the rows move up. -/
theorem shown_newRow_of_le (blank : α) {rows : List (List α)} (hle : h ≤ rows.length) {i : ℕ}
    (hi : i < h) (j : ℕ) :
    shown blank h (rows ++ [[]]) i j = if i + 1 < h then shown blank h rows (i + 1) j else blank := by
  have hfirst : rows.length + 1 - h = rows.length - h + 1 := by omega
  unfold shown
  rw [List.length_append, List.length_singleton, hfirst, ← Nat.add_assoc, Nat.add_right_comm]
  by_cases hlast : i + 1 < h
  · rw [if_pos hlast, List.getD_append _ _ _ _ (by omega)]
  · rw [if_neg hlast, List.getD_append_right _ _ _ _ (by omega),
      show i + 1 + (rows.length - h) - rows.length = 0 by omega]
    rfl

namespace Page

/-- The rows of a page. -/
def rows (p : Page α w) : List (List α) := p.above ++ [p.line]

theorem length_rows (p : Page α w) : p.rows.length = p.above.length + 1 := by
  simp [rows]

/-- The page without text. -/
def empty (hw : 0 < w) : Page α w := ⟨[], [], hw⟩

/-- A new row. -/
def newRow (p : Page α w) : Page α w := ⟨p.above ++ [p.line], [], Nat.zero_lt_of_lt p.line_lt⟩

/-- One character, and a new row when it fills the last one. -/
def put (p : Page α w) (c : α) : Page α w :=
  if h : p.line.length + 1 < w then ⟨p.above, p.line ++ [c], by simpa using h⟩
  else ⟨p.above ++ [p.line ++ [c]], [], Nat.zero_lt_of_lt p.line_lt⟩

/-- One character of a text in which `newline` starts a new row. -/
def type [DecidableEq α] (newline : α) (p : Page α w) (c : α) : Page α w :=
  if c = newline then p.newRow else p.put c

/-- The page of a text. -/
def render [DecidableEq α] (newline : α) (hw : 0 < w) (text : List α) : Page α w :=
  text.foldl (type newline) (empty hw)

/-- The row of the screen in which the next character goes. -/
def cursorRow (p : Page α w) (h : ℕ) : ℕ := p.above.length - (p.above.length + 1 - h)

theorem cursorRow_lt (p : Page α w) (hh : 0 < h) : p.cursorRow h < h := by
  unfold cursorRow
  omega

end Page

end LakeOS.Library
