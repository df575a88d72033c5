import Mathlib.Algebra.Order.Ring.Nat
import C2Hat.Lib.Window

/-!
# The characters of a window

What a window of ncurses displays, for characters of one column: a grid of cells, kept row by
row.  A character that is inserted or deleted shifts the rest of its line only.  What is shifted
over the end of the line is lost, and a blank comes in from there.

A text that is written from the first cell on fills the rows one after the other, and is followed
by blanks.  It is shifted as a whole when what is behind the cursor ends in the line of the
cursor.

## Main definitions

* `Cells` — the cells of a window.
* `Cells.addch`, `Cells.insch`, `Cells.delch`, `Cells.row`, `Cells.clear` — the functions.

## Main results

* `waddwstr_one_fst` — a character is refused in the last cell only.
* `addch_text`, `insch_text`, `delch_text` — what they do to a text.
-/

namespace Curses

/-- The cells of a window. -/
@[ext] structure Cells (α : Type) (lines cols : ℕ) where
  cells : List α
  length_cells : cells.length = lines * cols
  deriving DecidableEq

namespace Window

variable {lines cols : ℕ} (w : Window lines cols)

/-- The number of the cell under the cursor. -/
def cell : ℕ := w.y * cols + w.x

/-- The number of the first cell of the next line. -/
def lineEnd : ℕ := (w.y + 1) * cols

theorem cell_lt_lineEnd : w.cell < w.lineEnd := by
  rw [cell, lineEnd, Nat.succ_mul]
  exact Nat.add_lt_add_left w.x_lt _

theorem lineEnd_le : w.lineEnd ≤ lines * cols := Nat.mul_le_mul_right _ w.y_lt

theorem index_eq_cell : w.index = w.cell := by
  rw [index, cell]
  push_cast
  rfl

/-- Where the cursor was moved to. -/
theorem wmove_eq_some {v : Window lines cols} {y x : ℤ} (h : w.wmove y x = some v) :
    (v.y : ℤ) = y ∧ (v.x : ℤ) = x := by
  unfold wmove at h
  split_ifs at h with hinside
  cases h
  exact ⟨Int.toNat_of_nonneg hinside.1, Int.toNat_of_nonneg hinside.2.2.1⟩

/-- A character of one column that is not written in the last cell. -/
theorem waddwstr_one_fst (h : w.cell + 1 < lines * cols) : (w.waddwstr 1).1 = true := by
  have hx := w.x_lt
  rw [waddwstr, if_neg (by omega), if_neg (by omega), advance]
  split_ifs with hroom
  · rfl
  · have hnext : w.cell + 1 = (w.y + 1) * cols := by
      rw [cell, Nat.succ_mul]
      omega
    rw [hnext] at h
    rw [newline, dif_pos (Nat.lt_of_mul_lt_mul_right h)]

end Window

namespace Cells

variable {α : Type} {lines cols : ℕ} (t : Cells α lines cols) (w : Window lines cols)

/-- `wclear(w)`. -/
def clear (lines cols : ℕ) (blank : α) : Cells α lines cols :=
  ⟨List.replicate (lines * cols) blank, List.length_replicate⟩

/-- `waddch(w, c)`: the cell under the cursor. -/
def addch (c : α) : Cells α lines cols :=
  ⟨t.cells.set w.cell c, by rw [List.length_set, t.length_cells]⟩

/-- The cells of the line from the cursor on, without the last of them. -/
def behind (n : ℕ) : List α := (t.cells.drop n).take (w.lineEnd - w.cell - 1)

/-- `winsch(w, c)`: the last character of the line is lost. -/
def insch (c : α) : Cells α lines cols where
  cells := t.cells.take w.cell ++ c :: (t.behind w w.cell ++ t.cells.drop w.lineEnd)
  length_cells := by
    have hlt := w.cell_lt_lineEnd
    have hle := w.lineEnd_le
    have hlen := t.length_cells
    simp only [behind, List.length_append, List.length_cons, List.length_take, List.length_drop]
    omega

/-- `wdelch(w)`: a blank comes in at the end of the line. -/
def delch (blank : α) : Cells α lines cols where
  cells := t.cells.take w.cell ++ (t.behind w (w.cell + 1) ++ blank :: t.cells.drop w.lineEnd)
  length_cells := by
    have hlt := w.cell_lt_lineEnd
    have hle := w.lineEnd_le
    have hlen := t.length_cells
    simp only [behind, List.length_append, List.length_cons, List.length_take, List.length_drop]
    omega

/-- The characters of a line. -/
def row (y : ℕ) : List α := (t.cells.drop (y * cols)).take cols

variable {t w} {blank : α} {s u : List α} {k : ℕ}

/-! ### Text -/

/-- A character behind the text. -/
theorem addch_text (h : t.cells = s ++ List.replicate (k + 1) blank) (hcell : w.cell = s.length)
    (c : α) : (t.addch w c).cells = s ++ c :: List.replicate k blank := by
  show t.cells.set w.cell c = _
  rw [h, hcell, List.replicate_succ, List.set_append_right _ _ le_rfl, Nat.sub_self,
    List.set_cons_zero]

/-- The blanks of a line, and those behind it. -/
theorem drop_lineEnd (h : t.cells = s ++ (u ++ List.replicate k blank)) (hcell : w.cell = s.length)
    (hline : s.length + u.length ≤ w.lineEnd) :
    w.lineEnd - w.cell - u.length ≤ k ∧
      t.cells.drop w.lineEnd =
        List.replicate (k - (w.lineEnd - w.cell - u.length)) blank := by
  have hle := w.lineEnd_le
  have hlen := congrArg List.length h
  rw [t.length_cells, List.length_append, List.length_append, List.length_replicate] at hlen
  refine ⟨by omega, ?_⟩
  have hsplit : w.lineEnd = (s ++ u).length + (w.lineEnd - w.cell - u.length) := by
    rw [List.length_append]
    omega
  rw [h, ← List.append_assoc, hsplit, List.drop_length_add_append, List.drop_replicate]
  congr 2
  omega

/-- **A character in a text** that ends in the line of the cursor, in front of the last cell. -/
theorem insch_text (h : t.cells = s ++ (u ++ List.replicate (k + 1) blank))
    (hcell : w.cell = s.length) (hline : s.length + u.length < w.lineEnd) (c : α) :
    (t.insch w c).cells = s ++ c :: (u ++ List.replicate k blank) := by
  obtain ⟨hle, hdrop⟩ := drop_lineEnd h hcell hline.le
  have htake : t.cells.take w.cell = s := by rw [h, hcell, List.take_left]
  have hbehind : t.behind w w.cell =
      u ++ List.replicate (w.lineEnd - w.cell - u.length - 1) blank := by
    rw [behind, h, hcell, List.drop_left, List.take_append, List.take_of_length_le (by omega),
      List.take_replicate]
    congr 2
    omega
  show t.cells.take w.cell ++ c :: (t.behind w w.cell ++ t.cells.drop w.lineEnd) = _
  rw [htake, hbehind, hdrop, List.append_assoc, List.replicate_append_replicate]
  congr 4
  omega

/-- **A character is taken out of a text** that ends in its line. -/
theorem delch_text {c : α} (h : t.cells = s ++ (c :: u ++ List.replicate k blank))
    (hcell : w.cell = s.length) (hline : s.length + (u.length + 1) ≤ w.lineEnd) :
    (t.delch w blank).cells = s ++ (u ++ List.replicate (k + 1) blank) := by
  obtain ⟨hle, hdrop⟩ := drop_lineEnd h hcell hline
  rw [List.length_cons] at hle hdrop
  have htake : t.cells.take w.cell = s := by rw [h, hcell, List.take_left]
  have hbehind : t.behind w (w.cell + 1) =
      u ++ List.replicate (w.lineEnd - w.cell - (u.length + 1)) blank := by
    rw [behind, h, hcell, List.drop_length_add_append, List.cons_append, List.drop_one,
      List.tail_cons, List.take_append, List.take_of_length_le (by omega), List.take_replicate]
    congr 2
    omega
  show t.cells.take w.cell ++ (t.behind w (w.cell + 1) ++ blank :: t.cells.drop w.lineEnd) = _
  rw [htake, hbehind, hdrop, List.append_assoc, ← List.replicate_succ,
    List.replicate_append_replicate]
  congr 3
  omega

end Cells

end Curses
