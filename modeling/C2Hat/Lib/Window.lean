import Mathlib.Algebra.Order.Group.Int
import Mathlib.Tactic.Positivity.Basic
import Mathlib.Tactic.Ring

/-!
# Windows

A window of ncurses that does not scroll, as far as the position of its cursor goes.  The text
is not kept: it is shifted by what is inserted and deleted, which does not move the cursor, and
no function here reads it.

The functions fail for a position outside of the window.  A character is also refused, although
it is written, when the cursor cannot be moved behind it.

## Main definitions

* `Window` — a window of a size, with its cursor inside.
* `Window.index` — the position of the cursor, counted along the lines.
* `wmove`, `waddwstr`, `wins_wstr`, `mvwdelch`, `wclear` — the functions.

## Main results

* `exists_wmove`, `wmove_eq_none` — when the cursor can be moved.
* `exists_left`, `exists_right`, `exists_up`, `exists_down` — the steps of the cursor.
* `exists_behind` — the cursor behind a character that is inserted.
* `waddwstr_one` — a character of one column moves the cursor by one.
-/

namespace Curses

/-- A window, with the line and the column of its cursor. -/
structure Window (lines cols : ℕ) where
  y : ℕ
  x : ℕ
  y_lt : y < lines
  x_lt : x < cols
  deriving DecidableEq

namespace Window

variable {lines cols : ℕ} (w : Window lines cols)

/-- The position of the cursor, counted along the lines. -/
def index : ℤ := w.y * cols + w.x

/-- `wmove(w, y, x)`. -/
def wmove (_w : Window lines cols) (y x : ℤ) : Option (Window lines cols) :=
  if h : 0 ≤ y ∧ y < lines ∧ 0 ≤ x ∧ x < cols then
    some ⟨y.toNat, x.toNat, by omega, by omega⟩
  else none

/-- The cursor goes to the start of the next line, or stays at the end of the last one. -/
def newline : Bool × Window lines cols :=
  if h : w.y + 1 < lines then (true, ⟨w.y + 1, 0, h, Nat.zero_lt_of_lt w.x_lt⟩)
  else (false, ⟨w.y, cols - 1, w.y_lt, Nat.sub_one_lt_of_lt w.x_lt⟩)

/-- The cursor goes behind a character of that width. -/
def advance (width : ℕ) : Bool × Window lines cols :=
  if h : w.x + width < cols then (true, ⟨w.y, w.x + width, w.y_lt, h⟩) else w.newline

/-- `waddwstr(w, s)` for a single character: whether it succeeds, and the window.  A character
that does not fit the line comes at the start of the next one. -/
def waddwstr (width : ℕ) : Bool × Window lines cols :=
  if cols < width then (false, w)
  else if cols < w.x + width then
    if w.newline.1 then w.newline.2.advance width else w.newline
  else w.advance width

/-- `wins_wstr(w, s)`: the cursor stays. -/
def wins_wstr : Option (Window lines cols) := some w

/-- `mvwdelch(w, y, x)`: the cursor stays at the character that is deleted. -/
def mvwdelch (y x : ℤ) : Option (Window lines cols) := w.wmove y x

/-- `wclear(w)`: the cursor goes to the first line and column. -/
def wclear : Window lines cols :=
  ⟨0, 0, Nat.zero_lt_of_lt w.y_lt, Nat.zero_lt_of_lt w.x_lt⟩

theorem index_nonneg : 0 ≤ w.index := by
  rw [index]
  positivity

@[simp] theorem index_wclear : w.wclear.index = 0 := by simp [index, wclear]

/-- The cursor can be moved inside of the window. -/
theorem exists_wmove {y x : ℤ} (hy : 0 ≤ y) (hy' : y < lines) (hx : 0 ≤ x) (hx' : x < cols) :
    ∃ v, w.wmove y x = some v ∧ v.index = y * cols + x := by
  refine ⟨⟨y.toNat, x.toNat, by omega, by omega⟩, dif_pos ⟨hy, hy', hx, hx'⟩, ?_⟩
  rw [index, Int.toNat_of_nonneg hy, Int.toNat_of_nonneg hx]

/-- And not outside of it. -/
theorem wmove_eq_none {y x : ℤ} (h : lines ≤ y ∨ cols ≤ x) : w.wmove y x = none := by
  rw [wmove, dif_neg]
  rintro ⟨-, hy, -, hx⟩
  omega

/-! ### Steps of the cursor -/

theorem exists_left (hx : 0 < w.x) :
    ∃ v, w.wmove w.y ((w.x : ℤ) - 1) = some v ∧ v.index = w.index - 1 := by
  have hy := w.y_lt
  have hx' := w.x_lt
  obtain ⟨v, hv, hindex⟩ := w.exists_wmove (y := w.y) (x := (w.x : ℤ) - 1) (by omega) (by omega)
    (by omega) (by omega)
  refine ⟨v, hv, ?_⟩
  rw [hindex, index]
  ring

/-- From the start of a line to the end of the one above. -/
theorem exists_left_above (hy : 0 < w.y) (hx : w.x = 0) :
    ∃ v, w.wmove ((w.y : ℤ) - 1) ((cols : ℤ) - 1) = some v ∧ v.index = w.index - 1 := by
  have hy' := w.y_lt
  have hx' := w.x_lt
  obtain ⟨v, hv, hindex⟩ := w.exists_wmove (y := (w.y : ℤ) - 1) (x := (cols : ℤ) - 1) (by omega)
    (by omega) (by omega) (by omega)
  refine ⟨v, hv, ?_⟩
  rw [hindex, index, hx, Nat.cast_zero]
  ring

theorem exists_right (hx : w.x + 1 < cols) :
    ∃ v, w.wmove w.y ((w.x : ℤ) + 1) = some v ∧ v.index = w.index + 1 := by
  have hy := w.y_lt
  obtain ⟨v, hv, hindex⟩ := w.exists_wmove (y := w.y) (x := (w.x : ℤ) + 1) (by omega) (by omega)
    (by omega) (by omega)
  refine ⟨v, hv, ?_⟩
  rw [hindex, index]
  ring

/-- The start of the next line comes after the end of the line. -/
theorem index_below (hlast : w.x + 1 = cols) : ((w.y : ℤ) + 1) * cols = w.index + 1 := by
  have hcols : (cols : ℤ) = w.x + 1 := by omega
  rw [index, hcols]
  ring

/-- The position behind a character that is inserted: in the same line, or else at the start of
the next one. -/
theorem exists_behind {width : ℕ} (h : w.x + width < cols ∨ w.y + 1 < lines) :
    ∃ v, (w.wmove w.y ((w.x : ℤ) + width) <|> w.wmove ((w.y : ℤ) + 1) 0) = some v ∧
      (width = 1 → v.index = w.index + 1) := by
  have hy := w.y_lt
  have hx := w.x_lt
  by_cases hline : w.x + width < cols
  · obtain ⟨v, hv, hindex⟩ := w.exists_wmove (y := w.y) (x := (w.x : ℤ) + width) (by omega)
      (by omega) (by omega) (by omega)
    refine ⟨v, by rw [hv]; rfl, ?_⟩
    rintro rfl
    rw [hindex, index]
    push_cast
    ring
  · obtain ⟨v, hv, hindex⟩ := w.exists_wmove (y := (w.y : ℤ) + 1) (x := 0) (by omega) (by omega)
      le_rfl (by omega)
    refine ⟨v, by rw [w.wmove_eq_none (.inr (by omega)), hv]; rfl, ?_⟩
    rintro rfl
    rw [hindex, add_zero, w.index_below (by omega)]

theorem behind_eq_none {width : ℕ} (h : ¬ (w.x + width < cols ∨ w.y + 1 < lines)) :
    (w.wmove w.y ((w.x : ℤ) + width) <|> w.wmove ((w.y : ℤ) + 1) 0) = none := by
  rw [w.wmove_eq_none (.inr (by omega)), w.wmove_eq_none (.inl (by omega))]
  rfl

theorem exists_up (hy : 0 < w.y) :
    ∃ v, w.wmove ((w.y : ℤ) - 1) w.x = some v ∧ v.index = w.index - cols := by
  have hy' := w.y_lt
  have hx := w.x_lt
  obtain ⟨v, hv, hindex⟩ := w.exists_wmove (y := (w.y : ℤ) - 1) (x := w.x) (by omega) (by omega)
    (by omega) (by omega)
  refine ⟨v, hv, ?_⟩
  rw [hindex, index]
  ring

theorem exists_down (hy : w.y + 1 < lines) :
    ∃ v, w.wmove ((w.y : ℤ) + 1) w.x = some v ∧ v.index = w.index + cols := by
  have hx := w.x_lt
  obtain ⟨v, hv, hindex⟩ := w.exists_wmove (y := (w.y : ℤ) + 1) (x := w.x) (by omega) (by omega)
    (by omega) (by omega)
  refine ⟨v, hv, ?_⟩
  rw [hindex, index]
  ring

/-- **A character of one column** moves the cursor by one, unless it is at the end of the
window, where it stays. -/
theorem waddwstr_one :
    ((w.waddwstr 1).1 = true ∧ (w.waddwstr 1).2.index = w.index + 1) ∨
      w.waddwstr 1 = (false, w) := by
  have hx := w.x_lt
  rw [waddwstr, if_neg (by omega), if_neg (by omega), advance]
  split_ifs with hroom
  · left
    refine ⟨rfl, ?_⟩
    rw [index, index]
    push_cast
    ring
  · have hlast : w.x + 1 = cols := by omega
    rw [newline]
    split_ifs with hline
    · refine .inl ⟨rfl, ?_⟩
      rw [← w.index_below hlast, index]
      push_cast
      ring
    · right
      obtain ⟨y, x, hy, hx⟩ := w
      have hcols : cols - 1 = x := by
        change x + 1 = cols at hlast
        omega
      simp only [hcols]

end Window

end Curses
