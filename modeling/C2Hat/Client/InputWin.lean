import C2Hat.Conversions
import C2Hat.Lib.Run
import C2Hat.Lib.Window

/-!
# The input window

The window of `src/client/uiinput.c` in which a message is typed, and what each key does to it.
A handler finds the position of the cursor in the window first (`UIInputWin_locate`), and keeps
its own index of it, `cursor`, next to the length of the text, `eom`, and its limit, `eob`.

The buffer for the message is only filled from the window when the message is complete.

## Main definitions

* `UIInputWin` — the window and the indices, with a function for each key.
* `UIInputWin.step` — the window under any keys.
* `UIInputWin.OnText` — the index is that of the cursor, and on the text.
* `UIInputWin.Below`, `UIInputWin.Room` — the keys that keep the cursor on the text, and those
  that keep the text within the limit.

## Main results

* `on_text_iff` — **when the cursor stays on the text.**
* `within_limit_iff` — **when the text stays within its limit.**
-/

namespace C2Hat

open Curses Runs

/-- The window, and the indices. -/
structure UIInputWin (lines cols : ℕ) where
  handle : Window lines cols
  /-- The index of the cursor. -/
  cursor : ℤ
  /-- The end of the message. -/
  eom : ℤ
  /-- The limit of the message. -/
  eob : ℤ
  /-- The length of the buffer. -/
  length : ℕ
  deriving DecidableEq

/-- A key.  The window is in live mode, so that `ESC` is for the input. -/
inductive InputKey
  /-- A character that is displayed in that many columns, or a control character. -/
  | char (control : Bool) (width : ℕ)
  | backspace
  | left
  | right
  | up
  | down
  | enter
  | escape
  deriving DecidableEq

namespace UIInputWin

variable {lines cols : ℕ} (w : UIInputWin lines cols)

/-- `UIInputWin_init(buffer, length)`. -/
def init (length : ℕ) : UIInputWin lines cols :=
  let eob := asInt (asSize ((length : ℤ) - 1))
  { w with
    handle := w.handle.wclear
    cursor := 0
    eob := if eob > cols * lines then cols * lines else eob
    length }

/-- `UIInputWin_reset`. -/
def reset : UIInputWin lines cols := { w with handle := w.handle.wclear, cursor := 0, eom := 0 }

/-- `UIInputWin_commit`: what it returns, and the window. -/
def commit : ℤ × UIInputWin lines cols :=
  if w.eom = 0 then (0, w)
  else (if w.eom > 0 then w.eom + 1 else 0, { w with handle := w.handle.wclear, eom := 0 })

/-- `UIInputWin_delete`. -/
def delete : UIInputWin lines cols :=
  if w.cursor > 0 then
    match (if w.handle.x = 0 then w.handle.mvwdelch ((w.handle.y : ℤ) - 1) ((cols : ℤ) - 1)
      else w.handle.mvwdelch w.handle.y ((w.handle.x : ℤ) - 1)) with
    | none => w
    | some handle => { w with handle, cursor := w.cursor - 1, eom := w.eom - 1 }
  else w

/-- A character at the end of the message, in `UIInputWin_addChar`. -/
def appendChar (width : ℕ) : UIInputWin lines cols :=
  if w.cursor = w.eom then
    if (w.handle.waddwstr width).1 then
      { w with
        handle := (w.handle.waddwstr width).2
        cursor := w.cursor + width
        eom := w.eom + width }
    else { w with handle := (w.handle.waddwstr width).2 }
  else w

/-- A character in the middle of the message, in `UIInputWin_addChar`, where the cursor was found
at `located`. -/
def insertChar (located : Window lines cols) (width : ℕ) : UIInputWin lines cols :=
  if w.cursor < w.eom then
    match w.handle.wins_wstr with
    | none => w
    | some handle =>
      match (if located.x < cols then handle.wmove located.y ((located.x : ℤ) + width) else none)
        <|> handle.wmove ((located.y : ℤ) + 1) 0 with
      -- the cursor is not updated when it cannot be moved
      | none => { w with handle }
      | some handle => { w with handle, cursor := w.cursor + width, eom := w.eom + width }
  else w

/-- `UIInputWin_addChar(ch)`. -/
def addChar (control : Bool) (width : ℕ) : UIInputWin lines cols :=
  if w.cursor < w.eob ∧ control = false then (w.appendChar width).insertChar w.handle width else w

/-- `MoveLeft`. -/
def moveLeft : UIInputWin lines cols :=
  if w.handle.y > 0 ∧ w.handle.x = 0 then
    match w.handle.wmove ((w.handle.y : ℤ) - 1) ((cols : ℤ) - 1) with
    | none => w
    | some handle => { w with handle, cursor := if w.cursor > 0 then w.cursor - 1 else w.cursor }
  else if w.handle.x > 0 then
    match w.handle.wmove w.handle.y ((w.handle.x : ℤ) - 1) with
    | none => w
    | some handle => { w with handle, cursor := if w.cursor > 0 then w.cursor - 1 else w.cursor }
  else w

/-- `MoveRight`. -/
def moveRight : UIInputWin lines cols :=
  if w.eom > (w.handle.y : ℤ) * cols + w.handle.x then
    match w.handle.wmove w.handle.y ((w.handle.x : ℤ) + 1) with
    | none => w
    | some handle =>
      { w with handle, cursor := if w.cursor + 1 > w.eom then w.eom else w.cursor + 1 }
  else w

/-- `MoveUp`. -/
def moveUp : UIInputWin lines cols :=
  if w.handle.y > 0 then
    match w.handle.wmove ((w.handle.y : ℤ) - 1) w.handle.x with
    | none => w
    | some handle => { w with handle, cursor := w.cursor - cols }
  else w

/-- `MoveDown`. -/
def moveDown : UIInputWin lines cols :=
  if (w.handle.y : ℤ) < (lines : ℤ) - 1 ∧ w.eom ≥ (cols : ℤ) + w.handle.x then
    match w.handle.wmove ((w.handle.y : ℤ) + 1) w.handle.x with
    | none => w
    | some handle => { w with handle, cursor := w.cursor + cols }
  else w

/-- What `UIInputLoop` does with a key.  When a message is complete it returns, and is called
again with the same buffer. -/
def press : InputKey → UIInputWin lines cols
  | .char control width => w.addChar control width
  | .backspace => w.delete
  | .left => w.moveLeft
  | .right => w.moveRight
  | .up => w.moveUp
  | .down => w.moveDown
  | .enter => if w.commit.1 > 0 then w.commit.2.init w.length else w.commit.2
  | .escape => w.reset

end UIInputWin

/-- The characters have at most that many columns, and at least one. -/
def InputKey.Columns (n : ℕ) : InputKey → Prop
  | .char _ width => 1 ≤ width ∧ width ≤ n
  | _ => True

instance (n : ℕ) (key : InputKey) : Decidable (key.Columns n) := by
  cases key
  · exact inferInstanceAs (Decidable (_ ∧ _))
  all_goals exact inferInstanceAs (Decidable True)

namespace UIInputWin

variable {lines cols : ℕ}

/-- The window that a message of up to `length - 1` characters is typed in, from the one that has
just been created on. -/
def start (handle : Window lines cols) (length : ℕ) : UIInputWin lines cols :=
  init ⟨handle, 0, 0, 0, 0⟩ length

/-- The window after a key; the characters have at most `n` columns. -/
def step (n : ℕ) (w : UIInputWin lines cols) (key : InputKey) : Option (UIInputWin lines cols) :=
  if key.Columns n then some (w.press key) else none

/-! ### Characters -/

/-- The window has room for a character: at the end of the text it is written, and in the middle
of it the cursor can be moved behind it. -/
def Takes (w : UIInputWin lines cols) (width : ℕ) : Prop :=
  (w.cursor = w.eom ∧ (w.handle.waddwstr width).1 = true) ∨
    (w.cursor < w.eom ∧ (w.handle.x + width < cols ∨ w.handle.y + 1 < lines))

instance (w : UIInputWin lines cols) (width : ℕ) : Decidable (Takes w width) :=
  inferInstanceAs (Decidable (_ ∨ _))

variable {w w' : UIInputWin lines cols} {length : ℕ}

/-- **What a character does**: the text gets longer, and the cursor moves behind the character;
or the window does not take it, and at most the position of the cursor changes. -/
theorem addChar_cases (w : UIInputWin lines cols) (control : Bool) (width : ℕ) :
    ((w.cursor < w.eob ∧ control = false ∧ Takes w width) ∧
      ∃ v, w.addChar control width =
          { w with handle := v, cursor := w.cursor + width, eom := w.eom + width } ∧
        (width = 1 → v.index = w.handle.index + 1)) ∨
    (¬ (w.cursor < w.eob ∧ control = false ∧ Takes w width) ∧
      ∃ v, w.addChar control width = { w with handle := v } ∧ (width = 1 → v = w.handle)) := by
  unfold addChar
  by_cases hroom : w.cursor < w.eob ∧ control = false
  · rw [if_pos hroom]
    rcases lt_trichotomy w.cursor w.eom with hlt | hend | hgt
    · -- in the middle of the text
      rw [appendChar, if_neg hlt.ne, insertChar, if_pos hlt, Window.wins_wstr]
      simp only [if_pos w.handle.x_lt]
      by_cases hbehind : w.handle.x + width < cols ∨ w.handle.y + 1 < lines
      · obtain ⟨v, hv, hindex⟩ := w.handle.exists_behind hbehind
        rw [hv]
        exact .inl ⟨⟨hroom.1, hroom.2, .inr ⟨hlt, hbehind⟩⟩, v, rfl, hindex⟩
      · rw [w.handle.behind_eq_none hbehind]
        refine .inr ⟨?_, w.handle, rfl, fun _ => rfl⟩
        rintro ⟨-, -, ⟨hend, -⟩ | ⟨-, hbehind'⟩⟩
        · exact hlt.ne hend
        · exact hbehind hbehind'
    · -- at its end
      by_cases hok : (w.handle.waddwstr width).1 = true
      · rw [appendChar, if_pos hend, if_pos hok, insertChar, if_neg (by simp [hend])]
        refine .inl ⟨⟨hroom.1, hroom.2, .inl ⟨hend, hok⟩⟩, _, rfl, ?_⟩
        rintro rfl
        rcases w.handle.waddwstr_one with ⟨-, hindex⟩ | herr
        · exact hindex
        · rw [herr] at hok
          cases hok
      · rw [appendChar, if_pos hend, if_neg hok, insertChar, if_neg (by simp [hend])]
        refine .inr ⟨?_, _, rfl, ?_⟩
        · rintro ⟨-, -, ⟨-, hok'⟩ | ⟨hlt, -⟩⟩
          · exact hok hok'
          · exact hlt.ne hend
        · rintro rfl
          rcases w.handle.waddwstr_one with ⟨hok', -⟩ | herr
          · exact absurd hok' hok
          · rw [herr]
    · -- behind it
      rw [appendChar, if_neg hgt.ne', insertChar, if_neg hgt.not_gt]
      refine .inr ⟨?_, w.handle, rfl, fun _ => rfl⟩
      rintro ⟨-, -, ⟨hend, -⟩ | ⟨hlt, -⟩⟩
      · exact hgt.ne' hend
      · exact hgt.not_gt hlt
  · rw [if_neg hroom]
    exact .inr ⟨fun hall => hroom ⟨hall.1, hall.2.1⟩, w.handle, rfl, fun _ => rfl⟩

/-! ### The cursor -/

/-- The index is that of the cursor, and it is on the text. -/
structure OnText (w : UIInputWin lines cols) : Prop where
  nonneg : 0 ≤ w.cursor
  le_eom : w.cursor ≤ w.eom
  index : w.cursor = w.handle.y * cols + w.handle.x

/-- The cursor is moved down only to where there is text. -/
def Below (w : UIInputWin lines cols) : InputKey → Prop
  | .down => w.handle.y + 1 < lines → (cols : ℤ) + w.handle.x ≤ w.eom →
      ((w.handle.y : ℤ) + 1) * cols + w.handle.x ≤ w.eom
  | _ => True

instance (w : UIInputWin lines cols) (key : InputKey) : Decidable (Below w key) := by
  cases key
  case down => exact inferInstanceAs (Decidable (_ → _ → _))
  all_goals exact inferInstanceAs (Decidable True)

/-- The position says it all. -/
theorem OnText.of_index (hindex : w.handle.index = w.cursor) (hle : w.cursor ≤ w.eom) :
    OnText w :=
  ⟨hindex ▸ w.handle.index_nonneg, hle, hindex.symm⟩

theorem OnText.handle_index (h : OnText w) : w.handle.index = w.cursor := h.index.symm

theorem onText_init (h : 0 ≤ w.eom) (length : ℕ) : OnText (w.init length) :=
  .of_index w.handle.index_wclear h

theorem onText_reset (w : UIInputWin lines cols) : OnText w.reset :=
  .of_index w.handle.index_wclear le_rfl

/-- Where there is text in front of the start of a line, there is a line above. -/
theorem OnText.line_pos (h : OnText w) (hpos : 0 < w.cursor) (hx : w.handle.x = 0) :
    0 < w.handle.y := by
  rcases Nat.eq_zero_or_pos w.handle.y with hzero | hy
  · have hindex := h.index
    rw [hzero, hx, Nat.cast_zero, zero_mul, zero_add] at hindex
    omega
  · exact hy

/-- The text gets shorter by the character in front of the cursor. -/
theorem OnText.delete (h : OnText w) : OnText w.delete := by
  have hle := h.le_eom
  have hdeleted : ∀ v : Window lines cols, v.index = w.handle.index - 1 →
      OnText { w with handle := v, cursor := w.cursor - 1, eom := w.eom - 1 } := by
    intro v hv
    rw [h.handle_index] at hv
    exact .of_index hv (sub_le_sub_right hle 1)
  unfold UIInputWin.delete
  split_ifs with hpos hx
  · obtain ⟨v, hv, hindex⟩ := w.handle.exists_left_above (h.line_pos hpos hx) hx
    rw [Window.mvwdelch, hv]
    exact hdeleted v hindex
  · obtain ⟨v, hv, hindex⟩ := w.handle.exists_left (Nat.pos_of_ne_zero hx)
    rw [Window.mvwdelch, hv]
    exact hdeleted v hindex
  · exact h

theorem OnText.moveLeft (h : OnText w) : OnText w.moveLeft := by
  have hle := h.le_eom
  have hmoved : ∀ v : Window lines cols, v.index = w.handle.index - 1 →
      OnText { w with handle := v, cursor := if w.cursor > 0 then w.cursor - 1 else w.cursor } := by
    intro v hv
    rw [h.handle_index] at hv
    have hnonneg := v.index_nonneg
    rw [if_pos (by omega)]
    refine .of_index hv ?_
    show w.cursor - 1 ≤ w.eom
    omega
  unfold UIInputWin.moveLeft
  by_cases hstart : w.handle.y > 0 ∧ w.handle.x = 0
  · obtain ⟨v, hv, hindex⟩ := w.handle.exists_left_above hstart.1 hstart.2
    rw [if_pos hstart, hv]
    exact hmoved v hindex
  rw [if_neg hstart]
  by_cases hx : w.handle.x > 0
  · obtain ⟨v, hv, hindex⟩ := w.handle.exists_left hx
    rw [if_pos hx, hv]
    exact hmoved v hindex
  · rw [if_neg hx]
    exact h

/-- The cursor does not go to the next line. -/
theorem OnText.moveRight (h : OnText w) : OnText w.moveRight := by
  unfold UIInputWin.moveRight
  rw [← h.index]
  by_cases htext : w.eom > w.cursor
  · rw [if_pos htext]
    by_cases hx : w.handle.x + 1 < cols
    · obtain ⟨v, hv, hindex⟩ := w.handle.exists_right hx
      rw [hv]
      simp only [if_neg (show ¬ w.cursor + 1 > w.eom by omega)]
      exact .of_index (by rw [hindex, h.handle_index]) htext
    · rw [w.handle.wmove_eq_none (.inr (by omega))]
      exact h
  · rw [if_neg htext]
    exact h

theorem OnText.moveUp (h : OnText w) : OnText w.moveUp := by
  have hle := h.le_eom
  unfold UIInputWin.moveUp
  split_ifs with hy
  · obtain ⟨v, hv, hindex⟩ := w.handle.exists_up hy
    rw [hv]
    refine .of_index (by rw [hindex, h.handle_index]) ?_
    show w.cursor - cols ≤ w.eom
    omega
  · exact h

/-- **Moving down** keeps the cursor on the text exactly when there is text below. -/
theorem OnText.moveDown_iff (h : OnText w) : OnText w.moveDown ↔ Below w .down := by
  unfold UIInputWin.moveDown
  split_ifs with hdown
  · obtain ⟨hline, htext⟩ := hdown
    have hy : w.handle.y + 1 < lines := by omega
    obtain ⟨v, hv, hindex⟩ := w.handle.exists_down hy
    have hbelow : ((w.handle.y : ℤ) + 1) * cols + w.handle.x = w.cursor + cols := by
      rw [h.index]
      ring
    rw [hv, Below, hbelow]
    constructor
    · intro hmoved _ _
      exact hmoved.le_eom
    · intro hC
      exact .of_index (by rw [hindex, h.handle_index]) (hC hy htext)
  · refine iff_of_true h fun hy htext => absurd ⟨?_, htext⟩ hdown
    omega

/-- A character of one column. -/
theorem OnText.addChar (h : OnText w) (control : Bool) : OnText (w.addChar control 1) := by
  rcases w.addChar_cases control 1 with ⟨-, v, hv, hindex⟩ | ⟨-, v, hv, hstays⟩
  · rw [hv]
    refine .of_index ?_ (add_le_add_left h.le_eom _)
    rw [hindex rfl, h.handle_index]
    rfl
  · rw [hv, hstays rfl]
    exact h

/-- A message that is complete is taken away. -/
theorem OnText.enter (h : OnText w) : OnText (w.press .enter) := by
  rw [press, commit]
  by_cases hempty : w.eom = 0
  · rw [if_pos hempty]
    exact h
  · have hpos : w.eom > 0 := lt_of_le_of_ne (h.nonneg.trans h.le_eom) (Ne.symm hempty)
    rw [if_neg hempty, if_pos hpos]
    simp only [if_pos (show w.eom + 1 > 0 by omega)]
    exact onText_init le_rfl w.length

/-- **One key.** -/
theorem OnText.press_iff (h : OnText w) {key : InputKey} (hkey : key.Columns 1) :
    OnText (w.press key) ↔ Below w key := by
  cases key with
  | char control width =>
    obtain rfl : width = 1 := le_antisymm hkey.2 hkey.1
    exact iff_of_true (h.addChar control) trivial
  | backspace => exact iff_of_true h.delete trivial
  | left => exact iff_of_true h.moveLeft trivial
  | right => exact iff_of_true h.moveRight trivial
  | up => exact iff_of_true h.moveUp trivial
  | down => exact h.moveDown_iff
  | enter => exact iff_of_true h.enter trivial
  | escape => exact iff_of_true (onText_reset w) trivial

theorem step_eq_some {n : ℕ} {key : InputKey} :
    step n w key = some w' ↔ key.Columns n ∧ w.press key = w' := by
  unfold step
  split_ifs with hkey
  · simp [hkey]
  · simp [hkey]

/-- **The cursor stays on the text**, in a window of any size and for any keys with characters of
one column, as long as it is moved down only to where there is text; and it does not when it is
moved down elsewhere. -/
theorem on_text_iff {handle : Window lines cols}
    (h : Reachable (restrict (step 1) Below) (start handle length) w) :
    OnText w ∧ ∀ key : InputKey, key.Columns 1 → (OnText (w.press key) ↔ Below w key) := by
  have hw : OnText w := by
    refine h.invariant_restrict (P := OnText) (onText_init le_rfl length) ?_
    intro w₁ key w₂ _ hw hC hstep
    obtain ⟨hkey, rfl⟩ := step_eq_some.mp hstep
    exact (hw.press_iff hkey).mpr hC
  exact ⟨hw, fun key hkey => hw.press_iff hkey⟩

/-- The window of a terminal with 100 columns. -/
def wide : Window 3 98 := ⟨0, 0, by decide, by decide⟩

/-- A message of two lines and some characters, with the cursor at the end of the second line. -/
def twoLines : List InputKey :=
  List.replicate 206 (.char false 1) ++ List.replicate 11 .left

theorem on_text_two_lines :
    ∃ w, Reachable (restrict (step 1) Below) (start wide 281) w ∧ OnText w ∧
      ¬ OnText (w.press .down) := by
  obtain ⟨w, hreach, hw⟩ : ∃ w, Reachable (restrict (step 1) Below) (start wide 281) w ∧
      decide (¬ Below w .down) = true :=
    Reachable.of_any twoLines (by decide +kernel)
  obtain ⟨htext, hkeys⟩ := on_text_iff hreach
  exact ⟨w, hreach, htext, fun hdown =>
    of_decide_eq_true hw ((hkeys .down trivial).mp hdown)⟩

/-- Down from the end of the second line, where the third one is shorter. -/
theorem not_on_text :
    ∃ w, Reachable (step 1) (start wide 281) w ∧ w.eom < w.cursor ∧ ¬ OnText w := by
  obtain ⟨w, hreach, hw⟩ : ∃ w, Reachable (step 1) (start wide 281) w ∧
      decide (w.eom < w.cursor) = true :=
    Reachable.of_any (twoLines ++ [.down]) (by decide +kernel)
  have hlt : w.eom < w.cursor := of_decide_eq_true hw
  exact ⟨w, hreach, hlt, fun htext => absurd htext.le_eom (not_le.mpr hlt)⟩

/-! ### The limit -/

/-- A character that is taken while the cursor is in front of the limit fits the limit. -/
def Room (w : UIInputWin lines cols) : InputKey → Prop
  | .char control width =>
    w.cursor < w.eob → control = false → Takes w width → w.eom + width ≤ w.eob
  | _ => True

instance (w : UIInputWin lines cols) (key : InputKey) : Decidable (Room w key) := by
  cases key
  case char => exact inferInstanceAs (Decidable (_ → _ → _ → _))
  all_goals exact inferInstanceAs (Decidable True)

/-- The invariant: the text is within its limit, which is that of the buffer. -/
structure Limited (length : ℕ) (w : UIInputWin lines cols) : Prop where
  eom_le : w.eom ≤ w.eob
  eob_nonneg : 0 ≤ w.eob
  length_eq : w.length = length

/-- The text, its limit and the buffer are the same. -/
structure SameText (w w' : UIInputWin lines cols) : Prop where
  eom : w'.eom = w.eom
  eob : w'.eob = w.eob
  length : w'.length = w.length

theorem SameText.refl (w : UIInputWin lines cols) : SameText w w := ⟨rfl, rfl, rfl⟩

/-- A move that changes the position and the index only. -/
theorem SameText.of_move (moved : Option (Window lines cols)) (cursor : ℤ) :
    SameText w (match moved with
      | none => w
      | some handle => { w with handle, cursor }) := by
  cases moved with
  | none => exact .refl w
  | some v => exact ⟨rfl, rfl, rfl⟩

theorem sameText_moveLeft (w : UIInputWin lines cols) : SameText w w.moveLeft := by
  unfold moveLeft
  by_cases hstart : w.handle.y > 0 ∧ w.handle.x = 0
  · rw [if_pos hstart]
    exact .of_move _ _
  rw [if_neg hstart]
  by_cases hx : w.handle.x > 0
  · rw [if_pos hx]
    exact .of_move _ _
  · rw [if_neg hx]
    exact .refl w

theorem sameText_moveRight (w : UIInputWin lines cols) : SameText w w.moveRight := by
  unfold moveRight
  by_cases htext : w.eom > (w.handle.y : ℤ) * cols + w.handle.x
  · rw [if_pos htext]
    exact .of_move _ _
  · rw [if_neg htext]
    exact .refl w

theorem sameText_moveUp (w : UIInputWin lines cols) : SameText w w.moveUp := by
  unfold moveUp
  split_ifs
  · exact .of_move _ _
  · exact .refl w

theorem sameText_moveDown (w : UIInputWin lines cols) : SameText w w.moveDown := by
  unfold moveDown
  split_ifs
  · exact .of_move _ _
  · exact .refl w

theorem Limited.of_sameText (h : Limited length w) (hsame : SameText w w') : Limited length w' where
  eom_le := by rw [hsame.eom, hsame.eob]; exact h.eom_le
  eob_nonneg := by rw [hsame.eob]; exact h.eob_nonneg
  length_eq := by rw [hsame.length]; exact h.length_eq

/-- An empty message in a buffer that has room for its terminator. -/
theorem limited_init (hpos : 0 < length) (hint : length ≤ 2 ^ 31) (hempty : w.eom = 0) :
    Limited length (w.init length) := by
  have heob : 0 ≤ (w.init length).eob := by
    have hcells : (0 : ℤ) ≤ cols * lines := by positivity
    unfold init
    simp only
    rw [asInt_asSize (by omega) (by omega)]
    split_ifs
    · exact hcells
    · omega
  exact ⟨hempty.le.trans heob, heob, rfl⟩

theorem Limited.delete (h : Limited length w) : Limited length w.delete := by
  have hle := h.eom_le
  unfold UIInputWin.delete
  by_cases hpos : w.cursor > 0
  · rw [if_pos hpos]
    split
    · exact h
    · refine ⟨?_, h.eob_nonneg, h.length_eq⟩
      show w.eom - 1 ≤ w.eob
      omega
  · rw [if_neg hpos]
    exact h

theorem Limited.reset (h : Limited length w) : Limited length w.reset :=
  ⟨h.eob_nonneg, h.eob_nonneg, h.length_eq⟩

theorem Limited.enter (h : Limited length w) (hpos : 0 < length) (hint : length ≤ 2 ^ 31) :
    Limited length (w.press .enter) := by
  rw [press, commit, h.length_eq]
  by_cases hempty : w.eom = 0
  · rw [if_pos hempty]
    exact h
  · rw [if_neg hempty]
    by_cases htext : w.eom > 0
    · rw [if_pos htext]
      simp only [if_pos (show w.eom + 1 > 0 by omega)]
      exact limited_init hpos hint rfl
    · rw [if_neg htext]
      exact ⟨h.eob_nonneg, h.eob_nonneg, rfl⟩

theorem Limited.addChar (h : Limited length w) {control : Bool} {width : ℕ}
    (hroom : Room w (.char control width)) : Limited length (w.addChar control width) := by
  rcases w.addChar_cases control width with ⟨⟨hlt, hprint, htakes⟩, v, hv, -⟩ | ⟨-, v, hv, -⟩
  · rw [hv]
    exact ⟨hroom hlt hprint htakes, h.eob_nonneg, h.length_eq⟩
  · rw [hv]
    exact ⟨h.eom_le, h.eob_nonneg, h.length_eq⟩

/-- A text that is within its limit after a key has had room for it. -/
theorem room_of_press {key : InputKey} (h : (w.press key).eom ≤ (w.press key).eob) :
    Room w key := by
  cases key with
  | char control width =>
    intro hlt hprint htakes
    rw [press] at h
    rcases w.addChar_cases control width with ⟨-, v, hv, -⟩ | ⟨hnot, -⟩
    · rw [hv] at h
      exact h
    · exact absurd ⟨hlt, hprint, htakes⟩ hnot
  | _ => trivial

/-- **One key** that finds room. -/
theorem Limited.press (h : Limited length w) (hpos : 0 < length) (hint : length ≤ 2 ^ 31)
    {key : InputKey} (hroom : Room w key) : Limited length (w.press key) := by
  cases key with
  | char control width => exact h.addChar hroom
  | backspace => exact h.delete
  | left => exact h.of_sameText w.sameText_moveLeft
  | right => exact h.of_sameText w.sameText_moveRight
  | up => exact h.of_sameText w.sameText_moveUp
  | down => exact h.of_sameText w.sameText_moveDown
  | enter => exact h.enter hpos hint
  | escape => exact h.reset

/-- **The text stays within its limit**, in a window of any size and for any keys with characters
of one or two columns, as long as there is room for each character that is taken; and it does not
when a character is taken for which there is no room. -/
theorem within_limit_iff {handle : Window lines cols} (hpos : 0 < length)
    (hint : length ≤ 2 ^ 31) (h : Reachable (restrict (step 2) Room) (start handle length) w) :
    w.eom ≤ w.eob ∧
      ∀ key : InputKey, (w.press key).eom ≤ (w.press key).eob ↔ Room w key := by
  have hw : Limited length w := by
    refine h.invariant_restrict (P := Limited length) (limited_init hpos hint rfl) ?_
    intro w₁ key w₂ _ hw hC hstep
    obtain ⟨-, rfl⟩ := step_eq_some.mp hstep
    exact hw.press hpos hint hC
  exact ⟨hw.eom_le, fun key => ⟨room_of_press, fun hroom => (hw.press hpos hint hroom).eom_le⟩⟩

/-- A message that has reached its limit, with the cursor in front of its last character. -/
def fullMessage : List InputKey := List.replicate 280 (.char false 1) ++ [.left]

theorem within_limit_full :
    ∃ w, Reachable (restrict (step 2) Room) (start wide 281) w ∧ w.eom ≤ w.eob ∧
      ¬ (w.press (.char false 1)).eom ≤ (w.press (.char false 1)).eob := by
  obtain ⟨w, hreach, hw⟩ : ∃ w, Reachable (restrict (step 2) Room) (start wide 281) w ∧
      decide (¬ Room w (.char false 1)) = true :=
    Reachable.of_any fullMessage (by decide +kernel)
  obtain ⟨hle, hkeys⟩ := within_limit_iff (by decide) (by decide) hreach
  exact ⟨w, hreach, hle, fun hadded => of_decide_eq_true hw ((hkeys _).mp hadded)⟩

/-- One more character in the middle of a message that has reached its limit, and a character of
two columns where there is room for one. -/
theorem not_within_limit :
    (∃ w, Reachable (step 2) (start wide 281) w ∧ w.eob < w.eom ∧ w.eom = 281) ∧
      ∃ w, Reachable (step 2) (start wide 281) w ∧ w.eob < w.eom ∧ w.cursor = 281 := by
  constructor
  · obtain ⟨w, hreach, hw⟩ : ∃ w, Reachable (step 2) (start wide 281) w ∧
        decide (w.eob < w.eom ∧ w.eom = 281) = true :=
      Reachable.of_any (fullMessage ++ [.char false 1]) (by decide +kernel)
    exact ⟨w, hreach, of_decide_eq_true hw⟩
  · obtain ⟨w, hreach, hw⟩ : ∃ w, Reachable (step 2) (start wide 281) w ∧
        decide (w.eob < w.eom ∧ w.cursor = 281) = true :=
      Reachable.of_any (List.replicate 279 (.char false 1) ++ [.char false 2]) (by decide +kernel)
    exact ⟨w, hreach, of_decide_eq_true hw⟩

end UIInputWin

end C2Hat
