import C2Hat.Client.InputWin
import C2Hat.Lib.Cells
import C2Hat.Lib.Terminated

/-!
# The text in the input window

The message that is typed is kept nowhere but in the cells of the window of
`src/client/uiinput.c`: `wins_wstr` and `mvwdelch` change them, and `UIInputWin_commit` reads
them back line by line.  The two functions shift the rest of a line, not the rest of the text.

The cells are compared with a draft, a text with a place in it, that knows nothing of lines.
They show the draft as long as a text is edited in the line that it ends in, and not beyond the
last cell.

## Main definitions

* `UIInputText` — the window with its cells, and what each key does to them.
* `Draft`, `Draft.Edit`, `Draft.Typed` — the text, and what keys do to it.
* `UIInputText.Whole` — the keys after which the cells show the text.

## Main results

* `Shows.press` — **a key edits the text.**
* `entered_text` — **what is entered is what was typed.**
-/

namespace C2Hat

open Clib Curses Runs

/-! ### Drafts -/

/-- A key, with the character it is for, which takes one column. -/
inductive TextKey
  | char (c : WChar) (control : Bool)
  | backspace
  | left
  | right
  | up
  | down
  | enter
  | escape
  deriving DecidableEq

/-- The key without its character. -/
def TextKey.key : TextKey → InputKey
  | .char _ control => .char control 1
  | .backspace => .backspace
  | .left => .left
  | .right => .right
  | .up => .up
  | .down => .down
  | .enter => .enter
  | .escape => .escape

/-- A text, in front of the cursor and behind it. -/
structure Draft where
  before : List WChar
  after : List WChar
  deriving DecidableEq

namespace Draft

/-- Nothing has been typed. -/
def empty : Draft := ⟨[], []⟩

/-- The whole text. -/
def text (d : Draft) : List WChar := d.before ++ d.after

/-- The cursor goes to the left, if there is text. -/
def moveLeft (d : Draft) : Draft := ⟨d.before.dropLast, d.before.getLast?.toList ++ d.after⟩

/-- The cursor goes to the right, if there is text. -/
def moveRight (d : Draft) : Draft := ⟨d.before ++ d.after.head?.toList, d.after.tail⟩

/-- What a key makes of a draft.  At the end of a line the cursor does not go to the right, and
the lines above and below are not those of the text. -/
def Edit (limit : ℕ) (d : Draft) : TextKey → Draft → Prop
  | .char c control, d' =>
    d' = if d.before.length < limit ∧ control = false then ⟨d.before ++ [c], d.after⟩ else d
  | .backspace, d' => d' = ⟨d.before.dropLast, d.after⟩
  | .left, d' => d' = d.moveLeft
  | .right, d' => d' = d ∨ d' = d.moveRight
  | .up, d' | .down, d' => d'.text = d.text
  | .enter, d' | .escape, d' => d' = empty

/-- The text that is entered with a key. -/
def entered (d : Draft) : TextKey → List (List WChar)
  | .enter => if d.text = [] then [] else [d.text]
  | _ => []

/-- The draft after some keys, and the texts that were entered with them. -/
inductive Typed (limit : ℕ) : List TextKey → Draft → List (List WChar) → Prop
  | nil : Typed limit [] empty []
  | snoc {keys : List TextKey} {d d' : Draft} {texts : List (List WChar)} {key : TextKey}
      (typed : Typed limit keys d texts) (edit : Edit limit d key d') :
      Typed limit (keys ++ [key]) d' (texts ++ d.entered key)

theorem length_text (d : Draft) : d.text.length = d.before.length + d.after.length :=
  List.length_append

/-- A draft with one more character. -/
theorem text_type (d : Draft) (c : WChar) :
    Draft.text ⟨d.before ++ [c], d.after⟩ = d.before ++ c :: d.after := by
  rw [text, List.append_assoc]
  rfl

end Draft

/-! ### The window -/

/-- What an empty cell shows. -/
def blank : WChar := 32

/-- The input window, with its cells. -/
structure UIInputText (lines cols : ℕ) where
  win : UIInputWin lines cols
  cells : Cells WChar lines cols
  deriving DecidableEq

namespace UIInputText

variable {lines cols : ℕ} (t : UIInputText lines cols)

/-- The cells behind `UIInputWin_addChar(ch)`.  At the end of the window `waddwstr` fails, but it
has written the character. -/
def addChar (c : WChar) (control : Bool) : Cells WChar lines cols :=
  if t.win.cursor < t.win.eob ∧ control = false then
    if t.win.cursor = t.win.eom then t.cells.addch t.win.handle c
    else if t.win.cursor < t.win.eom then t.cells.insch t.win.handle c
    else t.cells
  else t.cells

/-- The cells behind `UIInputWin_delete`. -/
def delete : Cells WChar lines cols :=
  let w := t.win.handle
  if t.win.cursor > 0 then
    match (if w.x = 0 then w.mvwdelch ((w.y : ℤ) - 1) ((cols : ℤ) - 1)
      else w.mvwdelch w.y ((w.x : ℤ) - 1)) with
    | none => t.cells
    | some handle => t.cells.delch handle blank
  else t.cells

/-- The loop of `UIInputWin_commit`: the first lines, as far as there is room for them. -/
def readLines : ℕ → List WChar
  | 0 => []
  | n + 1 => readLines n ++ (t.cells.row n).take (t.win.eob - (readLines n).length).toNat

/-- The buffer behind `UIInputWin_commit`.  `UIInputLoop` has cleared it. -/
def committed : List WChar :=
  t.readLines lines ++ List.replicate (t.win.length - (t.readLines lines).length) 0

/-- What `UIInputLoop` does with a key. -/
def press (key : TextKey) : UIInputText lines cols where
  win := t.win.press key.key
  cells :=
    match key with
    | .char c control => t.addChar c control
    | .backspace => t.delete
    | .enter => if t.win.eom = 0 then t.cells else .clear lines cols blank
    | .escape => .clear lines cols blank
    | .left | .right | .up | .down => t.cells

/-- The buffer that `UIInputLoop` returns with. -/
def entered : TextKey → List (List WChar)
  | .enter => if t.win.commit.1 > 0 then [t.committed] else []
  | _ => []

/-- The window for a buffer of some length. -/
def start (handle : Window lines cols) (length : ℕ) : UIInputText lines cols :=
  ⟨.start handle length, .clear lines cols blank⟩

/-- The window after a key.  The terminator is a control character. -/
def step (key : TextKey) : Option (UIInputText lines cols) :=
  if key = .char 0 false then none else some (t.press key)

/-! ### What the cells show -/

/-- The text is edited in the line that it ends in, within its limit and not beyond the last
cell. -/
def Whole (t : UIInputText lines cols) : TextKey → Prop
  | .char _ control => t.win.cursor < t.win.eob → control = false →
    (t.win.cursor = t.win.eom → t.win.handle.cell + 1 < lines * cols) ∧
      (t.win.cursor < t.win.eom →
        t.win.eom < t.win.eob ∧ t.win.eom < (t.win.handle.lineEnd : ℕ))
  | .backspace => 0 < t.win.cursor →
    t.win.eom ≤ if t.win.handle.x = 0 then (t.win.handle.cell : ℤ) else t.win.handle.lineEnd
  | .down => UIInputWin.Below t.win .down
  | _ => True

instance (t : UIInputText lines cols) (key : TextKey) : Decidable (Whole t key) := by
  cases key
  case char => exact inferInstanceAs (Decidable (_ → _ → _))
  case backspace => exact inferInstanceAs (Decidable (_ → _))
  case down => exact inferInstanceAs (Decidable (UIInputWin.Below t.win .down))
  all_goals exact inferInstanceAs (Decidable True)

/-- **The cells show the draft**, and the cursor is at its place. -/
structure Shows (limit length : ℕ) (t : UIInputText lines cols) (d : Draft) : Prop where
  cursor : t.win.cursor = d.before.length
  eom : t.win.eom = d.text.length
  cell : t.win.handle.cell = d.before.length
  cells : t.cells.cells = d.text ++ List.replicate (lines * cols - d.text.length) blank
  eob : t.win.eob = limit
  length_eq : t.win.length = length
  within : d.text.length ≤ limit
  nulFree : (0 : WChar) ∉ d.text

variable {t : UIInputText lines cols} {d : Draft} {limit length : ℕ}

theorem Shows.onText (h : Shows limit length t d) : t.win.OnText := by
  have hlen := d.length_text
  refine .of_index ?_ ?_
  · rw [Window.index_eq_cell, h.cell, h.cursor]
  · rw [h.cursor, h.eom]
    omega

/-- The cursor is moved to some place in the text. -/
theorem Shows.of_move (h : Shows limit length t d) {w : UIInputWin lines cols}
    (hsame : t.win.SameText w) (hw : w.OnText) :
    Shows limit length ⟨w, t.cells⟩
      ⟨d.text.take w.cursor.toNat, d.text.drop w.cursor.toNat⟩ := by
  have hnonneg := hw.nonneg
  have hle := hw.le_eom
  have hindex := hw.handle_index
  rw [Window.index_eq_cell] at hindex
  rw [hsame.eom, h.eom] at hle
  have hlen : (d.text.take w.cursor.toNat).length = w.cursor.toNat :=
    List.length_take_of_le (by omega)
  have htext : Draft.text ⟨d.text.take w.cursor.toNat, d.text.drop w.cursor.toNat⟩ = d.text :=
    List.take_append_drop _ _
  constructor
  · show w.cursor = _
    rw [hlen]
    omega
  · rw [htext]
    exact hsame.eom.trans h.eom
  · show w.handle.cell = _
    rw [hlen]
    omega
  · rw [htext]
    exact h.cells
  · exact hsame.eob.trans h.eob
  · exact hsame.length.trans h.length_eq
  · rw [htext]
    exact h.within
  · rw [htext]
    exact h.nulFree

/-! ### Moving the cursor -/

/-- Where the cursor goes to the left. -/
theorem cursor_moveLeft {w : UIInputWin lines cols} (h : w.OnText) :
    w.moveLeft.cursor = max 0 (w.cursor - 1) := by
  have hindex := h.handle_index
  have hmoved : ∀ v : Window lines cols, v.index = w.handle.index - 1 →
      (if w.cursor > 0 then w.cursor - 1 else w.cursor) = max 0 (w.cursor - 1) := by
    intro v hv
    have hnonneg := v.index_nonneg
    rw [if_pos (by omega)]
    omega
  unfold UIInputWin.moveLeft
  by_cases hstart : w.handle.y > 0 ∧ w.handle.x = 0
  · obtain ⟨v, hv, hleft⟩ := w.handle.exists_left_above hstart.1 hstart.2
    rw [if_pos hstart, hv]
    exact hmoved v hleft
  rw [if_neg hstart]
  by_cases hx : w.handle.x > 0
  · obtain ⟨v, hv, hleft⟩ := w.handle.exists_left hx
    rw [if_pos hx, hv]
    exact hmoved v hleft
  · -- the cursor is in front of the text
    have hzero : w.handle.index = 0 := by
      have hx₀ : w.handle.x = 0 := by omega
      have hy₀ : w.handle.y = 0 := by omega
      rw [Window.index, hx₀, hy₀, Nat.cast_zero, zero_mul, add_zero]
    rw [if_neg hx]
    omega

/-- Where the cursor goes to the right, which it does within a line. -/
theorem cursor_moveRight {w : UIInputWin lines cols} (h : w.OnText) :
    w.moveRight.cursor = w.cursor ∨
      (w.cursor < w.eom ∧ w.moveRight.cursor = w.cursor + 1) := by
  unfold UIInputWin.moveRight
  rw [← h.index]
  by_cases htext : w.eom > w.cursor
  · rw [if_pos htext]
    cases w.handle.wmove w.handle.y ((w.handle.x : ℤ) + 1) with
    | none => exact .inl rfl
    | some v =>
      refine .inr ⟨htext, ?_⟩
      simp only [if_neg (show ¬ w.cursor + 1 > w.eom by omega)]
  · rw [if_neg htext]
    exact .inl rfl

theorem Shows.moveLeft (h : Shows limit length t d) :
    Shows limit length ⟨t.win.moveLeft, t.cells⟩ d.moveLeft := by
  have hmoved := h.of_move t.win.sameText_moveLeft h.onText.moveLeft
  have hcursor := cursor_moveLeft h.onText
  rw [h.cursor] at hcursor
  obtain ⟨before, after⟩ := d
  rcases List.eq_nil_or_concat' before with rfl | ⟨s, c, rfl⟩
  · have hzero : t.win.moveLeft.cursor.toNat = 0 := by
      rw [hcursor]
      rfl
    rw [hzero] at hmoved
    exact hmoved
  · have hlen : t.win.moveLeft.cursor.toNat = s.length := by
      rw [hcursor, List.length_append, List.length_singleton]
      omega
    have htext : Draft.text ⟨s ++ [c], after⟩ = s ++ (c :: after) := by
      rw [Draft.text, List.append_assoc]
      rfl
    rw [hlen, htext, List.take_left, List.drop_left] at hmoved
    rw [Draft.moveLeft, List.dropLast_concat, List.getLast?_concat]
    exact hmoved

theorem Shows.moveRight (h : Shows limit length t d) :
    ∃ d', (d' = d ∨ d' = d.moveRight) ∧
      Shows limit length ⟨t.win.moveRight, t.cells⟩ d' := by
  have hmoved := h.of_move t.win.sameText_moveRight h.onText.moveRight
  refine ⟨_, ?_, hmoved⟩
  rcases cursor_moveRight h.onText with hstays | ⟨hlt, hright⟩
  · have hlen : t.win.moveRight.cursor.toNat = d.before.length := by
      rw [hstays, h.cursor]
      rfl
    rw [hlen, Draft.text, List.take_left, List.drop_left]
    exact .inl rfl
  · have hlen : t.win.moveRight.cursor.toNat = d.before.length + 1 := by
      rw [hright, h.cursor]
      rfl
    obtain ⟨before, after⟩ := d
    rw [hlen, Draft.text]
    cases after with
    | nil =>
      rw [h.cursor, h.eom, Draft.text, List.append_nil] at hlt
      exact absurd hlt (lt_irrefl _)
    | cons c after =>
      rw [List.take_length_add_append, List.drop_length_add_append]
      exact .inr rfl

theorem Shows.moveUp (h : Shows limit length t d) :
    ∃ d' : Draft, d'.text = d.text ∧ Shows limit length ⟨t.win.moveUp, t.cells⟩ d' := by
  refine ⟨_, ?_, h.of_move t.win.sameText_moveUp h.onText.moveUp⟩
  exact List.take_append_drop _ _

theorem Shows.moveDown (h : Shows limit length t d) (hbelow : t.win.Below .down) :
    ∃ d' : Draft, d'.text = d.text ∧ Shows limit length ⟨t.win.moveDown, t.cells⟩ d' := by
  have hdown := h.onText.moveDown_iff.mpr hbelow
  refine ⟨_, ?_, h.of_move t.win.sameText_moveDown hdown⟩
  exact List.take_append_drop _ _

/-! ### Changing the text -/

/-- The window takes a character that is typed where there is room. -/
theorem Shows.takes (h : Shows limit length t d)
    (hend : t.win.cursor = t.win.eom → t.win.handle.cell + 1 < lines * cols)
    (hmiddle : t.win.cursor < t.win.eom → t.win.eom < (t.win.handle.lineEnd : ℕ)) :
    t.win.Takes 1 := by
  rcases h.onText.le_eom.eq_or_lt with heq | hlt
  · exact .inl ⟨heq, t.win.handle.waddwstr_one_fst (hend heq)⟩
  · have hline := hmiddle hlt
    have hcell := h.cell
    refine .inr ⟨hlt, .inl ?_⟩
    rw [h.cursor] at hlt
    rw [Window.cell] at hcell
    rw [Window.lineEnd, Nat.succ_mul] at hline
    omega

/-- The cells behind a character that is typed where there is room. -/
theorem Shows.cells_addChar (h : Shows limit length t d) (hlimit : limit ≤ lines * cols)
    {control : Bool} (hroom : t.win.cursor < t.win.eob ∧ control = false)
    (hend : t.win.cursor = t.win.eom → t.win.handle.cell + 1 < lines * cols)
    (hmiddle : t.win.cursor < t.win.eom →
      t.win.eom < t.win.eob ∧ t.win.eom < (t.win.handle.lineEnd : ℕ)) (c : WChar) :
    (t.addChar c control).cells =
      d.before ++ c :: (d.after ++ List.replicate (lines * cols - (d.text.length + 1)) blank) := by
  have hblanks : d.text.length < lines * cols →
      lines * cols - d.text.length = lines * cols - (d.text.length + 1) + 1 := by omega
  have htext := h.cells
  have hlen := d.length_text
  rw [UIInputText.addChar, if_pos hroom]
  rcases h.onText.le_eom.eq_or_lt with heq | hlt
  · -- behind the text
    have hlast := hend heq
    have hcursor := heq
    rw [h.cursor, h.eom, Nat.cast_inj] at hcursor
    rw [h.cell, hcursor] at hlast
    have hnil : d.after = [] := List.eq_nil_of_length_eq_zero (by omega)
    rw [hblanks (by omega), Draft.text, hnil, List.append_nil] at htext
    rw [if_pos heq, Cells.addch_text htext h.cell c, Draft.text, hnil, List.append_nil,
      List.nil_append]
  · -- in the line that the text ends in
    obtain ⟨hfits, hline⟩ := hmiddle hlt
    rw [h.eom, h.eob, Nat.cast_lt] at hfits
    rw [h.eom, Nat.cast_lt, hlen] at hline
    rw [hblanks (by omega), Draft.text, List.append_assoc] at htext
    rw [if_neg hlt.ne, if_pos hlt, Cells.insch_text htext h.cell hline c, Draft.text]

/-- **A character is typed.** -/
theorem Shows.addChar (h : Shows limit length t d) (hlimit : limit ≤ lines * cols) {c : WChar}
    {control : Bool} (hc : ¬ (c = 0 ∧ control = false)) (hwhole : Whole t (.char c control)) :
    Shows limit length ⟨t.win.addChar control 1, t.addChar c control⟩
      (if d.before.length < limit ∧ control = false then ⟨d.before ++ [c], d.after⟩ else d) := by
  have hroom_iff : (t.win.cursor < t.win.eob ∧ control = false) ↔
      (d.before.length < limit ∧ control = false) := by
    rw [h.cursor, h.eob, Nat.cast_lt]
  by_cases hroom : d.before.length < limit ∧ control = false
  · have hwin := hroom_iff.mpr hroom
    obtain ⟨hend, hmiddle⟩ := hwhole hwin.1 hwin.2
    have htakes := h.takes hend fun hlt => (hmiddle hlt).2
    obtain ⟨-, v, hv, hindex⟩ := (t.win.addChar_cases control 1).resolve_right fun hnot =>
      hnot.1 ⟨hwin.1, hwin.2, htakes⟩
    have hcells := h.cells_addChar hlimit hwin hend hmiddle c
    have hlen := d.length_text
    have hnewlen : (Draft.text ⟨d.before ++ [c], d.after⟩).length = d.text.length + 1 := by
      rw [Draft.text_type, hlen, List.length_append, List.length_cons, Nat.add_assoc]
    rw [if_pos hroom, hv]
    constructor
    · show t.win.cursor + (1 : ℕ) = _
      rw [h.cursor, List.length_append, List.length_singleton, Nat.cast_add]
    · show t.win.eom + (1 : ℕ) = _
      rw [hnewlen, h.eom, Nat.cast_add]
    · have hcell := hindex rfl
      rw [Window.index_eq_cell, Window.index_eq_cell, h.cell] at hcell
      rw [List.length_append, List.length_singleton]
      show v.cell = _
      omega
    · rw [hnewlen, Draft.text_type, hcells, List.append_assoc]
      rfl
    · exact h.eob
    · exact h.length_eq
    · -- there is room for the whole text
      rw [hnewlen]
      rcases h.onText.le_eom.eq_or_lt with heq | hlt
      · rw [h.cursor, h.eom, Nat.cast_inj] at heq
        omega
      · have hfits := (hmiddle hlt).1
        rw [h.eom, h.eob] at hfits
        omega
    · have hnul := h.nulFree
      rw [Draft.text_type, List.mem_append, List.mem_cons]
      rw [Draft.text, List.mem_append] at hnul
      rintro (hbefore | rfl | hafter)
      · exact hnul (.inl hbefore)
      · exact hc ⟨rfl, hroom.2⟩
      · exact hnul (.inr hafter)
  · rw [if_neg hroom]
    rw [← hroom_iff] at hroom
    rw [UIInputWin.addChar, if_neg hroom, UIInputText.addChar, if_neg hroom]
    exact h

/-- The character that is deleted, and the end of its line. -/
theorem exists_deleted {w : Window lines cols} (hpos : 0 < w.cell) :
    ∃ v : Window lines cols,
      (if w.x = 0 then w.mvwdelch ((w.y : ℤ) - 1) ((cols : ℤ) - 1)
        else w.mvwdelch w.y ((w.x : ℤ) - 1)) = some v ∧
      v.cell + 1 = w.cell ∧ v.lineEnd = if w.x = 0 then w.cell else w.lineEnd := by
  by_cases hx : w.x = 0
  · have hy : 0 < w.y := by
      rw [Window.cell, hx, Nat.add_zero] at hpos
      exact Nat.pos_of_mul_pos_right hpos
    obtain ⟨v, hv, hindex⟩ := w.exists_left_above hy hx
    obtain ⟨hvy, -⟩ := w.wmove_eq_some hv
    refine ⟨v, by rw [if_pos hx]; exact hv, ?_, ?_⟩
    · rw [Window.index_eq_cell, Window.index_eq_cell] at hindex
      omega
    · have hline : v.y + 1 = w.y := by omega
      rw [if_pos hx, Window.lineEnd, Window.cell, hline, hx, Nat.add_zero]
  · obtain ⟨v, hv, hindex⟩ := w.exists_left (Nat.pos_of_ne_zero hx)
    obtain ⟨hvy, -⟩ := w.wmove_eq_some hv
    refine ⟨v, by rw [if_neg hx]; exact hv, ?_, ?_⟩
    · rw [Window.index_eq_cell, Window.index_eq_cell] at hindex
      omega
    · rw [if_neg hx, Window.lineEnd, Window.lineEnd, Nat.cast_inj.mp hvy]

/-- **The character in front of the cursor is deleted.** -/
theorem Shows.delete (h : Shows limit length t d) (hlimit : limit ≤ lines * cols)
    (hwhole : Whole t .backspace) :
    Shows limit length ⟨t.win.delete, t.delete⟩ ⟨d.before.dropLast, d.after⟩ := by
  obtain ⟨before, after⟩ := d
  rcases List.eq_nil_or_concat' before with rfl | ⟨s, c, rfl⟩
  · have hzero : ¬ t.win.cursor > 0 := by
      rw [h.cursor]
      exact lt_irrefl _
    rw [UIInputWin.delete, if_neg hzero, UIInputText.delete, if_neg hzero]
    exact h
  have hcell := h.cell
  have hlen := Draft.length_text ⟨s ++ [c], after⟩
  have hwithin := h.within
  simp only [List.length_append, List.length_singleton] at hcell hlen
  have hpos : t.win.cursor > 0 := by
    rw [h.cursor, List.length_append, List.length_singleton]
    omega
  obtain ⟨v, hv, hvcell, hvline⟩ := exists_deleted (w := t.win.handle) (by omega)
  have hline : s.length + (after.length + 1) ≤ v.lineEnd := by
    have hwhole := hwhole hpos
    rw [h.eom, ← apply_ite Nat.cast, ← hvline, Nat.cast_le] at hwhole
    omega
  have hcells : (t.cells.delch v blank).cells =
      s ++ (after ++ List.replicate (lines * cols - (s.length + after.length)) blank) := by
    have htext := h.cells
    have hsplit : Draft.text ⟨s ++ [c], after⟩ = s ++ (c :: after) := by
      rw [Draft.text, List.append_assoc]
      rfl
    rw [hsplit, List.append_assoc] at htext
    rw [Cells.delch_text htext (by omega) hline, ← hsplit, hlen]
    congr 3
    omega
  have hwin : t.win.delete =
      { t.win with handle := v, cursor := t.win.cursor - 1, eom := t.win.eom - 1 } := by
    rw [UIInputWin.delete, if_pos hpos, hv]
  have hnewlen : (Draft.text ⟨s, after⟩).length = s.length + after.length :=
    Draft.length_text _
  rw [hwin, UIInputText.delete, if_pos hpos, hv, List.dropLast_concat]
  constructor
  · show t.win.cursor - 1 = (s.length : ℤ)
    rw [h.cursor, List.length_append, List.length_singleton]
    omega
  · show t.win.eom - 1 = _
    rw [h.eom, hlen, hnewlen]
    omega
  · show v.cell = s.length
    omega
  · rw [hnewlen]
    show (t.cells.delch v blank).cells = _
    rw [hcells, Draft.text, List.append_assoc]
  · exact h.eob
  · exact h.length_eq
  · rw [hnewlen]
    omega
  · have hnul := h.nulFree
    simp only [Draft.text, List.mem_append, not_or] at hnul ⊢
    exact ⟨hnul.1.1, hnul.2⟩

/-- An empty window. -/
theorem shows_clear {w : UIInputWin lines cols} (hcursor : w.cursor = 0) (heom : w.eom = 0)
    (hcell : w.handle.cell = 0) (heob : w.eob = limit) (hlength : w.length = length) :
    Shows limit length ⟨w, .clear lines cols blank⟩ Draft.empty where
  cursor := hcursor
  eom := heom
  cell := hcell
  cells := rfl
  eob := heob
  length_eq := hlength
  within := Nat.zero_le _
  nulFree := List.not_mem_nil

theorem cell_wclear (w : Window lines cols) : w.wclear.cell = 0 := by
  rw [Window.cell]
  exact (Nat.add_zero _).trans (Nat.zero_mul _)

/-- The limit of a message. -/
def limitOf (lines cols length : ℕ) : ℕ := min (length - 1) (lines * cols)

theorem eob_init (w : UIInputWin lines cols) (hpos : 0 < length) (hint : length ≤ 2 ^ 31) :
    (w.init length).eob = limitOf lines cols length := by
  rw [UIInputWin.init, limitOf]
  simp only
  rw [asInt_asSize (by omega) (by omega), Nat.mul_comm lines, Nat.cast_min, Nat.cast_mul,
    Nat.cast_sub hpos, Nat.cast_one]
  split_ifs with hwide
  · exact (min_eq_right hwide.le).symm
  · exact (min_eq_left (le_of_not_gt hwide)).symm

/-- A window that has just been prepared for a message. -/
theorem shows_init {w : UIInputWin lines cols} (heom : w.eom = 0) (hpos : 0 < length)
    (hint : length ≤ 2 ^ 31) :
    Shows (limitOf lines cols length) length ⟨w.init length, .clear lines cols blank⟩ Draft.empty :=
  shows_clear rfl heom (cell_wclear w.handle) (eob_init w hpos hint) rfl

/-- The text is entered, or there is none. -/
theorem Shows.enter (h : Shows (limitOf lines cols length) length t d) (hpos : 0 < length)
    (hint : length ≤ 2 ^ 31) :
    Shows (limitOf lines cols length) length (t.press .enter) Draft.empty := by
  rw [UIInputText.press, TextKey.key, UIInputWin.press, UIInputWin.commit]
  by_cases hempty : t.win.eom = 0
  · have hzero := hempty
    rw [h.eom, Nat.cast_eq_zero, Draft.length_text] at hzero
    obtain ⟨before, after⟩ := d
    obtain ⟨hbefore, hafter⟩ := Nat.add_eq_zero_iff.mp hzero
    obtain rfl : before = [] := List.eq_nil_of_length_eq_zero hbefore
    obtain rfl : after = [] := List.eq_nil_of_length_eq_zero hafter
    simp only [if_pos hempty, gt_iff_lt, lt_irrefl, if_false]
    exact h
  · have hnonneg : 0 ≤ t.win.eom := by
      rw [h.eom]
      exact Nat.cast_nonneg _
    have heom : t.win.eom > 0 := lt_of_le_of_ne hnonneg (Ne.symm hempty)
    simp only [if_neg hempty, if_pos heom, if_pos (show t.win.eom + 1 > 0 by omega), h.length_eq]
    exact shows_init rfl hpos hint

/-- **A key edits the text**, as long as the text is edited in the line that it ends in. -/
theorem Shows.press (h : Shows (limitOf lines cols length) length t d) (hpos : 0 < length)
    (hint : length ≤ 2 ^ 31) {key : TextKey} (hkey : key ≠ .char 0 false) (hwhole : Whole t key) :
    ∃ d', Draft.Edit (limitOf lines cols length) d key d' ∧
      Shows (limitOf lines cols length) length (t.press key) d' := by
  have hlimit : limitOf lines cols length ≤ lines * cols := Nat.min_le_right _ _
  cases key with
  | char c control =>
    refine ⟨_, rfl, h.addChar hlimit ?_ hwhole⟩
    rintro ⟨rfl, rfl⟩
    exact hkey rfl
  | backspace => exact ⟨_, rfl, h.delete hlimit hwhole⟩
  | left => exact ⟨_, rfl, h.moveLeft⟩
  | right => exact h.moveRight
  | up => exact h.moveUp
  | down => exact h.moveDown hwhole
  | enter => exact ⟨_, rfl, h.enter hpos hint⟩
  | escape =>
    exact ⟨_, rfl, shows_clear rfl rfl (cell_wclear t.win.handle) h.eob h.length_eq⟩

/-! ### What is read -/

/-- A buffer of some length with a text, which is followed by blanks up to its limit. -/
def padded (limit length : ℕ) (text : List WChar) : List WChar :=
  text ++ List.replicate (limit - text.length) blank ++ List.replicate (length - limit) 0

/-- The first lines are the first cells, up to the limit. -/
theorem readLines_eq (t : UIInputText lines cols) (heob : t.win.eob = limit) :
    ∀ m ≤ lines, t.readLines m = (t.cells.cells.take (m * cols)).take limit := by
  intro m
  induction m with
  | zero =>
    intro _
    rw [readLines, Nat.zero_mul, List.take_zero, List.take_nil]
  | succ m ih =>
    intro hm
    have hcells : m * cols ≤ t.cells.cells.length := by
      rw [t.cells.length_cells]
      exact Nat.mul_le_mul_right _ (Nat.le_of_succ_le hm)
    rw [readLines, ih (Nat.le_of_succ_le hm), heob, Cells.row, Nat.succ_mul, List.take_add,
      List.take_append, List.length_take, List.length_take, Nat.min_eq_left hcells]
    congr 2
    omega

/-- **What is read is the text**, and blanks behind it. -/
theorem Shows.committed_eq (h : Shows limit length t d) (hlimit : limit ≤ lines * cols) :
    t.committed = padded limit length d.text := by
  have hread : t.readLines lines =
      d.text ++ List.replicate (limit - d.text.length) blank := by
    have hwithin := h.within
    rw [readLines_eq t h.eob lines le_rfl, ← t.cells.length_cells, List.take_length, h.cells,
      List.take_append, List.take_of_length_le hwithin, List.take_replicate]
    congr 2
    omega
  have hlen : (d.text ++ List.replicate (limit - d.text.length) blank).length = limit := by
    rw [List.length_append, List.length_replicate]
    exact Nat.add_sub_cancel' h.within
  rw [committed, hread, hlen, h.length_eq, padded]

/-- What is read when a key completes the text. -/
theorem Shows.entered_eq (h : Shows limit length t d) (hlimit : limit ≤ lines * cols)
    (key : TextKey) : t.entered key = (d.entered key).map (padded limit length) := by
  cases key with
  | enter =>
    have heom := h.eom
    rw [entered, Draft.entered, UIInputWin.commit, h.committed_eq hlimit]
    by_cases hempty : d.text = []
    · rw [hempty, List.length_nil, Nat.cast_zero] at heom
      rw [if_pos hempty, if_pos heom, if_neg (lt_irrefl _), List.map_nil]
    · have hpos : (0 : ℤ) < t.win.eom := by
        rw [heom, Nat.cast_pos]
        exact List.length_pos_of_ne_nil hempty
      rw [if_neg hempty, if_neg hpos.ne', if_pos hpos, if_pos (show t.win.eom + 1 > 0 by omega),
        List.map_singleton]
  | char | backspace | left | right | up | down | escape => rfl

/-- The window while nothing but the text in the line it ends in is edited, with the buffers that
were read. -/
abbrev whole : UIInputText lines cols × List (List WChar) → TextKey →
    Option (UIInputText lines cols × List (List WChar)) :=
  recording (restrict step Whole) entered

/-- Two characters, one between them, and the message is entered. -/
def threeLetters : List TextKey :=
  [.char 104 false, .char 105 false, .left, .char 97 false, .enter]

/-- A character in the first line, when the text ends in the second: the last one of the line is
lost. -/
example :
    ((run (recording step entered) (start UIInputWin.wide 281, [])
      (List.replicate 97 (.char 97 false) ++ [.char 98 false, .char 99 false, .left, .left,
        .char 100 false, .enter])).map Prod.snd) =
      some [padded 280 281 (List.replicate 97 97 ++ [100, 99])] := by
  decide +kernel

end UIInputText

end C2Hat
