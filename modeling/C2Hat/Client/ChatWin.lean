import Mathlib.Algebra.Group.Nat.Defs
import Mathlib.Algebra.Order.Group.Int
import Mathlib.Logic.Function.Iterate
import C2Hat.Conversions
import C2Hat.Lib.Run
import C2Hat.Message

/-!
# The chat window

The log of the chat window of `src/client/uichat.c`, and the page of it that is displayed.  The
current line is an `int`, the size of a page a `size_t` and the length of the log an `int`, so
the sums and differences wrap and are converted back.

## Main definitions

* `UIChatWin` — the window and its log, with the functions `logMessage`, `setMode`,
  `previousPage`, `nextPage`, `render` and `updateContent`.
* `UIChatWin.step` — the window under any sequence of calls.
* `UIChatWin.Rendered` — a window that has content is rendered before it is browsed.

## Main results

* `updateContent_browse` — the page that is displayed.
* `paging_in_range` — **the current line stays in range, and paging misses nothing.**
-/

namespace C2Hat

open Clib Runs

/-- `kMaxCachedLines`. -/
def kMaxCachedLines : ℤ := 100

/-- `kBroadcastBufferSize`. -/
def kBroadcastBufferSize : ℕ := 9 + kMaxNicknameSize + kBufferSize

/-- An entry of the log. -/
@[ext] structure ChatLogEntry where
  type : C2HMessageType
  content : CStr
  username : CStr
  /-- An empty message is not logged. -/
  nonempty : content.bytes ≠ []
  deriving DecidableEq

/-- A `CStr` with what fits of a string, as `strncpy` leaves it in a cleared array. -/
def strncpy (s : CStr) (n : ℕ) : CStr :=
  ⟨s.bytes.take n, fun h => s.nulFree (List.mem_of_mem_take h)⟩

/-- `ChatLogEntry_create(buffer)` when there is memory. -/
def ChatLogEntry.create (buffer : C2HMessage) : Option ChatLogEntry :=
  if h : (strncpy buffer.content (kBroadcastBufferSize - 1)).bytes = [] then none
  else some {
    type := buffer.type
    content := strncpy buffer.content (kBroadcastBufferSize - 1)
    username := strncpy buffer.user kMaxNicknameSize
    nonempty := h }

/-- `UIChatWinMode`. -/
inductive UIChatWinMode
  | live
  | browse
  deriving DecidableEq

/-- The window and its log. -/
@[ext] structure UIChatWin where
  lines : ℤ
  pageSize : ℤ
  currentLine : ℤ
  mode : UIChatWinMode
  chatlog : List ChatLogEntry
  deriving DecidableEq

namespace UIChatWin

/-- The window after `UIChatWin_init`. -/
def init : UIChatWin where
  lines := 0
  pageSize := 0
  currentLine := 0
  mode := .live
  chatlog := []

variable (w : UIChatWin)

/-- `chatlog->length`. -/
def length : ℤ := w.chatlog.length

/-- `List_item(chatlog, pos)`. -/
def item (pos : ℤ) : Option ChatLogEntry := if 0 ≤ pos then w.chatlog[pos.toNat]? else none

/-- The entries from a line on up to another one. -/
def itemsBetween (first last : ℤ) : List ChatLogEntry :=
  ((List.range (last - first).toNat).map fun i : ℕ => first + (i : ℤ)).filterMap w.item

/-- The first line of the last page. -/
def tailStart : ℤ :=
  let first := asInt (asSize (asSize w.length - w.pageSize))
  if first < 0 then 0 else first

/-- The line behind the current page. -/
def pageEnd : ℤ :=
  let last := asInt (asSize (asSize w.currentLine + w.pageSize))
  if last ≥ w.length then w.length else last

/-- `UIChatWin_updateContent`: what is displayed. -/
def updateContent : List ChatLogEntry :=
  match w.mode with
  | .live => w.itemsBetween w.tailStart w.length
  | .browse => w.itemsBetween w.currentLine w.pageEnd

/-- `UIChatWin_render` in a window of that many lines. -/
def render (lines : ℤ) : UIChatWin := { w with lines, pageSize := asSize (asInt (lines - 1)) }

/-- An entry is appended to the log, and the oldest one deleted from a log that is full. -/
def cache (entry : ChatLogEntry) : UIChatWin :=
  let chatlog := w.chatlog ++ [entry]
  { w with chatlog := if (chatlog.length : ℤ) > kMaxCachedLines then chatlog.tail else chatlog }

/-- `UIChatWin_logMessage(buffer)`, where `created` is whether there is memory for the entry.
There is memory for its copy in the log. -/
def logMessage (buffer : C2HMessage) (created : Bool) : UIChatWin :=
  if buffer.type = .quit ∨ created = false then w
  else match ChatLogEntry.create buffer with
    | none => w
    | some entry => w.cache entry

/-- `UIChatWin_setMode(mode)`. -/
def setMode (mode : UIChatWinMode) : UIChatWin :=
  if w.mode = mode then w
  else match mode with
    | .browse =>
      if w.length > w.lines then { w with mode, currentLine := asInt (w.length - w.lines) }
      else { w with mode }
    | .live =>
      if w.length > 0 then { w with mode, currentLine := asInt (w.length - 1) }
      else { w with mode }

/-- `UIChatWin_previousPage`. -/
def previousPage : UIChatWin :=
  let line := asInt (asSize (asSize w.currentLine - w.pageSize))
  { w with currentLine := if line < 0 then 0 else line }

/-- `UIChatWin_nextPage`. -/
def nextPage : UIChatWin :=
  if w.currentLine < asInt (asSize (asSize w.length - w.pageSize)) then
    let line := asInt (asSize (asSize w.currentLine + w.pageSize))
    { w with currentLine := if line > w.length then asInt (line - asInt (w.length - 1)) else line }
  else w

end UIChatWin

/-- A call of one of the functions. -/
inductive ChatWinCall
  | logMessage (buffer : C2HMessage) (created : Bool)
  | setMode (mode : UIChatWinMode)
  | previousPage
  | nextPage
  /-- `UIChatWin_render`, which finds that many lines. -/
  | render (lines : ℤ)
  deriving DecidableEq

namespace UIChatWin

/-- The window after a call.  A window that is rendered has at least two lines. -/
def step (w : UIChatWin) : ChatWinCall → Option UIChatWin
  | .logMessage buffer created => some (w.logMessage buffer created)
  | .setMode mode => some (w.setMode mode)
  | .previousPage => some w.previousPage
  | .nextPage => some w.nextPage
  | .render lines => if 2 ≤ lines ∧ lines < 2 ^ 31 then some (w.render lines) else none

/-- A window that is not empty is browsed only after it has been rendered. -/
def Rendered (w : UIChatWin) (call : ChatWinCall) : Prop :=
  call = .setMode .browse → w.mode = .live → w.chatlog ≠ [] → w.lines ≠ 0

instance (w : UIChatWin) (call : ChatWinCall) : Decidable (Rendered w call) :=
  inferInstanceAs (Decidable (_ → _ → _ → _))

/-! ### The range -/

/-- The invariant of a window that is rendered before it is browsed. -/
structure InRange (w : UIChatWin) : Prop where
  line_nonneg : 0 ≤ w.currentLine
  line_le : w.currentLine ≤ max 0 (w.length - 1)
  cached : w.length ≤ kMaxCachedLines
  pageSize : w.lines = 0 ∧ w.pageSize = 0 ∨
    (2 ≤ w.lines ∧ w.lines < 2 ^ 31 ∧ w.pageSize = w.lines - 1)

/-- The invariant of any window: its current line may be the one behind the log. -/
structure InLog (w : UIChatWin) : Prop where
  line_nonneg : 0 ≤ w.currentLine
  line_le : w.currentLine ≤ w.length
  cached : w.length ≤ kMaxCachedLines
  pageSize : w.lines = 0 ∧ w.pageSize = 0 ∨
    (2 ≤ w.lines ∧ w.lines < 2 ^ 31 ∧ w.pageSize = w.lines - 1)

variable {w w' : UIChatWin}

theorem length_nonneg (w : UIChatWin) : 0 ≤ w.length := Int.natCast_nonneg _

theorem length_pos_iff : 0 < w.length ↔ w.chatlog ≠ [] := by
  rw [length, Int.natCast_pos, List.length_pos_iff]

theorem InRange.inLog (h : InRange w) : InLog w := by
  refine ⟨h.line_nonneg, ?_, h.cached, h.pageSize⟩
  have hline := h.line_le
  have hlength := w.length_nonneg
  omega

theorem InLog.inRange (h : InLog w) (hline : w.currentLine ≤ max 0 (w.length - 1)) : InRange w :=
  ⟨h.line_nonneg, hline, h.cached, h.pageSize⟩

/-- The bounds of the numbers. -/
theorem InLog.bounds (h : InLog w) :
    0 ≤ w.currentLine ∧ w.currentLine ≤ w.length ∧ 0 ≤ w.length ∧ w.length ≤ 100 ∧
      0 ≤ w.pageSize ∧ w.pageSize < 2 ^ 31 - 1 := by
  have hnonneg := h.line_nonneg
  have hline := h.line_le
  have hcached := h.cached
  have hlength := w.length_nonneg
  rw [kMaxCachedLines] at hcached
  rcases h.pageSize with ⟨-, hsize⟩ | ⟨hlines, hlines', hsize⟩
  · omega
  · omega

/-- A page is not longer than the window. -/
theorem InLog.page_le (h : InLog w) : 0 ≤ w.lines ∧ w.pageSize ≤ w.lines := by
  rcases h.pageSize with ⟨hlines, hsize⟩ | ⟨hlines, -, hsize⟩
  · omega
  · omega

/-- The end of a page that is an `int`. -/
theorem InLog.pageEnd_eq (h : InLog w) (hint : w.currentLine + w.pageSize < 2 ^ 31) :
    w.pageEnd = min (w.currentLine + w.pageSize) w.length := by
  obtain ⟨hline, -, -, -, hsize, -⟩ := h.bounds
  rw [pageEnd, asSize_of_nonneg hline (by omega), asInt_asSize (by omega) hint]
  split_ifs with hend
  · exact (min_eq_right hend).symm
  · exact (min_eq_left (le_of_not_ge hend)).symm

theorem InLog.previousPage_eq (h : InLog w) :
    w.previousPage = { w with currentLine := max 0 (w.currentLine - w.pageSize) } := by
  obtain ⟨hline, hlast, -, hcached, hsize, hsize'⟩ := h.bounds
  rw [previousPage, asSize_of_nonneg hline (by omega), asInt_asSize (by omega) (by omega)]
  split_ifs with hneg
  · rw [max_eq_left hneg.le]
  · rw [max_eq_right (not_lt.mp hneg)]

/-- The page is turned when there are entries behind it, and the clamp is never needed. -/
theorem InLog.nextPage_eq (h : InLog w) :
    w.nextPage = if w.currentLine + w.pageSize < w.length then
      { w with currentLine := w.currentLine + w.pageSize } else w := by
  obtain ⟨hline, hlast, hlength, hcached, hsize, hsize'⟩ := h.bounds
  rw [nextPage, asSize_of_nonneg hline (by omega), asSize_of_nonneg hlength (by omega),
    asInt_asSize (x := w.length - w.pageSize) (by omega) (by omega)]
  by_cases hmove : w.currentLine + w.pageSize < w.length
  · rw [if_pos (by omega), if_pos hmove, asInt_asSize (by omega) (by omega)]
    simp only [gt_iff_lt, if_neg (not_lt.mpr hmove.le)]
  · rw [if_neg (by omega), if_neg hmove]

theorem inRange_init : InRange init := ⟨le_rfl, le_max_left _ _, by decide, .inl ⟨rfl, rfl⟩⟩

theorem InLog.previousPage (h : InLog w) : InLog w.previousPage := by
  rw [h.previousPage_eq]
  obtain ⟨hline, hlast, hlength, -, hsize, -⟩ := h.bounds
  refine ⟨le_max_left _ _, ?_, h.cached, h.pageSize⟩
  show max 0 (w.currentLine - w.pageSize) ≤ w.length
  omega

theorem InRange.previousPage (h : InRange w) : InRange w.previousPage := by
  refine h.inLog.previousPage.inRange ?_
  rw [h.inLog.previousPage_eq]
  obtain ⟨hline, -, -, -, hsize, -⟩ := h.inLog.bounds
  have := h.line_le
  show max 0 (w.currentLine - w.pageSize) ≤ max 0 (w.length - 1)
  omega

theorem InLog.nextPage (h : InLog w) : InLog w.nextPage := by
  rw [h.nextPage_eq]
  obtain ⟨hline, -, -, -, hsize, -⟩ := h.bounds
  split_ifs with hmove
  · exact ⟨add_nonneg hline hsize, hmove.le, h.cached, h.pageSize⟩
  · exact h

theorem InRange.nextPage (h : InRange w) : InRange w.nextPage := by
  refine h.inLog.nextPage.inRange ?_
  rw [h.inLog.nextPage_eq]
  split_ifs with hmove
  · show w.currentLine + w.pageSize ≤ max 0 (w.length - 1)
    omega
  · exact h.line_le

theorem InLog.render (h : InLog w) {lines : ℤ} (hlines : 2 ≤ lines) (hlines' : lines < 2 ^ 31) :
    InLog (w.render lines) := by
  refine ⟨h.line_nonneg, h.line_le, h.cached, .inr ⟨hlines, hlines', ?_⟩⟩
  show asSize (asInt (lines - 1)) = lines - 1
  rw [asInt_of_lt (by omega) (by omega), asSize_of_nonneg (by omega) (by omega)]

/-- The log grows, and it is cut at its front. -/
theorem length_cache (w : UIChatWin) (entry : ChatLogEntry) (hcached : w.length ≤ kMaxCachedLines) :
    w.length ≤ (w.cache entry).length ∧ (w.cache entry).length ≤ kMaxCachedLines := by
  rw [cache, length, length] at *
  simp only [List.length_append, List.length_singleton]
  split_ifs with hfull
  · simp only [List.length_tail, List.length_append, List.length_singleton]
    omega
  · simp only [List.length_append, List.length_singleton]
    omega

/-- A message changes nothing but the log, which does not shrink. -/
theorem logMessage_cases (h : w.length ≤ kMaxCachedLines) (buffer : C2HMessage) (created : Bool) :
    ∃ log : List ChatLogEntry, w.logMessage buffer created = { w with chatlog := log } ∧
      w.length ≤ log.length ∧ (log.length : ℤ) ≤ kMaxCachedLines := by
  unfold UIChatWin.logMessage
  split_ifs
  · exact ⟨w.chatlog, rfl, le_rfl, h⟩
  · split
    · exact ⟨w.chatlog, rfl, le_rfl, h⟩
    · exact ⟨_, rfl, w.length_cache _ h⟩

theorem InLog.logMessage (h : InLog w) (buffer : C2HMessage) (created : Bool) :
    InLog (w.logMessage buffer created) := by
  obtain ⟨log, heq, hlength, hcached⟩ := logMessage_cases h.cached buffer created
  rw [heq]
  exact ⟨h.line_nonneg, h.line_le.trans hlength, hcached, h.pageSize⟩

theorem InRange.logMessage (h : InRange w) (buffer : C2HMessage) (created : Bool) :
    InRange (w.logMessage buffer created) := by
  refine (h.inLog.logMessage buffer created).inRange ?_
  obtain ⟨log, heq, hlength, -⟩ := logMessage_cases h.cached buffer created
  rw [heq]
  have hline := h.line_le
  show w.currentLine ≤ max 0 ((log.length : ℤ) - 1)
  omega

/-- Where browsing starts, and where it ends. -/
theorem InLog.setMode_eq (h : InLog w) (mode : UIChatWinMode) :
    w.setMode mode = if w.mode = mode then w else
      match mode with
      | .browse => { w with
          mode, currentLine := if w.lines < w.length then w.length - w.lines else w.currentLine }
      | .live => { w with mode, currentLine := max 0 (w.length - 1) } := by
  obtain ⟨hline, hlast, hlength, hcached, -, -⟩ := h.bounds
  unfold UIChatWin.setMode
  by_cases hsame : w.mode = mode
  · rw [if_pos hsame, if_pos hsame]
  rw [if_neg hsame, if_neg hsame]
  cases mode with
  | browse =>
    simp only
    split_ifs with hlong
    · obtain ⟨hlines, -⟩ := h.page_le
      rw [asInt_of_lt (by omega) (by omega)]
    · rfl
  | live =>
    simp only
    split_ifs with hpos
    · rw [asInt_of_lt (by omega) (by omega), max_eq_right (by omega)]
    · -- the line of an empty log is the first one
      have hzero : w.currentLine = max 0 (w.length - 1) := by omega
      rw [← hzero]

theorem InLog.setMode (h : InLog w) (mode : UIChatWinMode) : InLog (w.setMode mode) := by
  obtain ⟨hline, hlast, hlength, -, -, -⟩ := h.bounds
  rw [h.setMode_eq]
  by_cases hsame : w.mode = mode
  · rw [if_pos hsame]
    exact h
  rw [if_neg hsame]
  cases mode with
  | browse =>
    obtain ⟨hlines, -⟩ := h.page_le
    refine ⟨?_, ?_, h.cached, h.pageSize⟩
    · show 0 ≤ if w.lines < w.length then w.length - w.lines else w.currentLine
      split_ifs <;> omega
    · show (if w.lines < w.length then w.length - w.lines else w.currentLine) ≤ w.length
      split_ifs <;> omega
  | live =>
    refine ⟨le_max_left _ _, ?_, h.cached, h.pageSize⟩
    show max 0 (w.length - 1) ≤ w.length
    omega

theorem InRange.setMode (h : InRange w) {mode : UIChatWinMode} (hC : Rendered w (.setMode mode)) :
    InRange (w.setMode mode) := by
  refine (h.inLog.setMode mode).inRange ?_
  have hline := h.line_le
  rw [h.inLog.setMode_eq]
  by_cases hsame : w.mode = mode
  · rw [if_pos hsame]
    exact hline
  rw [if_neg hsame]
  cases mode with
  | browse =>
    show (if w.lines < w.length then w.length - w.lines else w.currentLine) ≤ max 0 (w.length - 1)
    split_ifs with hlong
    · have hlive : w.mode = .live := by
        cases hmode : w.mode with
        | live => rfl
        | browse => exact absurd hmode hsame
      -- a window with more entries than lines has been rendered
      have hlines : 2 ≤ w.lines := by
        rcases h.pageSize with ⟨hzero, -⟩ | ⟨hlines, -⟩
        · rw [hzero] at hlong
          exact absurd hzero (hC rfl hlive (length_pos_iff.mp hlong))
        · exact hlines
      omega
    · exact hline
  | live => exact le_rfl

theorem InLog.step {call : ChatWinCall} (h : InLog w) (hstep : w.step call = some w') :
    InLog w' := by
  cases call with
  | logMessage buffer created =>
    cases hstep
    exact h.logMessage buffer created
  | setMode mode =>
    cases hstep
    exact h.setMode mode
  | previousPage =>
    cases hstep
    exact h.previousPage
  | nextPage =>
    cases hstep
    exact h.nextPage
  | render lines =>
    rw [UIChatWin.step] at hstep
    split_ifs at hstep with hlines
    cases hstep
    exact h.render hlines.1 hlines.2

theorem InRange.step {call : ChatWinCall} (h : InRange w) (hC : Rendered w call)
    (hstep : w.step call = some w') : InRange w' := by
  cases call with
  | logMessage buffer created =>
    cases hstep
    exact h.logMessage buffer created
  | setMode mode =>
    cases hstep
    exact h.setMode hC
  | previousPage =>
    cases hstep
    exact h.previousPage
  | nextPage =>
    cases hstep
    exact h.nextPage
  | render lines =>
    have hw' := h.inLog.step hstep
    rw [UIChatWin.step] at hstep
    split_ifs at hstep with hlines
    cases hstep
    exact hw'.inRange h.line_le

theorem inLog_of_reachable (h : Reachable step init w) : InLog w :=
  h.invariant (P := InLog) inRange_init.inLog fun hw hstep => hw.step hstep

theorem inRange_of_reachable (h : Reachable (restrict step Rendered) init w) : InRange w := by
  refine h.invariant_restrict (P := InRange) inRange_init ?_
  intro w₁ call w₂ _ hw hC hstep
  exact hw.step hC hstep

/-! ### Paging -/

/-- Between two lines of the log there are the entries with these numbers. -/
theorem itemsBetween_eq (w : UIChatWin) {first last : ℤ} (hfirst : 0 ≤ first) :
    w.itemsBetween first last = (w.chatlog.drop first.toNat).take (last - first).toNat := by
  rw [itemsBetween, List.filterMap_map]
  induction (last - first).toNat with
  | zero => rfl
  | succ n ih =>
    have hitem : w.item (first + n) = (w.chatlog.drop first.toNat)[n]? := by
      rw [item, if_pos (by omega), List.getElem?_drop]
      congr 1
      omega
    rw [List.range_succ, List.filterMap_append, ih, List.take_add_one, ← hitem]
    cases hn : w.item (first + n) <;> simp [hn]

/-- **The page that is displayed** while the log is browsed. -/
theorem updateContent_browse (h : InLog w) (hmode : w.mode = .browse)
    (hint : w.currentLine + w.pageSize < 2 ^ 31) :
    w.updateContent = (w.chatlog.drop w.currentLine.toNat).take w.pageSize.toNat := by
  obtain ⟨hline, -, -, -, hsize, -⟩ := h.bounds
  have hlength : w.length = w.chatlog.length := rfl
  rw [updateContent, hmode]
  simp only
  rw [w.itemsBetween_eq hline, h.pageEnd_eq hint, List.take_eq_take_iff, List.length_drop, hlength]
  omega

/-- A page that is turned starts where the page before it ends. -/
theorem InRange.nextPage_line (h : InRange w) (hmove : w.nextPage.currentLine ≠ w.currentLine) :
    w.nextPage.currentLine = w.pageEnd := by
  obtain ⟨-, -, -, hcached, -, -⟩ := h.inLog.bounds
  rw [h.inLog.nextPage_eq] at hmove ⊢
  split_ifs at hmove ⊢ with hturn
  · rw [h.inLog.pageEnd_eq (by omega), min_eq_left hturn.le]
  · exact absurd rfl hmove

/-- The page in front of a page ends behind the start of that page. -/
theorem InRange.previousPage_line (h : InRange w) :
    w.previousPage.currentLine ≤ w.currentLine ∧ w.currentLine ≤ w.previousPage.pageEnd := by
  obtain ⟨hline, hlast, hlength, hcached, hsize, hsize'⟩ := h.inLog.bounds
  have hprev := h.inLog.previousPage
  rw [h.inLog.previousPage_eq] at hprev ⊢
  have hend := hprev.pageEnd_eq (by
    show max 0 (w.currentLine - w.pageSize) + w.pageSize < 2 ^ 31
    omega)
  rw [hend]
  change max 0 (w.currentLine - w.pageSize) ≤ w.currentLine ∧
    w.currentLine ≤ min (max 0 (w.currentLine - w.pageSize) + w.pageSize) w.length
  omega

/-- The pages in front, one after the other. -/
theorem exists_first (h : InRange w) (hsize : 0 < w.pageSize) :
    ∃ n, (UIChatWin.previousPage^[n] w).currentLine = 0 ∧
      ∀ k < n, (UIChatWin.previousPage^[k + 1] w).currentLine ≤
          (UIChatWin.previousPage^[k] w).currentLine ∧
        (UIChatWin.previousPage^[k] w).currentLine ≤
          (UIChatWin.previousPage^[k + 1] w).pageEnd := by
  obtain ⟨m, hm⟩ : ∃ m, w.currentLine.toNat ≤ m := ⟨_, le_rfl⟩
  induction m generalizing w with
  | zero =>
    have hline := h.line_nonneg
    exact ⟨0, by rw [Function.iterate_zero, id]; omega, nofun⟩
  | succ m ih =>
    have hline := h.line_nonneg
    have hprev := h.inLog.previousPage_eq
    obtain ⟨n, hfirst, hpages⟩ := ih h.previousPage (by rw [hprev]; exact hsize) (by
      rw [hprev]
      show (max 0 (w.currentLine - w.pageSize)).toNat ≤ m
      omega)
    refine ⟨n + 1, hfirst, ?_⟩
    intro k hk
    cases k with
    | zero => exact h.previousPage_line
    | succ k => exact hpages k (by omega)

/-- The pages behind, one after the other. -/
theorem exists_newest (h : InRange w) (hsize : 0 < w.pageSize)
    (hint : w.currentLine + w.pageSize < 2 ^ 31) (hne : w.chatlog ≠ []) :
    ∃ n, (UIChatWin.nextPage^[n] w).currentLine ≤ w.length - 1 ∧
      w.length - 1 < (UIChatWin.nextPage^[n] w).pageEnd ∧
      ∀ k < n, (UIChatWin.nextPage^[k + 1] w).currentLine =
        (UIChatWin.nextPage^[k] w).pageEnd := by
  obtain ⟨m, hm⟩ : ∃ m, (w.length - w.currentLine).toNat ≤ m := ⟨_, le_rfl⟩
  induction m generalizing w with
  | zero =>
    have hpos := length_pos_iff.mpr hne
    have hline := h.line_le
    omega
  | succ m ih =>
    obtain ⟨hline, hlast, hlength, hcached, hsize₀, hsize'⟩ := h.inLog.bounds
    have hpos := length_pos_iff.mpr hne
    have hnext := h.inLog.nextPage_eq
    by_cases hturn : w.currentLine + w.pageSize < w.length
    · rw [if_pos hturn] at hnext
      obtain ⟨n, hstart, hend, hpages⟩ := ih h.nextPage (by rw [hnext]; exact hsize)
        (by rw [hnext]; show w.currentLine + w.pageSize + w.pageSize < 2 ^ 31; omega)
        (by rw [hnext]; exact hne)
        (by rw [hnext]; show (w.length - (w.currentLine + w.pageSize)).toNat ≤ m; omega)
      have hlog : w.nextPage.length = w.length := by rw [hnext]; rfl
      rw [hlog] at hstart hend
      refine ⟨n + 1, hstart, hend, ?_⟩
      intro k hk
      cases k with
      | zero =>
        refine h.nextPage_line ?_
        rw [hnext]
        show w.currentLine + w.pageSize ≠ w.currentLine
        omega
      | succ k => exact hpages k (by omega)
    · -- the newest entry is on this page
      have hline' := h.line_le
      refine ⟨0, ?_, ?_, nofun⟩
      · rw [Function.iterate_zero, id]
        omega
      · rw [Function.iterate_zero, id, h.inLog.pageEnd_eq hint]
        omega

/-- **Paging** in a window that has been rendered before it is browsed: the current line is a
line of the log; a page that is turned starts where the one before it ends, up to the one with
the newest entry; and the pages in front come without a gap, down to the first line. -/
theorem paging_in_range (h : Reachable (restrict step Rendered) init w) :
    0 ≤ w.currentLine ∧ w.currentLine ≤ max 0 (w.length - 1) ∧
      (w.nextPage.currentLine ≠ w.currentLine → w.nextPage.currentLine = w.pageEnd) ∧
      (0 < w.pageSize → w.currentLine + w.pageSize < 2 ^ 31 → w.chatlog ≠ [] →
        ∃ n, (UIChatWin.nextPage^[n] w).currentLine ≤ w.length - 1 ∧
          w.length - 1 < (UIChatWin.nextPage^[n] w).pageEnd ∧
          ∀ k < n, (UIChatWin.nextPage^[k + 1] w).currentLine =
            (UIChatWin.nextPage^[k] w).pageEnd) ∧
      (0 < w.pageSize →
        ∃ n, (UIChatWin.previousPage^[n] w).currentLine = 0 ∧
          ∀ k < n, (UIChatWin.previousPage^[k + 1] w).currentLine ≤
              (UIChatWin.previousPage^[k] w).currentLine ∧
            (UIChatWin.previousPage^[k] w).currentLine ≤
              (UIChatWin.previousPage^[k + 1] w).pageEnd) := by
  have hw := inRange_of_reachable h
  exact ⟨hw.line_nonneg, hw.line_le, hw.nextPage_line, exists_newest hw, exists_first hw⟩

/-- A message to log. -/
def hello : C2HMessage := ⟨.msg, str "hello", str "Joe"⟩

theorem paging_in_range_browsing :
    ∃ w, Reachable (restrict step Rendered) init w ∧ w.currentLine = 1 ∧
      0 ≤ w.currentLine ∧ w.currentLine ≤ max 0 (w.length - 1) := by
  obtain ⟨w, hreach, hw⟩ : ∃ w, Reachable (restrict step Rendered) init w ∧
      decide (w.currentLine = 1) = true :=
    Reachable.of_any [.render 2, .logMessage hello true, .logMessage hello true,
      .logMessage hello true, .setMode .browse] (by decide +kernel)
  have hrange := paging_in_range hreach
  exact ⟨w, hreach, of_decide_eq_true hw, hrange.1, hrange.2.1⟩

/-- A window that is browsed before it is rendered, and one with more lines than an `int` has
room for behind the current line. -/
theorem not_paging_in_range_unrendered :
    (¬ ∀ w, Reachable step init w → w.currentLine ≤ max 0 (w.length - 1)) ∧
    ¬ ∀ w, Reachable (restrict step Rendered) init w → 0 < w.pageSize → w.chatlog ≠ [] →
      ∃ n, w.length - 1 < (UIChatWin.nextPage^[n] w).pageEnd := by
  constructor
  · intro h
    obtain ⟨w, hreach, hw⟩ : ∃ w, Reachable step init w ∧
        decide (max 0 (w.length - 1) < w.currentLine) = true :=
      Reachable.of_any [.logMessage hello true, .setMode .browse] (by decide +kernel)
    exact absurd (h w hreach) (not_le.mpr (of_decide_eq_true hw))
  · intro h
    obtain ⟨w, hreach, hw⟩ : ∃ w, Reachable (restrict step Rendered) init w ∧
        decide (w.nextPage = w ∧ 0 < w.pageSize ∧ w.chatlog ≠ [] ∧ w.pageEnd < 0) = true :=
      Reachable.of_any [.render 2, .logMessage hello true, .logMessage hello true,
        .logMessage hello true, .logMessage hello true, .setMode .browse,
        .render 2147483647] (by decide +kernel)
    obtain ⟨hstays, hsize, hne, hend⟩ := of_decide_eq_true hw
    obtain ⟨n, hn⟩ := h w hreach hsize hne
    rw [Function.iterate_fixed hstays] at hn
    have hlength := w.length_nonneg
    omega

end UIChatWin

end C2Hat
