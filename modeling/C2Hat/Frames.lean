import C2Hat.MessageBuffer

/-!
# Taking the frames out of a buffer

What `Message_get` does with a whole buffer: it is called until it returns `NULL`.  The
reference is `framesOf`, which knows nothing of pointers and sizes: it looks for the next
slash, takes the bytes up to the next NUL, and goes on behind it.

When bytes in front of the slash are skipped, the `end` pointer of the scan is as many
bytes behind the array.  That is of no consequence as long as a terminator follows.

## Main results

* `staysInside_iff` — **a frame that is cut off is read past the end of the array exactly
  when bytes in front of it were skipped.**
* `getAll_eq_framesOf` — **from a buffer that ends with a terminator exactly its frames are
  taken, in order**, and it is left zeroed.
-/

namespace C2Hat

open Clib

/-! ### Where the scan reads -/

/-- A scan with an `end` pointer behind the array does not stop at the end of the
array. -/
theorem findEnd_overrun {s : Bytes} (hs : (0 : UInt8) ∉ s) :
    ∀ {left : ℕ}, s.length ≤ left → Message.findEnd s left = .error .outOfBounds := by
  induction s with
  | nil =>
    intro left _
    rfl
  | cons c s ih =>
    intro left hle
    rw [List.mem_cons, not_or] at hs
    cases left with
    | zero => simp at hle
    | succ left =>
      rw [Message.findEnd, if_neg (Ne.symm hs.1), ih hs.2 (by simpa using hle)]
      rfl

theorem nulFree_slash {run : Bytes} (hrun : (0 : UInt8) ∉ run) : (0 : UInt8) ∉ slash :: run := by
  rw [List.mem_cons, not_or]
  exact ⟨by decide, hrun⟩

/-- Behind skipped bytes, a frame that is cut off is read past the end of the array. -/
theorem get_overrun {b : MessageBuffer} {junk run : Bytes}
    (hview : b.view = junk ++ slash :: run) (hjunk : slash ∉ junk) (hskip : junk ≠ [])
    (hrun : (0 : UInt8) ∉ run) : Message.get b = .error .outOfBounds := by
  have hmem : memchr (b.data.drop (b.start.getD 0)) slash = some junk.length := by
    show memchr b.view slash = _
    rw [hview]
    exact memchr_append hjunk
  have hdrop : b.data.drop (b.start.getD 0 + junk.length) = slash :: run := by
    rw [drop_data_eq_view, hview, List.drop_left]
  have hsize : kMessageBufferSize - b.start.getD 0 = junk.length + (run.length + 1) := by
    rw [← b.length_view, hview, List.length_append, List.length_cons]
  have hpos : 0 < junk.length := List.length_pos_iff.mpr hskip
  have hend : Message.findEnd (slash :: run) (kMessageBufferSize - b.start.getD 0 - 1) =
      .error .outOfBounds := findEnd_overrun (nulFree_slash hrun) (by rw [List.length_cons]; omega)
  simp only [Message.get, hmem, hdrop, hend, Except.map]

/-- A block has no slash, or a frame with its terminator, or a frame that is cut off. -/
theorem frame_cases (s : Bytes) :
    slash ∉ s ∨
    (∃ junk rest, ∃ frame : CStr, s = junk ++ (frame.bytes ++ 0 :: rest) ∧ slash ∉ junk ∧
      frame.bytes.head? = some slash) ∨
    ∃ junk run, s = junk ++ slash :: run ∧ slash ∉ junk ∧ (0 : UInt8) ∉ run := by
  by_cases hslash : slash ∈ s
  · obtain ⟨junk, run, rfl, hjunk⟩ := List.eq_append_cons_of_mem hslash
    by_cases hnul : (0 : UInt8) ∈ run
    · obtain ⟨text, rest, rfl, htext⟩ := List.eq_append_cons_of_mem hnul
      exact Or.inr (Or.inl ⟨junk, rest, ⟨slash :: text, nulFree_slash htext⟩, rfl, hjunk, rfl⟩)
    · exact Or.inr (Or.inr ⟨junk, run, rfl, hjunk, hnul⟩)
  · exact Or.inl hslash

/-- `Message_get` examines bytes of the array only, and there is no frame when the run
from the first slash on has no terminator. -/
def StaysInside (b : MessageBuffer) : Prop :=
  (∃ r, Message.get b = .ok r) ∧
    ∀ junk run, b.view = junk ++ slash :: run → slash ∉ junk → (0 : UInt8) ∉ run →
      ∃ b', Message.get b = .ok (none, b')

/-- There are bytes in front of the first slash, and no terminator behind it. -/
def CutOffBehind (b : MessageBuffer) : Prop :=
  ∃ junk run, b.view = junk ++ slash :: run ∧ slash ∉ junk ∧ junk ≠ [] ∧ (0 : UInt8) ∉ run

/-- **A frame that is cut off is read past the end of the array exactly when bytes in
front of it were skipped.** -/
theorem staysInside_iff (b : MessageBuffer) : StaysInside b ↔ ¬ CutOffBehind b := by
  constructor
  · rintro ⟨⟨r, hr⟩, -⟩ ⟨junk, run, hview, hjunk, hskip, hrun⟩
    rw [get_overrun hview hjunk hskip hrun] at hr
    cases hr
  · intro hnot
    -- a frame that is cut off starts right where the search does
    have hpartial : ∀ junk run, b.view = junk ++ slash :: run → slash ∉ junk →
        (0 : UInt8) ∉ run → ∃ b', Message.get b = .ok (none, b') := by
      intro junk run hview hjunk hrun
      have hnil : junk = [] := by
        by_contra hskip
        exact hnot ⟨junk, run, hview, hjunk, hskip, hrun⟩
      subst hnil
      rw [List.nil_append] at hview
      exact ⟨_, get_partial (hview ▸ nulFree_slash hrun) (by rw [hview]; rfl)⟩
    refine ⟨?_, hpartial⟩
    rcases frame_cases b.view with hslash | ⟨junk, rest, frame, hview, hjunk, hhead⟩ |
      ⟨junk, run, hview, hjunk, hrun⟩
    · exact ⟨_, get_none hslash⟩
    · obtain ⟨b', hget, -⟩ := get_frame hview hjunk hhead
      exact ⟨_, hget⟩
    · obtain ⟨b', hget⟩ := hpartial junk run hview hjunk hrun
      exact ⟨_, hget⟩

/-- A full buffer: one byte that is skipped, a slash, and no terminator. -/
def skippedByte : MessageBuffer :=
  ⟨97 :: slash :: List.replicate 2046 97, by
    rw [List.length_cons, List.length_cons, List.length_replicate]; rfl, none⟩

/-- The scan goes on behind the array. -/
theorem not_staysInside_skippedByte :
    Message.get skippedByte = .error .outOfBounds ∧ ¬ StaysInside skippedByte := by
  have hget : Message.get skippedByte = .error .outOfBounds := by
    have hrun : (0 : UInt8) ∉ List.replicate 2046 (97 : UInt8) := by
      rw [List.mem_replicate]
      decide
    exact @get_overrun skippedByte [97] (List.replicate 2046 97) rfl (by decide) (by decide) hrun
  refine ⟨hget, ?_⟩
  rintro ⟨⟨r, hr⟩, -⟩
  rw [hget] at hr
  cases hr

/-! ### All frames of a buffer -/

/-- There is less behind the first frame of a block than in the block. -/
theorem length_behind_lt {s : Bytes} (h : (0 : UInt8) ∈ s.dropWhile (· != slash)) :
    ((s.dropWhile (· != slash)).dropWhile (· != 0)).tail.length < s.length := by
  have hskip : (s.dropWhile (· != slash)).length ≤ s.length := (List.dropWhile_suffix _).length_le
  have htext : ((s.dropWhile (· != slash)).dropWhile (· != 0)).length ≤
      (s.dropWhile (· != slash)).length := (List.dropWhile_suffix _).length_le
  have hpos : 0 < (s.dropWhile (· != slash)).length := List.length_pos_of_mem h
  rw [List.length_tail]
  omega

/-- The frames of a block: from the next slash to the next NUL, and so on behind it. -/
def framesOf (s : Bytes) : List CStr :=
  let found := s.dropWhile (· != slash)
  if 0 ∈ found then CStr.ofBlock found :: framesOf (found.dropWhile (· != 0)).tail else []
termination_by s.length
decreasing_by
  exact length_behind_lt (by assumption)

/-- Call `Message_get` until it returns `NULL`, for so many rounds; `none` when these were
not enough. -/
def Message.getAll : ℕ → MessageBuffer → Except Fault (Option (List CStr × MessageBuffer))
  | 0, _ => .ok none
  | rounds + 1, b =>
    (Message.get b).bind fun
      | (none, b') => .ok (some ([], b'))
      | (some frame, b') =>
        (Message.getAll rounds b').map (Option.map fun r => (frame :: r.1, r.2))

theorem length_framesOf_le (s : Bytes) : (framesOf s).length ≤ s.length := by
  fun_induction framesOf s with
  | case1 s found hnul ih =>
    have hlt : (found.dropWhile (· != 0)).tail.length < s.length := length_behind_lt hnul
    rw [List.length_cons]
    omega
  | case2 s found hnul => exact Nat.zero_le _

theorem framesOf_eq_nil {s : Bytes} (h : slash ∉ s) : framesOf s = [] := by
  have hdrop : s.dropWhile (· != slash) = [] := by
    rw [List.dropWhile_eq_nil_iff]
    intro c hc
    have : c ≠ slash := fun he => h (he ▸ hc)
    simpa using this
  rw [framesOf, hdrop]
  rfl

/-- A part without `c` is skipped on the way to the first `c`. -/
theorem dropWhile_append_cons {s t : Bytes} {c : UInt8} (hs : c ∉ s) :
    (s ++ c :: t).dropWhile (· != c) = c :: t := by
  have hall : ∀ x ∈ s, (x != c) = true := by
    intro x hx
    have : x ≠ c := fun he => hs (he ▸ hx)
    simpa using this
  rw [List.dropWhile_append_of_pos hall]
  simp

theorem framesOf_frame {junk rest : Bytes} {frame : CStr} (hjunk : slash ∉ junk)
    (hhead : frame.bytes.head? = some slash) :
    framesOf (junk ++ (frame.bytes ++ 0 :: rest)) = frame :: framesOf rest := by
  obtain ⟨text, hframe⟩ : ∃ text, frame.bytes = slash :: text := List.head?_eq_some_iff.mp hhead
  have hfound : (junk ++ (frame.bytes ++ 0 :: rest)).dropWhile (· != slash) =
      frame.bytes ++ 0 :: rest := by
    rw [hframe]
    exact dropWhile_append_cons hjunk
  rw [framesOf, hfound, if_pos (by simp), dropWhile_append_cons frame.nulFree, List.tail_cons]
  congr 1
  exact CStr.ext (CStr.bytes_ofBlock_append frame.nulFree rest)

/-- Two frames and the zero bytes behind them. -/
theorem framesOf_pair {f g : CStr} (hf : f.bytes.head? = some slash)
    (hg : g.bytes.head? = some slash) (n : ℕ) :
    framesOf (f.bytes ++ 0 :: (g.bytes ++ 0 :: List.replicate n 0)) = [f, g] := by
  have hrest := @framesOf_frame [] (List.replicate n 0) g (by simp) hg
  have hall := @framesOf_frame [] (g.bytes ++ 0 :: List.replicate n 0) f (by simp) hf
  rw [List.nil_append] at hrest hall
  rw [hall, hrest, framesOf_eq_nil (slash_not_mem_zeros n)]

/-- The frame that one call takes out is the first one of the unread part. -/
theorem exists_get_iff (b : MessageBuffer) (frame : CStr) :
    (∃ b', Message.get b = .ok (some frame, b')) ↔ frame ∈ (framesOf b.view).head? := by
  constructor
  · rintro ⟨b', hget⟩
    obtain ⟨junk, rest, hview, hjunk, hhead, -⟩ := get_eq_some hget
    rw [hview, framesOf_frame hjunk hhead]
    rfl
  · intro hframe
    rcases frame_cases b.view with hslash | ⟨junk, rest, first, hview, hjunk, hhead⟩ |
      ⟨junk, run, hview, hjunk, hrun⟩
    · rw [framesOf_eq_nil hslash] at hframe
      cases hframe
    · rw [hview, framesOf_frame hjunk hhead] at hframe
      obtain rfl := Option.some.inj hframe
      obtain ⟨b', hget, -⟩ := get_frame hview hjunk hhead
      exact ⟨b', hget⟩
    · rw [hview, framesOf, dropWhile_append_cons hjunk, if_neg (nulFree_slash hrun)] at hframe
      cases hframe

/-- A block that is empty or ends with a terminator. -/
def Terminated (s : Bytes) : Prop := ∀ c ∈ s.getLast?, c = 0

theorem terminated_of_last {s : Bytes} (h : s.getLast? = some 0) : Terminated s := by
  intro c hc
  rw [h] at hc
  exact (Option.some.inj hc).symm

theorem terminated_append_zeros (s : Bytes) (n : ℕ) :
    Terminated (s ++ 0 :: List.replicate n 0) := by
  intro c hc
  rw [← List.replicate_succ, List.getLast?_append_of_ne_nil _ (by simp)] at hc
  exact List.eq_of_mem_replicate (List.mem_of_getLast? hc)

/-- In such a block no frame is cut off. -/
theorem Terminated.cases {s : Bytes} (h : Terminated s) :
    slash ∉ s ∨
    ∃ junk rest, ∃ frame : CStr, s = junk ++ (frame.bytes ++ 0 :: rest) ∧ slash ∉ junk ∧
      frame.bytes.head? = some slash ∧ Terminated rest := by
  rcases frame_cases s with hslash | ⟨junk, rest, frame, rfl, hjunk, hhead⟩ |
    ⟨junk, run, rfl, -, hrun⟩
  · exact Or.inl hslash
  · refine Or.inr ⟨junk, rest, frame, rfl, hjunk, hhead, ?_⟩
    intro c hc
    refine h c ?_
    rw [List.getLast?_append_of_ne_nil _ (by simp), List.getLast?_append_of_ne_nil _ (by simp)]
    rw [Option.mem_def] at hc ⊢
    rw [List.getLast?_cons, hc]
    rfl
  · -- the last byte of a frame that is cut off is not a terminator
    exfalso
    have hlast := h ((slash :: run).getLast (by simp)) (by
      rw [List.getLast?_append_of_ne_nil _ (by simp)]
      exact List.getLast?_eq_some_getLast _)
    exact nulFree_slash hrun (hlast ▸ List.getLast_mem _)

theorem framesOf_zeroed : framesOf MessageBuffer.zeroed.view = [] :=
  framesOf_eq_nil (slash_not_mem_zeros _)

/-- The frames that are left when one was taken out. -/
theorem framesOf_leftBehind {b : MessageBuffer} {rest : Bytes} (h : LeftBehind b rest) :
    framesOf b.view = framesOf rest := by
  rcases h with hview | ⟨rfl, rfl⟩
  · rw [hview]
  · rw [framesOf_eq_nil (s := []) (by simp), framesOf_zeroed]

theorem terminated_leftBehind {b : MessageBuffer} {rest : Bytes} (h : LeftBehind b rest)
    (hrest : Terminated rest) : Terminated b.view := by
  rcases h with hview | ⟨-, rfl⟩
  · rwa [hview]
  · intro c hc
    exact List.eq_of_mem_replicate (List.mem_of_getLast? hc)

/-- One call takes out the first frame of the unread part. -/
theorem get_of_terminated {b : MessageBuffer} (h : Terminated b.view) :
    (framesOf b.view = [] ∧ Message.get b = .ok (none, .zeroed)) ∨
    ∃ frame b', framesOf b.view = frame :: framesOf b'.view ∧ Terminated b'.view ∧
      Message.get b = .ok (some frame, b') := by
  rcases h.cases with hslash | ⟨junk, rest, frame, hview, hjunk, hhead, hrest⟩
  · exact Or.inl ⟨framesOf_eq_nil hslash, get_none hslash⟩
  · obtain ⟨b', hget, hleft⟩ := get_frame hview hjunk hhead
    refine Or.inr ⟨frame, b', ?_, terminated_leftBehind hleft hrest, hget⟩
    rw [hview, framesOf_frame hjunk hhead, framesOf_leftBehind hleft]

/-- From any start on: the frames of the unread part. -/
theorem getAll_view {rounds : ℕ} : ∀ {b : MessageBuffer}, Terminated b.view →
    (framesOf b.view).length < rounds →
      Message.getAll rounds b = .ok (some (framesOf b.view, .zeroed)) := by
  induction rounds with
  | zero =>
    intro b _ hlt
    omega
  | succ rounds ih =>
    intro b h hlt
    rcases get_of_terminated h with ⟨hnil, hget⟩ | ⟨frame, b', hframes, h', hget⟩
    · rw [Message.getAll, hget, hnil]
      rfl
    · rw [hframes, List.length_cons] at hlt
      rw [Message.getAll, hget, hframes]
      show ((Message.getAll rounds b').map _) = _
      rw [ih h' (by omega)]
      rfl

/-- **From a buffer that ends with a terminator exactly its frames are taken, in order**,
and it is left zeroed. -/
theorem getAll_eq_framesOf {b : MessageBuffer} (hlast : b.data.getLast? = some 0)
    (hstart : b.start = none) {rounds : ℕ} (hrounds : (framesOf b.data).length < rounds) :
    Message.getAll rounds b = .ok (some (framesOf b.data, .zeroed)) := by
  have hview : b.view = b.data := by
    rw [MessageBuffer.view, hstart]
    rfl
  rw [← hview] at hrounds ⊢
  exact getAll_view (terminated_of_last (by rw [hview, hlast])) hrounds

/-- A full buffer: noise, a frame, and a frame whose terminator is the last byte. -/
def twoFrames : MessageBuffer :=
  ⟨ascii "x/ok" ++ 0 :: (slash :: List.replicate 2041 97 ++ [0]), by
    rw [List.length_append, List.length_cons, List.length_append, List.length_cons,
      List.length_replicate]; rfl, none⟩

theorem framesOf_twoFrames :
    framesOf twoFrames.data = [str "/ok", CStr.ofBlock (slash :: List.replicate 2041 97)] := by
  have hsplit : twoFrames.data = ascii "x" ++ ((str "/ok").bytes ++ 0 ::
      ([] ++ ((CStr.ofBlock (slash :: List.replicate 2041 97)).bytes ++ 0 :: []))) := by
    decide +kernel
  rw [hsplit, framesOf_frame (by decide) (by decide), framesOf_frame (by decide) (by decide +kernel),
    framesOf_eq_nil (by decide)]

theorem getAll_twoFrames :
    twoFrames.data.getLast? = some 0 ∧
    Message.getAll 3 twoFrames =
      .ok (some ([str "/ok", CStr.ofBlock (slash :: List.replicate 2041 97)], .zeroed)) := by
  have hlast : twoFrames.data.getLast? = some 0 := by decide +kernel
  have hrounds : (framesOf twoFrames.data).length < 3 := by
    rw [framesOf_twoFrames]
    decide
  refine ⟨hlast, ?_⟩
  rw [← framesOf_twoFrames]
  exact getAll_eq_framesOf hlast rfl hrounds

end C2Hat
