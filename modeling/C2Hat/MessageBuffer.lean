import C2Hat.Message

/-!
# The receive buffer

Bytes read from a connection collect in a `MessageBuffer`, and `Message_get` cuts
the next frame out of it: from the next slash to the next NUL.  The unread part of
a buffer (`MessageBuffer.view`) is all that the extraction depends on, so the
specifications below speak of it alone.

## Main results

* `get_frame`, `get_none`, `get_partial` — the three ways an extraction ends.
* `get_eq_some` — the converse: an extracted frame stood in the view.
-/

namespace C2Hat

open Clib

/-- Size of the data array of a `MessageBuffer`. -/
def kMessageBufferSize : ℕ := 2048

/-- Data read from a connection, and where the next frame is looked for. -/
@[ext] structure MessageBuffer where
  /-- The bytes. -/
  data : Bytes
  /-- There are `kMessageBufferSize` of them. -/
  length_data : data.length = kMessageBufferSize
  /-- The `start` pointer as an offset; `none` is `NULL`. -/
  start : Option ℕ
  deriving DecidableEq

/-- `'/'`, the first byte of every frame. -/
abbrev slash : UInt8 := 47

theorem slash_not_mem_zeros (n : ℕ) : slash ∉ List.replicate n (0 : UInt8) :=
  fun h => absurd (List.eq_of_mem_replicate h) (by decide)

namespace MessageBuffer

/-- A zeroed buffer whose start is `NULL`: the state of a new buffer, and of one
that has been used up. -/
def zeroed : MessageBuffer := ⟨List.replicate kMessageBufferSize 0, by simp, none⟩

/-- The unread part. -/
def view (b : MessageBuffer) : Bytes := b.data.drop (b.start.getD 0)

@[simp] theorem length_view (b : MessageBuffer) :
    b.view.length = kMessageBufferSize - b.start.getD 0 := by
  rw [view, List.length_drop, b.length_data]

@[simp] theorem view_zeroed : zeroed.view = List.replicate kMessageBufferSize 0 := rfl

/-- Copy bytes into the array, from an offset on. -/
def write (b : MessageBuffer) (offset : ℕ) (bytes : Bytes) : MessageBuffer where
  data := (b.data.take offset ++ (bytes ++ b.data.drop (offset + bytes.length))).take
    kMessageBufferSize
  length_data := by
    rw [List.length_take, List.length_append, List.length_append, List.length_take,
      List.length_drop, b.length_data]
    omega
  start := b.start

/-- Behind `offset` zero bytes, what is written is followed by the zero bytes that
are left. -/
theorem drop_data_write {b : MessageBuffer} {offset : ℕ} {bytes : Bytes}
    (hzero : b.data.drop offset = List.replicate (kMessageBufferSize - offset) 0)
    (hfit : offset + bytes.length ≤ kMessageBufferSize) :
    (b.write offset bytes).data.drop offset =
      bytes ++ List.replicate (kMessageBufferSize - offset - bytes.length) 0 := by
  have hdrop : b.data.drop (offset + bytes.length) =
      List.replicate (kMessageBufferSize - offset - bytes.length) 0 := by
    rw [← List.drop_drop, hzero, List.drop_replicate]
  have htake : (b.data.take offset).length = offset := by
    rw [List.length_take, b.length_data]
    omega
  show ((b.data.take offset ++ _).take kMessageBufferSize).drop offset = _
  rw [hdrop, List.take_of_length_le]
  · rw [List.drop_left' htake]
  · rw [List.length_append, htake, List.length_append, List.length_replicate]
    omega

end MessageBuffer

/-- The scan of `Message_get` for the end of the frame, over the bytes from the
cursor to the end of the array; `left` is the distance to the `end` pointer.  That
pointer may lie outside of the array, the bytes there may not be read. -/
def Message.findEnd : Bytes → ℕ → Except Fault (Option ℕ)
  | [], _ => .error .outOfBounds
  | c :: _, 0 => if c ≠ 0 then .ok none else .ok (some 0)
  | c :: cs, left + 1 =>
    if c = 0 then .ok (some 0) else (Message.findEnd cs left).map (Option.map (· + 1))

/-- `Message_get(buffer)`: the next frame, without its terminator, and the updated
buffer. -/
def Message.get (b : MessageBuffer) : Except Fault (Option CStr × MessageBuffer) :=
  let start := b.start.getD 0
  let size := kMessageBufferSize - start
  match memchr (b.data.drop start) slash with
  | none => .ok (none, .zeroed)
  | some skipped =>
    let start := start + skipped
    (Message.findEnd (b.data.drop start) (size - 1)).map fun
      | none => (none, { b with start := some start })
      | some n =>
        let length := n + 1
        if length ≤ 1 then (none, { b with start := some start })
        else
          let message := CStr.ofBlock ((b.data.drop start).take length)
          if length < size then (some message, { b with start := some (start + length) })
          else if length = size then (some message, .zeroed)
          else (some message, { b with start := some start })

/-- `C2HMessage_get(buffer)`, together with the data the message was read from. -/
def C2HMessage.getFrame (b : MessageBuffer) :
    Except Fault (Option (CStr × C2HMessage) × MessageBuffer) :=
  (Message.get b).bind fun
    | (none, b') => .ok (none, b')
    | (some messageData, b') =>
      (C2HMessage.parse messageData).map fun message => (message.map (messageData, ·), b')

/-- `C2HMessage_get(buffer)`. -/
def C2HMessage.get (b : MessageBuffer) : Except Fault (Option C2HMessage × MessageBuffer) :=
  (C2HMessage.getFrame b).map fun r => (r.1.map Prod.snd, r.2)

/-! ### The scan -/

theorem findEnd_append {s : Bytes} (hs : (0 : UInt8) ∉ s) (t : Bytes) :
    ∀ {left : ℕ}, s.length ≤ left → Message.findEnd (s ++ 0 :: t) left = .ok (some s.length) := by
  induction s with
  | nil =>
    intro left _
    cases left <;> simp [Message.findEnd]
  | cons c s ih =>
    intro left hle
    rw [List.mem_cons, not_or] at hs
    cases left with
    | zero => simp at hle
    | succ left =>
      rw [List.cons_append, Message.findEnd, if_neg (Ne.symm hs.1),
        ih hs.2 (by simpa using hle)]
      rfl

/-- Without a terminator the scan stops at the `end` pointer. -/
theorem findEnd_nulFree {s : Bytes} (hs : (0 : UInt8) ∉ s) :
    ∀ {left : ℕ}, left + 1 = s.length → Message.findEnd s left = .ok none := by
  induction s with
  | nil => intro left h; simp at h
  | cons c s ih =>
    intro left h
    rw [List.mem_cons, not_or] at hs
    cases left with
    | zero => simp [Message.findEnd, Ne.symm hs.1]
    | succ left =>
      rw [Message.findEnd, if_neg (Ne.symm hs.1), ih hs.2 (by simpa using h)]
      rfl

theorem findEnd_eq_some : ∀ {s : Bytes} {left n : ℕ}, Message.findEnd s left = .ok (some n) →
    ∃ u t, s = u ++ 0 :: t ∧ (0 : UInt8) ∉ u ∧ u.length = n
  | [], _, _, h => by simp [Message.findEnd] at h
  | c :: cs, 0, n, h => by
    by_cases hc : c = 0
    · simp only [Message.findEnd, hc] at h
      exact ⟨[], cs, by simp [hc], by simp, by simpa using h⟩
    · simp [Message.findEnd, hc] at h
  | c :: cs, left + 1, n, h => by
    by_cases hc : c = 0
    · simp only [Message.findEnd, hc] at h
      exact ⟨[], cs, by simp [hc], by simp, by simpa using h⟩
    · rw [Message.findEnd, if_neg hc] at h
      obtain ⟨o, ho, hn⟩ := map_eq_ok.mp h
      obtain ⟨m, rfl, rfl⟩ := Option.map_eq_some_iff.mp hn
      obtain ⟨u, t, rfl, hu, rfl⟩ := findEnd_eq_some ho
      exact ⟨c :: u, t, rfl, by simp [hu, Ne.symm hc], rfl⟩

/-! ### The extraction -/

/-- What is left when a frame has been cut out in front of `rest`. -/
def LeftBehind (b : MessageBuffer) (rest : Bytes) : Prop :=
  b.view = rest ∨ (rest = [] ∧ b = .zeroed)

theorem drop_data_eq_view (b : MessageBuffer) (n : ℕ) :
    b.data.drop (b.start.getD 0 + n) = b.view.drop n := by
  rw [MessageBuffer.view, List.drop_drop]

/-- The next frame runs from the first slash to the first NUL behind it. -/
theorem get_frame {b : MessageBuffer} {junk rest : Bytes} {frame : CStr}
    (hview : b.view = junk ++ (frame.bytes ++ 0 :: rest)) (hjunk : slash ∉ junk)
    (hframe : frame.bytes.head? = some slash) :
    ∃ b', Message.get b = .ok (some frame, b') ∧ LeftBehind b' rest := by
  obtain ⟨f, hf⟩ : ∃ f, frame.bytes = slash :: f := List.head?_eq_some_iff.mp hframe
  have hpos : 0 < frame.bytes.length := by rw [hf]; simp
  have hsize : kMessageBufferSize - b.start.getD 0 =
      junk.length + (frame.bytes.length + (rest.length + 1)) := by
    rw [← b.length_view, hview]
    simp only [List.length_append, List.length_cons]
  have hmem : memchr (b.data.drop (b.start.getD 0)) slash = some junk.length := by
    show memchr b.view slash = _
    rw [hview, hf]
    exact memchr_append hjunk
  have hdrop : b.data.drop (b.start.getD 0 + junk.length) = frame.bytes ++ 0 :: rest := by
    rw [drop_data_eq_view, hview, List.drop_left]
  have hend : Message.findEnd (frame.bytes ++ 0 :: rest)
      (kMessageBufferSize - b.start.getD 0 - 1) = .ok (some frame.bytes.length) :=
    findEnd_append frame.nulFree rest (by omega)
  have htake : CStr.ofBlock ((frame.bytes ++ 0 :: rest).take (frame.bytes.length + 1)) = frame := by
    apply CStr.ext
    rw [List.take_append, List.take_of_length_le (Nat.le_succ _), Nat.add_sub_cancel_left]
    exact CStr.bytes_ofBlock_append frame.nulFree []
  simp only [Message.get, hmem, hdrop, hend, Except.map]
  rw [if_neg (by omega), htake]
  by_cases hlt : frame.bytes.length + 1 < kMessageBufferSize - b.start.getD 0
  · rw [if_pos hlt]
    refine ⟨_, rfl, Or.inl ?_⟩
    show b.data.drop (b.start.getD 0 + junk.length + (frame.bytes.length + 1)) = rest
    rw [← List.drop_drop, hdrop, ← List.drop_drop, List.drop_left]
    rfl
  · -- the frame ends with the array, which is cleared
    rw [if_neg hlt, if_pos (by omega)]
    refine ⟨_, rfl, Or.inr ⟨?_, rfl⟩⟩
    exact List.eq_nil_of_length_eq_zero (by omega)

/-- A frame that is cut off by the end of the array stays where it is. -/
theorem get_partial {b : MessageBuffer} (hnul : (0 : UInt8) ∉ b.view)
    (hview : b.view.head? = some slash) :
    Message.get b = .ok (none, { b with start := some (b.start.getD 0) }) := by
  obtain ⟨f, hf⟩ : ∃ f, b.view = slash :: f := List.head?_eq_some_iff.mp hview
  have hmem : memchr (b.data.drop (b.start.getD 0)) slash = some 0 := by
    show memchr b.view slash = _
    rw [hf]
    exact memchr_append (s := []) (by simp)
  have hlen := b.length_view
  rw [hf, List.length_cons] at hlen
  have hend : Message.findEnd (b.data.drop (b.start.getD 0))
      (kMessageBufferSize - b.start.getD 0 - 1) = .ok none :=
    findEnd_nulFree hnul (by rw [b.length_view]; omega)
  simp only [Message.get, hmem, Nat.add_zero, hend, Except.map]

/-- What an extraction returns stood in the view. -/
theorem get_eq_some {b b' : MessageBuffer} {frame : CStr}
    (h : Message.get b = .ok (some frame, b')) :
    ∃ junk rest, b.view = junk ++ (frame.bytes ++ 0 :: rest) ∧ slash ∉ junk ∧
      frame.bytes.head? = some slash ∧ LeftBehind b' rest := by
  cases hmem : memchr (b.data.drop (b.start.getD 0)) slash with
  | none => simp [Message.get, hmem] at h
  | some skipped =>
    obtain ⟨junk, t, hview, hjunk, rfl⟩ := memchr_eq_some hmem
    have hdrop : b.data.drop (b.start.getD 0 + junk.length) = slash :: t := by
      rw [drop_data_eq_view, MessageBuffer.view, hview, List.drop_left]
    simp only [Message.get, hmem, hdrop] at h
    obtain ⟨o, ho, -⟩ := map_eq_ok.mp h
    cases o with
    | none => simp [ho, Except.map] at h
    | some n =>
      obtain ⟨u, rest, hsplit, hu, rfl⟩ := findEnd_eq_some ho
      -- the scan found the frame `u`; `get_frame` says what is returned
      have hhead : u.head? = some slash := by
        cases u with
        | nil => exact absurd (List.cons.inj hsplit).1 (by decide)
        | cons c u => rw [(List.cons.inj hsplit).1]; rfl
      have hb : b.view = junk ++ (u ++ 0 :: rest) := by
        rw [← hsplit]; exact hview
      obtain ⟨b'', hget, hleft⟩ := @get_frame b junk rest ⟨u, hu⟩ hb hjunk hhead
      have heq : Message.get b = .ok (some frame, b') := by
        simp only [Message.get, hmem, hdrop]
        exact h
      rw [hget] at heq
      simp only [Except.ok.injEq, Prod.mk.injEq, Option.some.injEq] at heq
      obtain ⟨rfl, rfl⟩ := heq
      exact ⟨junk, rest, hb, hjunk, hhead, hleft⟩

/-- Without a slash in sight the buffer is cleared. -/
theorem get_none {b : MessageBuffer} (h : slash ∉ b.view) :
    Message.get b = .ok (none, .zeroed) := by
  have h' : memchr (b.data.drop (b.start.getD 0)) slash = none := memchr_eq_none h
  simp only [Message.get, h']

end C2Hat
