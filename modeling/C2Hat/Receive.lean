import Mathlib.Algebra.GroupWithZero.Nat
import C2Hat.MessageBuffer

/-!
# Filling the receive buffer

`Server_receive` and `Client_receive` prepare the buffer, read once from the
connection, and leave it to the caller to take the messages out: the callers repeat
`C2HMessage_get` until it returns `NULL` and then receive again.  The two functions
prepare the buffer in the same way and differ in their return codes and in the
errors they retry on.

## Main definitions

* `receivePrepare` — the buffer management in front of `SSL_read`.
* `Server.receive`, `Client.receive` — the functions.
* `drain`, `session` — the loop of the callers.

## Main results

* `view_receivePrepare_write` — after a read the unread part of the buffer is what
  was read: a leftover is moved, but then skipped.
* `size_session_le` — what is taken out was read.
* `drain_eq_of_le` — the loop of the callers ends.
-/

namespace C2Hat

open Clib

/-- The values of `errno` the receive functions look at. -/
inductive Errno
  | eagain | ewouldblock | eintr | other
  deriving DecidableEq, Repr

/-- What a call of `SSL_read` ends with; receiving no byte means that the connection
was closed. -/
inductive ReadResult
  | received (bytes : Bytes)
  | failed (errno : Errno)
  deriving DecidableEq

/-- Moving the leftover data to the front and padding it keeps the size. -/
theorem MessageBuffer.length_leftover (b : MessageBuffer) (p : ℕ) :
    ((b.data.drop p).take (kMessageBufferSize - p) ++
      List.replicate (kMessageBufferSize - (kMessageBufferSize - p)) 0).length =
        kMessageBufferSize := by
  rw [List.length_append, List.length_take, List.length_drop, b.length_data,
    List.length_replicate]
  omega

/-- The buffer before `SSL_read` is called, and the number of bytes it is asked for.

The first branch is taken when there is leftover data of a previous read.  Its
padding loop starts one byte behind the array, at the low byte of the `start`
pointer; that pointer is assigned next, so nothing is left of the write. -/
def receivePrepare (b : MessageBuffer) : Except Fault (MessageBuffer × ℕ) :=
  let length := kMessageBufferSize
  if b.start ≠ some 0 ∧ b.data.getD (length - 1) 0 ≠ 0 then
    match b.start with
    | none => .error .nullDeref
    | some p =>
      let remainingTextSize := length - p
      .ok ({ data := (b.data.drop p).take remainingTextSize ++
              List.replicate (length - remainingTextSize) 0
             length_data := b.length_leftover p
             start := some (remainingTextSize + 1) }, length - 1 - remainingTextSize)
  else
    .ok ({ MessageBuffer.zeroed with start := some 0 }, length)

/-- The read loop: errors to be retried are skipped, data goes to the start of the
buffer.  `none` is a call that is still waiting. -/
def receiveLoop (onClosed onFailed : ℤ) (retry : Errno → Bool) (b : MessageBuffer) :
    List ReadResult → Option (ℤ × MessageBuffer × List ReadResult)
  | [] => none
  | .failed errno :: reads =>
    if retry errno then receiveLoop onClosed onFailed retry b reads else some (onFailed, b, reads)
  | .received bytes :: reads =>
    if bytes.length = 0 then some (onClosed, b, reads)
    else some (bytes.length, b.write (b.start.getD 0) bytes, reads)

/-- `Server_receive(client)`. -/
def Server.receive (b : MessageBuffer) (reads : List ReadResult) :
    Except Fault (Option (ℤ × MessageBuffer × List ReadResult)) :=
  (receivePrepare b).map fun r =>
    receiveLoop 0 0 (fun e => e == .eagain || e == .ewouldblock) r.1 reads

/-- `Client_receive(this)`. -/
def Client.receive (b : MessageBuffer) (reads : List ReadResult) :
    Except Fault (Option (ℤ × MessageBuffer × List ReadResult)) :=
  (receivePrepare b).map fun r =>
    receiveLoop (-1) (-1) (fun e => e == .eintr || e == .eagain || e == .ewouldblock) r.1 reads

/-! ### The loop of the callers -/

/-- Repeat `C2HMessage_get` until it returns `NULL`.  A frame takes a slash out of
the buffer, so more rounds than there are bytes are never needed. -/
def drain : ℕ → MessageBuffer → Except Fault (List (CStr × C2HMessage) × MessageBuffer)
  | 0, b => .ok ([], b)
  | fuel + 1, b =>
    (C2HMessage.getFrame b).bind fun
      | (none, b') => .ok ([], b')
      | (some frame, b') => (drain fuel b').map fun r => (frame :: r.1, r.2)

/-- Rounds enough for every buffer. -/
def drainFuel : ℕ := kMessageBufferSize + 1

/-- The type of the two receive functions. -/
abbrev ReceiveFunction :=
  MessageBuffer → List ReadResult → Except Fault (Option (ℤ × MessageBuffer × List ReadResult))

/-- Receive once for each chunk that `SSL_read` returns, and drain the buffer each
time.  The result pairs every message with the bytes it was read from. -/
def session (recv : ReceiveFunction) :
    MessageBuffer → List Bytes → Except Fault (List (CStr × C2HMessage))
  | _, [] => .ok []
  | b, c :: cs =>
    (recv b [.received c]).bind fun
      | none => .ok []
      | some (_, b', _) =>
        (drain drainFuel b').bind fun r => (session recv r.2 cs).map (r.1 ++ ·)

/-- `SSL_read` returns between one byte and as many as it was asked for. -/
def Readable : MessageBuffer → List Bytes → Prop
  | _, [] => True
  | b, c :: cs =>
    ∃ b' n, receivePrepare b = .ok (b', n) ∧ 1 ≤ c.length ∧ c.length ≤ n ∧
      ∀ out b'', drain drainFuel (b'.write (b'.start.getD 0) c) = .ok (out, b'') → Readable b'' cs

theorem Readable.cons {b b' : MessageBuffer} {n : ℕ} {c : Bytes} {cs : List Bytes}
    (out : List (CStr × C2HMessage)) (b'' : MessageBuffer) (hprep : receivePrepare b = .ok (b', n))
    (hpos : 1 ≤ c.length) (hle : c.length ≤ n)
    (hdrain : drain drainFuel (b'.write (b'.start.getD 0) c) = .ok (out, b''))
    (hcs : Readable b'' cs) : Readable b (c :: cs) := by
  refine ⟨b', n, hprep, hpos, hle, fun out' b₁ h => ?_⟩
  rw [hdrain] at h
  cases h
  exact hcs

/-! ### One round -/

/-- Both functions put a chunk behind the start of the prepared buffer. -/
theorem receive_received {recv : ReceiveFunction}
    (hrecv : recv = Server.receive ∨ recv = Client.receive) {b b' : MessageBuffer} {n : ℕ}
    (hprep : receivePrepare b = .ok (b', n)) {c : Bytes} (hc : 1 ≤ c.length) :
    recv b [.received c] = .ok (some (c.length, b'.write (b'.start.getD 0) c, [])) := by
  have hne : ¬ c.length = 0 := by omega
  rcases hrecv with rfl | rfl
  · simp only [Server.receive, hprep, Except.map, receiveLoop, if_neg hne]
  · simp only [Client.receive, hprep, Except.map, receiveLoop, if_neg hne]

theorem session_cons {recv : ReceiveFunction}
    (hrecv : recv = Server.receive ∨ recv = Client.receive) {b b' : MessageBuffer} {n : ℕ}
    (hprep : receivePrepare b = .ok (b', n)) {c : Bytes} (hc : 1 ≤ c.length) (cs : List Bytes) :
    session recv b (c :: cs) =
      (drain drainFuel (b'.write (b'.start.getD 0) c)).bind fun r =>
        (session recv r.2 cs).map (r.1 ++ ·) := by
  rw [session, receive_received hrecv hprep hc]
  rfl

/-- Reading into a prepared buffer: nothing but zero bytes follows the start. -/
theorem receivePrepare_zero {b b' : MessageBuffer} {n : ℕ}
    (hprep : receivePrepare b = .ok (b', n)) :
    b'.data.drop (b'.start.getD 0) = List.replicate (kMessageBufferSize - b'.start.getD 0) 0 ∧
      (1 ≤ n → b'.start.getD 0 + n ≤ kMessageBufferSize) := by
  unfold receivePrepare at hprep
  dsimp only at hprep
  split at hprep
  · cases hstart : b.start with
    | none => rw [hstart] at hprep; cases hprep
    | some p =>
      rw [hstart] at hprep
      simp only [Except.ok.injEq, Prod.mk.injEq] at hprep
      obtain ⟨rfl, rfl⟩ := hprep
      simp only [Option.getD_some]
      constructor
      · have hlen : ((b.data.drop p).take (kMessageBufferSize - p)).length =
            kMessageBufferSize - p := by
          rw [List.length_take, List.length_drop, b.length_data, Nat.min_self]
        rw [← List.drop_drop, List.drop_left' hlen, List.drop_replicate]
        congr 1
      · omega
  · cases hprep
    exact ⟨rfl, fun _ => by simp⟩

/-- **After a read the unread part of the buffer is the chunk**, followed by zero
bytes.  A leftover has been moved to the front of the array, but the extraction
starts behind it. -/
theorem view_receivePrepare_write {b b' : MessageBuffer} {n : ℕ}
    (hprep : receivePrepare b = .ok (b', n)) {c : Bytes} (hc : 1 ≤ c.length)
    (hn : c.length ≤ n) :
    (b'.write (b'.start.getD 0) c).view =
      c ++ List.replicate (kMessageBufferSize - b'.start.getD 0 - c.length) 0 := by
  obtain ⟨hzero, hfit⟩ := receivePrepare_zero hprep
  have hle := hfit (le_trans hc hn)
  show (b'.write (b'.start.getD 0) c).data.drop (b'.start.getD 0) = _
  exact MessageBuffer.drop_data_write hzero (by omega)

/-- A cleared buffer is read into from its front. -/
theorem receivePrepare_zeroed :
    receivePrepare .zeroed = .ok ({ MessageBuffer.zeroed with start := some 0 },
      kMessageBufferSize) := by
  have hlast : MessageBuffer.zeroed.data.getD (kMessageBufferSize - 1) 0 = 0 := by
    show (List.replicate kMessageBufferSize (0 : UInt8)).getD (kMessageBufferSize - 1) 0 = 0
    rw [List.getD_eq_getElem?_getD, List.getElem?_replicate_of_lt (by decide), Option.getD_some]
  simp only [receivePrepare, hlast]
  simp

/-! ### What a round takes out -/

/-- The number of bytes that are not NUL. -/
def weight (s : Bytes) : ℕ := s.countP (· != 0)

theorem weight_append (s t : Bytes) : weight (s ++ t) = weight s + weight t :=
  List.countP_append

theorem weight_zeros (n : ℕ) : weight (List.replicate n 0) = 0 := by
  simp [weight]

theorem weight_cstr (s : CStr) : weight s.bytes = s.bytes.length := by
  rw [weight, List.countP_eq_length]
  intro c hc
  have : c ≠ 0 := fun h => s.nulFree (h ▸ hc)
  simpa using this

theorem eq_zero_of_weight_eq_zero {s : Bytes} (h : weight s = 0) {c : UInt8} (hc : c ∈ s) :
    c = 0 := by
  rw [weight, List.countP_eq_zero] at h
  simpa using h c hc

/-- The bytes of the frames that were taken out. -/
def size (out : List (CStr × C2HMessage)) : ℕ := (out.map fun r => r.1.bytes.length).sum

theorem size_append (out out' : List (CStr × C2HMessage)) :
    size (out ++ out') = size out + size out' := by
  simp [size]

theorem weight_leftBehind {b : MessageBuffer} {rest : Bytes} (h : LeftBehind b rest) :
    weight b.view = weight rest := by
  rcases h with h | ⟨rfl, rfl⟩
  · rw [h]
  · rw [MessageBuffer.view_zeroed, weight_zeros]
    rfl

/-- A message that is taken out was decoded from a frame in the view. -/
theorem getFrame_eq_some {b b' : MessageBuffer} {r : CStr × C2HMessage}
    (h : C2HMessage.getFrame b = .ok (some r, b')) :
    ∃ junk rest, b.view = junk ++ (r.1.bytes ++ 0 :: rest) ∧ r.1.bytes.head? = some slash ∧
      LeftBehind b' rest ∧ C2HMessage.parse r.1 = .ok (some r.2) := by
  unfold C2HMessage.getFrame at h
  cases hget : Message.get b with
  | error e => rw [hget] at h; cases h
  | ok o =>
    obtain ⟨frame, b''⟩ := o
    rw [hget] at h
    cases frame with
    | none => cases h
    | some frame =>
      obtain ⟨m, hm, heq⟩ := map_eq_ok.mp h
      rw [Prod.mk.injEq] at heq
      obtain ⟨heq, rfl⟩ := heq
      obtain ⟨m, rfl, rfl⟩ := Option.map_eq_some_iff.mp heq
      obtain ⟨junk, rest, hview, -, hhead, hleft⟩ := get_eq_some hget
      exact ⟨junk, rest, hview, hhead, hleft, hm⟩

/-- The two ways a round of the loop ends. -/
theorem drain_succ_cases {fuel : ℕ} {b b' : MessageBuffer} {out : List (CStr × C2HMessage)}
    (h : drain (fuel + 1) b = .ok (out, b')) :
    (C2HMessage.getFrame b = .ok (none, b') ∧ out = []) ∨
      ∃ r b'' out', C2HMessage.getFrame b = .ok (some r, b'') ∧ drain fuel b'' = .ok (out', b') ∧
        out = r :: out' := by
  unfold drain at h
  cases hget : C2HMessage.getFrame b with
  | error e => rw [hget] at h; cases h
  | ok o =>
    obtain ⟨r, b''⟩ := o
    rw [hget] at h
    cases r with
    | none => cases h; exact Or.inl ⟨rfl, rfl⟩
    | some r =>
      obtain ⟨⟨out', b₁⟩, hd, heq⟩ := map_eq_ok.mp h
      cases heq
      exact Or.inr ⟨r, b'', out', rfl, hd, rfl⟩

/-- A buffer holds everything that is taken out of it, and when nothing else was in
it, it ends with a NUL. -/
theorem size_drain_le {fuel : ℕ} {b b' : MessageBuffer} {out : List (CStr × C2HMessage)}
    (h : drain fuel b = .ok (out, b')) :
    size out ≤ weight b.view ∧
      (size out = weight b.view → ∀ s c, b.view = s ++ [c] → c = 0) := by
  have hbase : ∀ b : MessageBuffer, size [] ≤ weight b.view ∧
      (size [] = weight b.view → ∀ s c, b.view = s ++ [c] → c = 0) := fun b =>
    ⟨Nat.zero_le _, fun heq s c hview => eq_zero_of_weight_eq_zero heq.symm (by simp [hview])⟩
  induction fuel generalizing b out with
  | zero => cases h; exact hbase _
  | succ fuel ih =>
    rcases drain_succ_cases h with ⟨-, rfl⟩ | ⟨r, b'', out', hget, hd, rfl⟩
    · exact hbase b
    · obtain ⟨junk, rest, hview, -, hleft, -⟩ := getFrame_eq_some hget
      have hweight : weight b.view = weight junk + (r.1.bytes.length + weight rest) := by
        rw [hview, weight_append, weight_append, weight_cstr]
        simp [weight]
      have hsize : size (r :: out') = r.1.bytes.length + size out' := by simp [size]
      obtain ⟨hle, hlast⟩ := ih hd
      rw [weight_leftBehind hleft] at hle hlast
      refine ⟨by omega, fun heq s c hs => ?_⟩
      -- the last byte is that of the rest, or the NUL in front of it
      rw [hview] at hs
      rcases List.eq_nil_or_concat rest with rfl | ⟨t, d, rfl⟩
      · rw [← List.append_assoc] at hs
        exact (by simpa using (List.append_inj' hs rfl).2 : (0 : UInt8) = c).symm
      · have hrest : b''.view = t ++ [d] := by
          rcases hleft with h | ⟨h, -⟩
          · simpa using h
          · simp at h
        have hs' : (junk ++ (r.1.bytes ++ 0 :: t)) ++ [d] = s ++ [c] := by simpa using hs
        have hdc : d = c := by simpa using (List.append_inj' hs' rfl).2
        rw [← hdc]
        exact hlast (by omega) t d hrest

/-- **What a session takes out was read**, in this order and from these chunks. -/
theorem size_session_le {recv : ReceiveFunction}
    (hrecv : recv = Server.receive ∨ recv = Client.receive) :
    ∀ {b : MessageBuffer} {chunks : List Bytes} {out : List (CStr × C2HMessage)},
      Readable b chunks → session recv b chunks = .ok out → size out ≤ weight chunks.flatten
  | _, [], out, _, h => by cases h; exact Nat.zero_le _
  | b, c :: cs, out, ⟨b', n, hprep, hpos, hle, hnext⟩, h => by
    rw [session_cons hrecv hprep hpos] at h
    cases hd : drain drainFuel (b'.write (b'.start.getD 0) c) with
    | error e => rw [hd] at h; cases h
    | ok r =>
      rw [hd] at h
      obtain ⟨out', hout', rfl⟩ := map_eq_ok.mp h
      have hhead := (size_drain_le hd).1
      have htail := size_session_le hrecv (hnext _ _ hd) hout'
      rw [view_receivePrepare_write hprep hpos hle, weight_append, weight_zeros] at hhead
      rw [size_append, List.flatten_cons, weight_append]
      omega

/-! ### The number of rounds -/

theorem count_slash_leftBehind {b : MessageBuffer} {rest : Bytes} (h : LeftBehind b rest) :
    b.view.count slash = rest.count slash := by
  rcases h with h | ⟨rfl, rfl⟩
  · rw [h]
  · rw [MessageBuffer.view_zeroed, List.count_replicate]
    rfl

/-- **The loop ends**: with a round for every slash in the buffer and one more, it
has reached the `NULL`. -/
theorem drain_succ_eq {fuel : ℕ} {b : MessageBuffer} (h : b.view.count slash < fuel) :
    drain (fuel + 1) b = drain fuel b := by
  induction fuel generalizing b with
  | zero => omega
  | succ fuel ih =>
    rw [drain, drain]
    cases hget : C2HMessage.getFrame b with
    | error e => rfl
    | ok o =>
      obtain ⟨r, b'⟩ := o
      cases r with
      | none => rfl
      | some r =>
        obtain ⟨junk, rest, hview, hhead, hleft, -⟩ := getFrame_eq_some hget
        obtain ⟨f, hf⟩ := List.head?_eq_some_iff.mp hhead
        have hcount : b'.view.count slash < fuel := by
          rw [hview, List.count_append, List.count_append, hf, List.count_cons_self,
            List.count_cons_of_ne (by decide)] at h
          rw [count_slash_leftBehind hleft]
          omega
        show (drain (fuel + 1) b').map _ = (drain fuel b').map _
        rw [ih hcount]

theorem drain_eq_of_le {fuel : ℕ} (h : drainFuel ≤ fuel) (b : MessageBuffer) :
    drain fuel b = drain drainFuel b := by
  induction fuel, h using Nat.le_induction with
  | base => rfl
  | succ fuel hle ih =>
    rw [← ih]
    apply drain_succ_eq
    have hcount := b.view.count_le_length (a := slash)
    rw [b.length_view] at hcount
    have : kMessageBufferSize < drainFuel := by decide
    omega

end C2Hat
