import C2Hat.Lib.WriteLoop
import C2Hat.Server.Threads

/-!
# Sending a frame

`Server_send` and `Client_send` format a message into a zeroed buffer and call
`SSL_write` in a loop until all of it has been accepted.  They differ in the test of the
socket, which only the server makes.  A negative result ends the loop; a result of 0 does
not, so that the loop goes round for as long as nothing is accepted.

## Main definitions

* `sendBuffer` — the buffer of the functions.
* `Server.send`, `Client.send` — the functions.
* `DeliversFrame` — the frame has been delivered, or a first part of it and the failure
  is reported.

## Main results

* `clientThread_send_eq`, `broadcast_send_eq` — the threads of the server take the rounds
  of the loop one by one.
* `send_delivers` — **partial writes deliver the frame.**
* `send_returns_iff` — **the functions return unless `SSL_write` stalls.**
-/

namespace C2Hat

open Clib WriteLoop

/-! ### The functions -/

/-- The array `buffer` behind `C2HMessage_format`, given the string that was written. -/
def sendBuffer (out : CStr) : Bytes :=
  out.bytes ++ List.replicate (kBufferSize - out.bytes.length) 0

/-- `Server_send(client, message)`, given the results of `SSL_write`; `none` when the
rounds were not enough. -/
def Server.send (socket : ℤ) (message : C2HMessage) (results : ℕ → ℤ) (rounds : ℕ) :
    Except Fault (Option (Written UInt8)) :=
  (C2HMessage.format message CStr.empty kBufferSize).map fun out =>
    writeLoop (socketIsValid socket) (sendBuffer out) (out.bytes.length + 1) results rounds 0 0 0 []

/-- `Client_send(this, message)`. -/
def Client.send (message : C2HMessage) (results : ℕ → ℤ) (rounds : ℕ) :
    Except Fault (Option (Written UInt8)) :=
  (C2HMessage.format message CStr.empty kBufferSize).map fun out =>
    writeLoop true (sendBuffer out) (out.bytes.length + 1) results rounds 0 0 0 []

/-! ### The buffer -/

/-- Formatting has no fault and leaves room for the terminator, whatever the message. -/
theorem exists_format (message : C2HMessage) :
    ∃ out, C2HMessage.format message CStr.empty kBufferSize = .ok out ∧
      out.bytes.length + 1 ≤ kBufferSize := by
  cases hcommand : message.type.commandPrefix with
  | none =>
    -- nothing is written for a type that is never sent
    refine ⟨CStr.empty, ?_, by decide⟩
    unfold C2HMessage.format
    split <;> simp only [Message.format, hcommand]
  | some command =>
    obtain ⟨out, hout, hbytes⟩ := format_eq_take hcommand CStr.empty kBufferSize
    refine ⟨out, hout, ?_⟩
    rw [hbytes, List.length_take]
    have hpos : 0 < kBufferSize := by decide
    omega

/-- The part of the buffer that is sent is the frame. -/
theorem exists_sendBuffer (message : C2HMessage) :
    ∃ out, C2HMessage.format message CStr.empty kBufferSize = .ok out ∧
      (Server.frame message).length = out.bytes.length + 1 ∧
      (sendBuffer out).take (out.bytes.length + 1) = Server.frame message := by
  obtain ⟨out, hout, hfit⟩ := exists_format message
  have hframe : Server.frame message = out.bytes ++ [0] := by
    rw [Server.frame, hout]
    rfl
  refine ⟨out, hout, by rw [hframe, List.length_append, List.length_singleton], ?_⟩
  obtain ⟨k, hk⟩ : ∃ k, kBufferSize - out.bytes.length = k + 1 :=
    ⟨kBufferSize - out.bytes.length - 1, by omega⟩
  rw [sendBuffer, hk, List.take_length_add_append, List.replicate_succ, List.take_succ_cons,
    List.take_zero, hframe]

theorem length_frame_pos (message : C2HMessage) : 0 < (Server.frame message).length := by
  obtain ⟨out, -, hlen, -⟩ := exists_sendBuffer message
  omega

/-! ### The rounds on the server -/

section Rounds

variable {c : Client} {message : C2HMessage} {total sent : ℕ}

/-- A call of `SSL_write` in a client's thread is a round of the loop. -/
theorem clientThread_send_eq (h : Addr) (purpose : Purpose)
    (hsocket : socketIsValid c.socket = true) (hssl : c.ssl = .open)
    (hsent : total + sent ≤ (Server.frame message).length) :
    ClientThread.send c h purpose message ((Server.frame message).drop total) (.wrote sent) =
      some (.wrote h .client message (((Server.frame message).drop total).take sent)
          (decide (¬ total + sent < (Server.frame message).length)),
        if total + sent < (Server.frame message).length then
          .write purpose message ((Server.frame message).drop (total + sent))
        else ClientThread.afterSend true purpose) := by
  have hlen : ((Server.frame message).drop total).length =
      (Server.frame message).length - total := List.length_drop
  simp only [ClientThread.send, hsocket, hssl, hlen, List.drop_drop]
  by_cases hmore : total + sent < (Server.frame message).length
  · have hlt : sent < (Server.frame message).length - total := by omega
    simp [hmore, hlt]
  · have hrest : sent = (Server.frame message).length - total := by omega
    have hall : ((Server.frame message).drop total).take sent =
        (Server.frame message).drop total := List.take_of_length_le (by omega)
    simp [hmore, hall, ← hrest]

/-- So is one in the broadcast thread. -/
theorem broadcast_send_eq (h : Addr) (seq : ℕ) (hsocket : socketIsValid c.socket = true)
    (hssl : c.ssl = .open) (hsent : total + sent ≤ (Server.frame message).length) :
    Broadcast.send c h ⟨seq, message⟩ ((Server.frame message).drop total) (.wrote sent) =
      some (.wrote h (.broadcast seq) message (((Server.frame message).drop total).take sent)
          (decide (¬ total + sent < (Server.frame message).length)),
        if total + sent < (Server.frame message).length then
          .write ⟨seq, message⟩ h ((Server.frame message).drop (total + sent))
        else .check ⟨seq, message⟩) := by
  have hlen : ((Server.frame message).drop total).length =
      (Server.frame message).length - total := List.length_drop
  simp only [Broadcast.send, hsocket, hssl, hlen, List.drop_drop]
  by_cases hmore : total + sent < (Server.frame message).length
  · have hlt : sent < (Server.frame message).length - total := by omega
    simp [hmore, hlt]
  · have hrest : sent = (Server.frame message).length - total := by omega
    have hall : ((Server.frame message).drop total).take sent =
        (Server.frame message).drop total := List.take_of_length_le (by omega)
    simp [hmore, hall, ← hrest]

end Rounds

/-! ### Delivery -/

/-- Without a failed write the whole frame is accepted and its length is returned; with
one, a first part of it is accepted and -1 is returned. -/
structure DeliversFrame (message : C2HMessage) (results : ℕ → ℤ) (out : Written UInt8) : Prop where
  complete : (∀ i < out.calls, 0 ≤ results i) →
    out.result = (Server.frame message).length ∧ out.accepted = Server.frame message
  failed : (∃ i < out.calls, results i < 0) →
    out.result = -1 ∧ out.accepted <+: Server.frame message

/-- **Partial writes deliver the exact frame**, in no more rounds than it has bytes. -/
theorem send_delivers (message : C2HMessage) {socket : ℤ} (hsocket : socketIsValid socket = true)
    {results : ℕ → ℤ} (hresults : PartialWrites (Server.frame message).length results)
    {rounds : ℕ} (hrounds : (Server.frame message).length ≤ rounds) :
    (∃ out, Server.send socket message results rounds = .ok (some out) ∧
      DeliversFrame message results out) ∧
    ∃ out, Client.send message results rounds = .ok (some out) ∧
      DeliversFrame message results out := by
  obtain ⟨out, hformat, hlen, hframe⟩ := exists_sendBuffer message
  obtain ⟨written, hloop, hcomplete, hfailed⟩ := writeLoop_partial (sendBuffer out)
    (length_frame_pos message) hresults hrounds
  rw [hlen] at hloop hcomplete hfailed
  rw [hframe] at hcomplete hfailed
  have hdelivers : DeliversFrame message results written := by
    refine ⟨?_, hfailed⟩
    rw [hlen]
    exact hcomplete
  refine ⟨⟨written, ?_, hdelivers⟩, written, ?_, hdelivers⟩
  · rw [Server.send, hformat, hsocket, ← hloop]
    rfl
  · rw [Client.send, hformat, ← hloop]
    rfl

/-- One byte after the other, until the frame of an acknowledgement is complete. -/
theorem send_delivers_ack :
    (∃ out, Server.send 7 ⟨.ok, CStr.empty, CStr.empty⟩ (fun _ => 1) 4 = .ok (some out) ∧
      DeliversFrame ⟨.ok, CStr.empty, CStr.empty⟩ (fun _ => 1) out) ∧
    ∃ out, Client.send ⟨.ok, CStr.empty, CStr.empty⟩ (fun _ => 1) 4 = .ok (some out) ∧
      DeliversFrame ⟨.ok, CStr.empty, CStr.empty⟩ (fun _ => 1) out := by
  refine send_delivers ⟨.ok, CStr.empty, CStr.empty⟩ (by decide) (fun n hn => Or.inr ⟨le_rfl, ?_⟩)
    (by decide)
  have hlt := hn.taken_lt (length_frame_pos _)
  omega

/-! ### Returning -/

/-- **The functions return unless `SSL_write` stalls**: from some call on, with a part of
the frame left, it returns 0 for ever. -/
theorem send_returns_iff (message : C2HMessage) (socket : ℤ) (results : ℕ → ℤ) :
    ((∃ rounds out, Server.send socket message results rounds = .ok (some out)) ↔
      socketIsValid socket = false ∨ ¬ Stalls (Server.frame message).length results) ∧
    ((∃ rounds out, Client.send message results rounds = .ok (some out)) ↔
      ¬ Stalls (Server.frame message).length results) := by
  obtain ⟨out, hformat, hlen, -⟩ := exists_sendBuffer message
  have hloop : (∃ rounds w, writeLoop true (sendBuffer out) (Server.frame message).length results
      rounds 0 0 0 [] = some w) ↔ _ := exists_writeLoop_iff
  rw [finishes_or_stalls (length_frame_pos message), hlen] at hloop
  rw [hlen]
  constructor
  · simp only [Server.send, hformat, Except.map, Except.ok.injEq]
    cases hsocket : socketIsValid socket with
    | false =>
      refine ⟨fun _ => Or.inl rfl, fun _ => ⟨1, ⟨-1, [], 0⟩, ?_⟩⟩
      rw [writeLoop, if_pos rfl]
    | true =>
      rw [hloop]
      simp
  · simp only [Client.send, hformat, Except.map, Except.ok.injEq]
    exact hloop

/-- When nothing is ever accepted the loops go round for ever. -/
theorem not_send_returns_zero :
    (∀ rounds out, Server.send 7 ⟨.ok, CStr.empty, CStr.empty⟩ (fun _ => 0) rounds ≠
      .ok (some out)) ∧
    ∀ rounds out, Client.send ⟨.ok, CStr.empty, CStr.empty⟩ (fun _ => 0) rounds ≠
      .ok (some out) := by
  have hnever : ∀ n, Unfinished 4 (fun _ => 0) n := by
    intro n i _
    refine ⟨le_rfl, ?_⟩
    have hzero : ∀ k, taken (fun _ => 0) k = 0 := by
      intro k
      induction k with
      | zero => rfl
      | succ k ih => rw [taken, ih]; rfl
    rw [hzero]
    decide
  have hloop : ∀ rounds, writeLoop true (sendBuffer (str "/ok")) 4 (fun _ => 0) rounds 0 0 0 [] =
      none := fun rounds => writeLoop_unfinished (hnever rounds)
  have hformat : C2HMessage.format ⟨.ok, CStr.empty, CStr.empty⟩ CStr.empty kBufferSize =
      .ok (str "/ok") := rfl
  constructor
  · intro rounds out h
    rw [Server.send, hformat] at h
    have hsome := (hloop rounds).symm.trans (Except.ok.inj h)
    cases hsome
  · intro rounds out h
    rw [Client.send, hformat] at h
    have hsome := (hloop rounds).symm.trans (Except.ok.inj h)
    cases hsome

end C2Hat
