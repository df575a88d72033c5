import C2Hat.Server.Invariants

/-!
# Frames on one connection

A client's own thread and the broadcast thread both send to the client with the loop
of `Server_send`, and nothing keeps one of them from writing while the other has
written only a part of its frame.

The library part of this module is about a stream of bytes: it is *closed* when it is
a concatenation of frames, and *open* when the rest of a frame is missing.

## Main definitions

* `Closed`, `Open` — streams of whole frames, and with a frame that was begun.
* `Accepts`, `WritesAlone` — `SSL_write` makes progress, and a thread writes to a
  client only while the other is not in the middle of a frame.
* `Framed` — the invariant.

## Main results

* `frames_not_mixed` — **what a client was sent are whole frames**, but for the frame
  that is being sent, in the runs where threads write alone.
-/

namespace C2Hat

open Clib Runs

variable {s s' : State} {n : ℕ}

/-! ### Streams of frames -/

/-- The stream is a concatenation of frames. -/
def Closed (out : Bytes) : Prop := ∃ ms : List C2HMessage, out = (ms.map Server.frame).flatten

/-- The stream lacks the rest of a frame. -/
def Open (out : Bytes) (m : C2HMessage) (rest : Bytes) : Prop :=
  ∃ ms : List C2HMessage, out ++ rest = (ms.map Server.frame).flatten ++ Server.frame m

variable {out rest : Bytes} {m : C2HMessage}

theorem Closed.begin (hout : Closed out) (m : C2HMessage) : Open out m (Server.frame m) := by
  obtain ⟨ms, rfl⟩ := hout
  exact ⟨ms, rfl⟩

theorem Open.write (hout : Open out m rest) (k : ℕ) :
    Open (out ++ rest.take k) m (rest.drop k) := by
  obtain ⟨ms, heq⟩ := hout
  exact ⟨ms, by rw [List.append_assoc, List.take_append_drop, heq]⟩

theorem Open.close (hout : Open out m rest) : Closed (out ++ rest) := by
  obtain ⟨ms, heq⟩ := hout
  exact ⟨ms ++ [m], by rw [heq]; simp⟩

/-- An open stream ends in the first part of its last frame. -/
theorem Open.split (hout : Open out m rest) (hrest : rest <:+ Server.frame m) :
    ∃ (ms : List C2HMessage) (pre : Bytes),
      out = (ms.map Server.frame).flatten ++ pre ∧ Server.frame m = pre ++ rest := by
  obtain ⟨ms, heq⟩ := hout
  obtain ⟨pre, hpre⟩ := hrest
  refine ⟨ms, pre, ?_, hpre.symm⟩
  rw [← hpre, ← List.append_assoc] at heq
  exact List.append_cancel_right heq

/-- The frame that a writer is in the middle of, with what is missing of it. -/
def begun (m : C2HMessage) (rest : Bytes) : Option (C2HMessage × Bytes) :=
  if rest.length < (Server.frame m).length then some (m, rest) else none

theorem sending_of_begun {sending : Option (C2HMessage × Bytes)}
    (h : (sending.bind fun p => begun p.1 p.2) = some (m, rest)) : sending = some (m, rest) := by
  obtain ⟨p, rfl, hp⟩ := Option.bind_eq_some_iff.mp h
  unfold begun at hp
  split at hp
  · rw [← hp]
  · cases hp

theorem begun_frame (m : C2HMessage) : begun m (Server.frame m) = none := by
  simp [begun]

/-- The stream, for two writers that are in the middle of a frame or not. -/
def Framed (out : Bytes) : Option (C2HMessage × Bytes) → Option (C2HMessage × Bytes) → Prop
  | none, none => Closed out
  | some (m, rest), none | none, some (m, rest) => Open out m rest
  | some _, some _ => False

theorem Framed.symm {a b : Option (C2HMessage × Bytes)} (hout : Framed out a b) :
    Framed out b a := by
  cases a <;> cases b <;> exact hout

/-- A writer about to write, alone, has the rest of the last frame. -/
theorem Framed.of_begun (hout : Framed out (begun m rest) none) (hrest : rest <:+ Server.frame m) :
    Open out m rest := by
  unfold begun at hout
  split at hout
  · exact hout
  · next hlen =>
    rw [hrest.eq_of_length_le (Nat.le_of_not_lt hlen)]
    exact Closed.begin hout m

theorem Framed.write (hout : Framed out (begun m rest) none) (hrest : rest <:+ Server.frame m)
    {k : ℕ} (hk : 0 < k) (hlt : k < rest.length) :
    Framed (out ++ rest.take k) (begun m (rest.drop k)) none := by
  have hlen : (rest.drop k).length < (Server.frame m).length := by
    have hle := hrest.length_le
    rw [List.length_drop]
    omega
  rw [begun, if_pos hlen]
  exact (hout.of_begun hrest).write k

theorem Framed.close (hout : Framed out (begun m rest) none) (hrest : rest <:+ Server.frame m) :
    Framed (out ++ rest) none none := (hout.of_begun hrest).close

/-! ### The writers -/

/-- The bytes that were sent to a client. -/
def sentTo (h : Addr) (trace : List Event) : Bytes :=
  trace.flatMap fun
    | .wrote h' _ _ bytes _ => if h' = h then bytes else []
    | _ => []

theorem sentTo_append (h : Addr) (t t' : List Event) :
    sentTo h (t ++ t') = sentTo h t ++ sentTo h t' := List.flatMap_append

theorem sentTo_wrote (h : Addr) (who : Writer) (m : C2HMessage) (bytes : Bytes) (last : Bool) :
    sentTo h (s.apply (.wrote h who m bytes last)).trace = sentTo h s.trace ++ bytes := by
  rw [s.trace_apply, sentTo_append]
  simp [sentTo, Effect.events]

theorem sentTo_apply {h : Addr} {e : Effect} (he : ∀ who m bytes last, e ≠ .wrote h who m bytes last) :
    sentTo h (s.apply e).trace = sentTo h s.trace := by
  rw [s.trace_apply, sentTo_append, List.append_right_eq_self]
  cases e with
  | push m =>
    simp only [Effect.events]
    split <;> rfl
  | wrote h' who m bytes last =>
    have hne : h' ≠ h := fun hh => he who m bytes last (by rw [hh])
    simp [sentTo, Effect.events, hne]
  | _ => rfl

/-- The message a client's thread is sending, with the rest. -/
def Pc.sending : Pc → Option (C2HMessage × Bytes)
  | .write _ m rest => some (m, rest)
  | _ => none

/-- The message the broadcast thread is sending to a client. -/
def BroadcastPc.sending (h : Addr) : BroadcastPc → Option (C2HMessage × Bytes)
  | .write item h' rest => if h' = h then some (item.message, rest) else none
  | _ => none

namespace State

/-- The message that the thread of a client is sending. -/
def clientSending (s : State) (h : Addr) : Option (C2HMessage × Bytes) :=
  (s.threads h).bind fun t => t.pc.sending

/-- The frame that the thread of a client is in the middle of. -/
def clientBegun (s : State) (h : Addr) : Option (C2HMessage × Bytes) :=
  (s.clientSending h).bind fun p => begun p.1 p.2

/-- The frame to a client that the broadcast thread is in the middle of. -/
def broadcastBegun (s : State) (h : Addr) : Option (C2HMessage × Bytes) :=
  (s.broadcast.sending h).bind fun p => begun p.1 p.2

end State

/-- The step is one in the loop of `Server_send` for the client. -/
def sendsTo (h : Addr) (s : State) : Action → Bool
  | .client h' _ => h' == h && (s.clientSending h).isSome
  | .broadcast _ => (s.broadcast.sending h).isSome
  | _ => false

/-- `SSL_write` accepts a non-empty part of what it is given. -/
def Accepts (h : Addr) (s : State) (a : Action) : Bool :=
  !sendsTo h s a ||
    match a with
    | .client _ (.wrote k) | .broadcast (.wrote k) => decide (0 < k)
    | _ => false

/-- A thread sends to the client only while the other is not in the middle of a frame
to the same client. -/
def WritesAlone (h : Addr) (s : State) (a : Action) : Bool :=
  !sendsTo h s a ||
    match a with
    | .client _ _ => (s.broadcastBegun h).isNone
    | _ => (s.clientBegun h).isNone

/-- The invariant of a connection. -/
structure Connection (h : Addr) (s : State) : Prop where
  client : ∀ m rest, s.clientSending h = some (m, rest) → rest <:+ Server.frame m
  broadcast : ∀ m rest, s.broadcast.sending h = some (m, rest) → rest <:+ Server.frame m
  framed : Framed (sentTo h s.trace) (s.clientBegun h) (s.broadcastBegun h)

variable {h : Addr}

theorem connection_init : Connection h (.init n) where
  client m rest hm := by cases hm
  broadcast m rest hm := by cases hm
  framed := ⟨[], rfl⟩

theorem clientSending_update {e : Effect} {h₀ : Addr} {me : BitVec 64} {pc : Pc} :
    ({ s.apply e with threads := Function.update s.threads h₀ (some ⟨me, pc⟩) } :
      State).clientSending h = if h = h₀ then pc.sending else s.clientSending h := by
  unfold State.clientSending
  by_cases hh : h = h₀
  · subst hh
    simp
  · simp [hh]

/-- Steps of which the client sees nothing. -/
theorem Connection.of_same (hs : Connection h s)
    (hclient : s'.clientSending h = s.clientSending h)
    (hbroadcast : s'.broadcast.sending h = s.broadcast.sending h)
    (hsent : sentTo h s'.trace = sentTo h s.trace) : Connection h s' where
  client m rest hm := hs.client m rest (hclient ▸ hm)
  broadcast m rest hm := hs.broadcast m rest (hbroadcast ▸ hm)
  framed := by
    rw [hsent, State.clientBegun, hclient, State.broadcastBegun, hbroadcast]
    exact hs.framed

/-- The thread of the client gets ready to send, or has nothing to send. -/
theorem Connection.clientIdle (hs : Connection h s) (hbefore : s.clientSending h = none)
    (hafter : ∀ m rest, s'.clientSending h = some (m, rest) → rest = Server.frame m)
    (hbroadcast : s'.broadcast = s.broadcast)
    (hsent : sentTo h s'.trace = sentTo h s.trace) : Connection h s' := by
  have hnone : s.clientBegun h = none := by simp [State.clientBegun, hbefore]
  have hnone' : s'.clientBegun h = none := by
    unfold State.clientBegun
    cases hsending : s'.clientSending h with
    | none => rfl
    | some p =>
      obtain ⟨m, rest⟩ := p
      rw [hafter m rest hsending]
      exact begun_frame m
  refine ⟨fun m rest hm => ?_, fun m rest hm => hs.broadcast m rest (hbroadcast ▸ hm), ?_⟩
  · obtain rfl := hafter m rest hm
    exact List.suffix_refl _
  · rw [hsent, hnone', State.broadcastBegun, hbroadcast]
    exact hnone ▸ hs.framed

/-- The same for the broadcast thread. -/
theorem Connection.broadcastIdle (hs : Connection h s) {e : Effect} {pc : BroadcastPc}
    (hthreads : (s.apply e).threads = s.threads) (hbefore : s.broadcast.sending h = none)
    (hafter : ∀ m rest, pc.sending h = some (m, rest) → rest = Server.frame m)
    (hsent : sentTo h (s.apply e).trace = sentTo h s.trace) :
    Connection h { s.apply e with broadcast := pc } := by
  have hnone : s.broadcastBegun h = none := by simp [State.broadcastBegun, hbefore]
  have hclient : ({ s.apply e with broadcast := pc } : State).clientSending h =
      s.clientSending h := by
    unfold State.clientSending
    rw [← hthreads]
  have hnone' : ({ s.apply e with broadcast := pc } : State).broadcastBegun h = none := by
    show (pc.sending h).bind _ = none
    cases hsending : pc.sending h with
    | none => rfl
    | some p =>
      obtain ⟨m, rest⟩ := p
      rw [hafter m rest hsending]
      exact begun_frame m
  refine ⟨fun m rest hm => hs.client m rest (hclient ▸ hm), fun m rest hm => ?_, ?_⟩
  · obtain rfl := hafter m rest hm
    exact List.suffix_refl _
  · show Framed (sentTo h (s.apply e).trace) _ _
    rw [hsent, hnone', State.clientBegun, hclient]
    exact hnone ▸ hs.framed

/-- Outside of `Server_send` a client's thread writes nothing, and it enters with the
whole frame. -/
theorem ClientThread.Step.sending {me : BitVec 64} {b : ClientAction} {e : Effect} {pc₀ pc : Pc}
    (hcl : ClientThread.Step s h me pc₀ b e pc) (hpc : pc₀.sending = none) :
    (∀ m rest, pc.sending = some (m, rest) → rest = Server.frame m) ∧
      ∀ h' who m bytes last, e ≠ .wrote h' who m bytes last := by
  cases hcl with
  | fault =>
    refine ⟨fun m rest hm => ?_, by simp⟩
    rw [hpc] at hm
    cases hm
  | move hmove =>
    refine ⟨fun m rest hm => ?_, by simp⟩
    cases hmove <;> cases hm
  | read hmove =>
    refine ⟨fun m rest hm => ?_, by simp⟩
    cases hmove <;> cases hm
  | built _ =>
    refine ⟨fun m rest hm => ?_, by simp⟩
    cases hm
    rfl
  | wrote | sent | failed => cases hpc
  | pushed hpush =>
    refine ⟨fun m rest hm => ?_, by simp⟩
    cases hpush <;> cases hm
  | @freed site =>
    refine ⟨fun m rest hm => ?_, by simp⟩
    cases site <;> cases hm
  | _ => exact ⟨fun m rest hm => (by cases hm), by simp⟩

/-- The thread of the client goes on with its frame. -/
theorem Connection.client_wrote (hs : Connection h s) {me : BitVec 64} {p : Purpose}
    {m : C2HMessage} {rest : Bytes} (ht : s.threads h = some ⟨me, .write p m rest⟩)
    (hbegun : s.broadcastBegun h = none) {bytes : Bytes} {last : Bool} {pc : Pc}
    (hframed : Framed (sentTo h s.trace) (begun m rest) none → rest <:+ Server.frame m →
      Framed (sentTo h s.trace ++ bytes) (pc.sending.bind fun p => begun p.1 p.2) none)
    (hsending : ∀ m' rest', pc.sending = some (m', rest') → m' = m ∧ rest' <:+ rest) :
    Connection h { s.apply (.wrote h .client m bytes last) with
      threads := Function.update s.threads h (some ⟨me, pc⟩) } := by
  have hclient : s.clientSending h = some (m, rest) := by
    simp [State.clientSending, ht, Pc.sending]
  have hsuffix := hs.client m rest hclient
  have hbefore : Framed (sentTo h s.trace) (begun m rest) none := by
    have hframed := hs.framed
    rw [hbegun, State.clientBegun, hclient] at hframed
    exact hframed
  refine ⟨fun m' rest' hm => ?_, hs.broadcast, ?_⟩
  · rw [clientSending_update, if_pos rfl] at hm
    obtain ⟨rfl, hrest⟩ := hsending m' rest' hm
    exact hrest.trans hsuffix
  · show Framed (sentTo h (s.apply _).trace) _ (s.broadcastBegun h)
    rw [sentTo_wrote, hbegun, State.clientBegun, clientSending_update, if_pos rfl]
    exact hframed hbefore hsuffix

/-- A sending step of the client's thread is made alone, and not in vain. -/
theorem alone_client {me : BitVec 64} {p : Purpose} {m : C2HMessage} {rest : Bytes}
    (ht : s.threads h = some ⟨me, .write p m rest⟩) {b : ClientAction}
    (haccepts : Accepts h s (.client h b) = true) (halone : WritesAlone h s (.client h b) = true) :
    (∃ k, b = .wrote k ∧ 0 < k) ∧ s.broadcastBegun h = none := by
  have hsends : sendsTo h s (.client h b) = true := by
    simp [sendsTo, State.clientSending, ht, Pc.sending]
  simp only [Accepts, WritesAlone, hsends, Bool.not_true, Bool.false_or,
    Option.isNone_iff_eq_none] at haccepts halone
  refine ⟨?_, halone⟩
  cases b with
  | wrote k => exact ⟨k, rfl, by simpa using haccepts⟩
  | _ => cases haccepts

theorem Connection.client_step (hs : Connection h s) {h₀ : Addr} {me : BitVec 64}
    {b : ClientAction} {e : Effect} {pc₀ pc : Pc} (ht : s.threads h₀ = some ⟨me, pc₀⟩)
    (haccepts : Accepts h s (.client h₀ b) = true)
    (halone : WritesAlone h s (.client h₀ b) = true)
    (hcl : ClientThread.Step s h₀ me pc₀ b e pc) : Connection h
      { s.apply e with threads := Function.update s.threads h₀ (some ⟨me, pc⟩) } := by
  by_cases hh : h = h₀
  · subst hh
    -- outside of `Server_send`
    have idle : pc₀.sending = none → Connection h
        { s.apply e with threads := Function.update s.threads h (some ⟨me, pc⟩) } := by
      intro hnone
      obtain ⟨hsending, he⟩ := hcl.sending hnone
      refine hs.clientIdle (by simp [State.clientSending, ht, hnone]) (fun m rest hm => ?_)
        (s.apply_broadcast e) (sentTo_apply (he h))
      rw [clientSending_update, if_pos rfl] at hm
      exact hsending m rest hm
    cases hcl with
    | fault =>
      refine hs.of_same ?_ rfl rfl
      rw [clientSending_update, if_pos rfl]
      simp [State.clientSending, ht]
    | @wrote p m rest k c hc hopen hlt =>
      obtain ⟨⟨k', hk', hpos⟩, hbegun⟩ := alone_client ht haccepts halone
      cases hk'
      refine hs.client_wrote ht hbegun (fun hframed hsuffix => hframed.write hsuffix hpos hlt) ?_
      intro m' rest' hm
      cases hm
      exact ⟨rfl, List.drop_suffix _ _⟩
    | @sent p m rest c hc hopen =>
      obtain ⟨-, hbegun⟩ := alone_client ht haccepts halone
      have hnone : (ClientThread.afterSend true p).sending = none := by cases p <;> rfl
      refine hs.client_wrote ht hbegun (fun hframed hsuffix => ?_) (by simp [hnone])
      rw [hnone]
      exact hframed.close hsuffix
    | failed ha =>
      obtain ⟨⟨k', hk', -⟩, -⟩ := alone_client ht haccepts halone
      exact absurd hk' (ha k')
    | move hmove => exact idle (by cases hmove <;> rfl)
    | read hmove => exact idle (by cases hmove <;> rfl)
    | pushed hpush => exact idle (by cases hpush <;> rfl)
    | _ => exact idle rfl
  · -- the thread of another client
    refine hs.of_same ?_ (by simp) (sentTo_apply fun who m bytes last he => ?_)
    · rw [clientSending_update, if_neg hh]
    · subst he
      cases hcl <;> exact hh rfl

/-- Outside of `Server_send` the broadcast thread writes nothing, and it enters with the
whole frame. -/
theorem Broadcast.Step.sending {b : BroadcastAction} {e : Effect} {pc₀ pc : BroadcastPc}
    (hbc : Broadcast.Step s pc₀ b e pc) (hpc : pc₀.sending h = none) :
    (∀ m rest, pc.sending h = some (m, rest) → rest = Server.frame m) ∧
      ∀ who m bytes last, e ≠ .wrote h who m bytes last := by
  cases hbc with
  | fault =>
    refine ⟨fun m rest hm => ?_, by simp⟩
    rw [hpc] at hm
    cases hm
  | began _ =>
    refine ⟨fun m rest hm => ?_, by simp⟩
    simp only [BroadcastPc.sending] at hm
    split at hm
    · cases hm
      rfl
    · cases hm
  | @wrote item h' rest =>
    have hne : h' ≠ h := by simpa [BroadcastPc.sending] using hpc
    refine ⟨fun m rest hm => ?_, by simp [hne]⟩
    simp [BroadcastPc.sending, hne] at hm
  | @sent item h' rest =>
    have hne : h' ≠ h := by simpa [BroadcastPc.sending] using hpc
    exact ⟨fun m rest hm => (by cases hm), by simp [hne]⟩
  | _ => exact ⟨fun m rest hm => (by cases hm), by simp⟩

theorem alone_broadcast {m : C2HMessage} {rest : Bytes}
    (hsending : s.broadcast.sending h = some (m, rest)) {b : BroadcastAction}
    (haccepts : Accepts h s (.broadcast b) = true) (halone : WritesAlone h s (.broadcast b) = true) :
    (∃ k, b = .wrote k ∧ 0 < k) ∧ s.clientBegun h = none := by
  have hsends : sendsTo h s (.broadcast b) = true := by simp [sendsTo, hsending]
  simp only [Accepts, WritesAlone, hsends, Bool.not_true, Bool.false_or,
    Option.isNone_iff_eq_none] at haccepts halone
  refine ⟨?_, halone⟩
  cases b with
  | wrote k => exact ⟨k, rfl, by simpa using haccepts⟩
  | _ => cases haccepts

/-- The broadcast thread goes on with its frame. -/
theorem Connection.broadcast_wrote (hs : Connection h s) {item : Item} {rest : Bytes}
    (hpc : s.broadcast = .write item h rest) (hbegun : s.clientBegun h = none) {bytes : Bytes}
    {last : Bool} {pc : BroadcastPc}
    (hframed : Framed (sentTo h s.trace) (begun item.message rest) none →
      rest <:+ Server.frame item.message →
      Framed (sentTo h s.trace ++ bytes) ((pc.sending h).bind fun p => begun p.1 p.2) none)
    (hsending : ∀ m' rest', pc.sending h = some (m', rest') → m' = item.message ∧ rest' <:+ rest) :
    Connection h { s.apply (.wrote h (.broadcast item.seq) item.message bytes last) with
      broadcast := pc } := by
  have hbroadcast : s.broadcast.sending h = some (item.message, rest) := by
    simp [hpc, BroadcastPc.sending]
  have hsuffix := hs.broadcast item.message rest hbroadcast
  have hbefore : Framed (sentTo h s.trace) (begun item.message rest) none := by
    have hframed := hs.framed
    rw [hbegun, State.broadcastBegun, hbroadcast] at hframed
    exact hframed.symm
  refine ⟨hs.client, fun m' rest' hm => ?_, ?_⟩
  · obtain ⟨rfl, hrest⟩ := hsending m' rest' hm
    exact hrest.trans hsuffix
  · show Framed (sentTo h (s.apply _).trace) (s.clientBegun h) ((pc.sending h).bind _)
    rw [sentTo_wrote, hbegun]
    exact (hframed hbefore hsuffix).symm

theorem Connection.broadcast_step (hs : Connection h s) {b : BroadcastAction} {e : Effect}
    {pc₀ pc : BroadcastPc} (hpc : s.broadcast = pc₀)
    (haccepts : Accepts h s (.broadcast b) = true) (halone : WritesAlone h s (.broadcast b) = true)
    (hbc : Broadcast.Step s pc₀ b e pc) :
    Connection h { s.apply e with broadcast := pc } := by
  cases hsending : pc₀.sending h with
  | none =>
    obtain ⟨hafter, he⟩ := hbc.sending hsending
    exact hs.broadcastIdle (s.apply_threads hbc.not_acceptorOnly) (hpc ▸ hsending) hafter
      (sentTo_apply he)
  | some p =>
    obtain ⟨m, rest⟩ := p
    obtain ⟨⟨k, rfl, hpos⟩, hbegun⟩ := alone_broadcast (hpc ▸ hsending) haccepts halone
    cases hbc with
    | fault => exact hs.of_same rfl (by rw [hpc]) rfl
    | @wrote item h' rest' _ c hc hopen hlt =>
      obtain rfl : h' = h := by
        by_contra hne
        simp [BroadcastPc.sending, hne] at hsending
      refine hs.broadcast_wrote hpc hbegun (fun hframed hsuffix => ?_) fun m' rest'' hm => ?_
      · simpa [BroadcastPc.sending] using hframed.write hsuffix hpos hlt
      · simp only [BroadcastPc.sending, if_true] at hm
        cases hm
        exact ⟨rfl, List.drop_suffix _ _⟩
    | @sent item h' rest' c hc hopen =>
      obtain rfl : h' = h := by
        by_contra hne
        simp [BroadcastPc.sending, hne] at hsending
      refine hs.broadcast_wrote hpc hbegun (fun hframed hsuffix => hframed.close hsuffix) ?_
      exact fun m' rest'' hm => (by cases hm)
    | failed ha => exact absurd rfl (ha k)

theorem Connection.acceptor_step (hs : Connection h s) (hhandles : Handles s) {e : Effect}
    {pc₀ pc : AcceptorPc} (hpc : s.acceptor = pc₀) (hacc : Acceptor.Step s pc₀ e pc) :
    Connection h { s.apply e with acceptor := pc } := by
  refine hs.of_same ?_ (by simp) (sentTo_apply fun who m bytes last he => ?_)
  · show ((s.apply e).threads h).bind _ = _
    cases hacc with
    | @spawned h₀ me =>
      obtain ⟨hnone, -⟩ := hhandles.spawning h₀ hpc
      show (Function.update s.threads h₀ _ h).bind _ = _
      by_cases hh : h = h₀
      · subst hh
        simp [State.clientSending, hnone, Pc.sending]
      · rw [Function.update_of_ne hh]
        rfl
    | _ => rfl
  · subst he
    cases hacc

theorem connection_of_reachable
    (hreach : Reachable (restrict step fun s a => Accepts h s a = true ∧
      WritesAlone h s a = true) (.init n) s) :
    Connection h s := by
  refine hreach.invariant_restrict connection_init fun hr hs ⟨haccepts, halone⟩ hstep => ?_
  cases step_taken hstep with
  | stop => exact hs.of_same rfl rfl rfl
  | acceptor hpc hacc => exact hs.acceptor_step (handles_of_reachable hr) hpc hacc
  | broadcast hpc hbc => exact hs.broadcast_step hpc haccepts halone hbc
  | client ht hcl => exact hs.client_step ht haccepts halone hcl

/-- **Frames of one connection are not mixed** in every run where the two threads that
write to the client do so alone: the bytes sent are complete frames, and then at most
the first part of the one frame that is being sent. -/
theorem frames_not_mixed
    (hreach : Reachable (restrict step fun s a => Accepts h s a = true ∧
      WritesAlone h s a = true) (.init n) s) :
    ∃ (ms : List C2HMessage) (pre : Bytes),
      sentTo h s.trace = (ms.map Server.frame).flatten ++ pre ∧
        (pre = [] ∨ ∃ m rest, (s.clientSending h = some (m, rest) ∨
          s.broadcast.sending h = some (m, rest)) ∧ Server.frame m = pre ++ rest) := by
  have hs := connection_of_reachable hreach
  have hframed := hs.framed
  -- an open stream, for the writer that has begun a frame
  have hopen : ∀ {m rest}, Open (sentTo h s.trace) m rest → rest <:+ Server.frame m →
      (s.clientSending h = some (m, rest) ∨ s.broadcast.sending h = some (m, rest)) →
      ∃ (ms : List C2HMessage) (pre : Bytes),
        sentTo h s.trace = (ms.map Server.frame).flatten ++ pre ∧
          (pre = [] ∨ ∃ m rest, (s.clientSending h = some (m, rest) ∨
            s.broadcast.sending h = some (m, rest)) ∧ Server.frame m = pre ++ rest) := by
    intro m rest hopen hsuffix hsending
    obtain ⟨ms, pre, hout, hframe⟩ := hopen.split hsuffix
    exact ⟨ms, pre, hout, Or.inr ⟨m, rest, hsending, hframe⟩⟩
  cases hclient : s.clientBegun h with
  | none =>
    cases hbroadcast : s.broadcastBegun h with
    | none =>
      rw [hclient, hbroadcast] at hframed
      obtain ⟨ms, hout⟩ := hframed
      exact ⟨ms, [], by rw [hout, List.append_nil], Or.inl rfl⟩
    | some p =>
      obtain ⟨m, rest⟩ := p
      rw [hclient, hbroadcast] at hframed
      have hsending := sending_of_begun hbroadcast
      exact hopen hframed (hs.broadcast m rest hsending) (Or.inr hsending)
  | some p =>
    obtain ⟨m, rest⟩ := p
    cases hbroadcast : s.broadcastBegun h with
    | none =>
      rw [hclient, hbroadcast] at hframed
      have hsending := sending_of_begun hclient
      exact hopen hframed (hs.client m rest hsending) (Or.inl hsending)
    | some q =>
      rw [hclient, hbroadcast] at hframed
      exact hframed.elim

/-- The broadcast thread has sent the first three bytes of an announcement to Joe. -/
theorem frames_not_mixed_joe :
    ∃ s, Reachable (restrict step fun s a => Accepts 0 s a = true ∧ WritesAlone 0 s a = true)
        (.init 2) s ∧ s.broadcastBegun 0 ≠ none ∧ ∃ (ms : List C2HMessage) (pre : Bytes),
          sentTo 0 s.trace = (ms.map Server.frame).flatten ++ pre := by
  obtain ⟨s, hreach, hs⟩ : ∃ s, Reachable (restrict step fun s a => Accepts 0 s a = true ∧
      WritesAlone 0 s a = true) (.init 2) s ∧ (s.broadcastBegun 0).isSome = true :=
    Reachable.of_any (Script.joeAndAnn ++ Script.pop ++ Script.fetch ++ [.broadcast (.wrote 3)])
      (by decide +kernel)
  obtain ⟨ms, pre, hout, -⟩ := frames_not_mixed hreach
  exact ⟨s, hreach, Option.isSome_iff_ne_none.mp hs, ms, pre, hout⟩

/-! ### A mixed stream -/

/-- A frame is a string and its terminator, so that frames can be told apart. -/
theorem frame_append_inj {m m' : C2HMessage} {t t' : Bytes}
    (heq : Server.frame m ++ t = Server.frame m' ++ t') :
    Server.frame m = Server.frame m' ∧ t = t' := by
  unfold Server.frame announced at heq ⊢
  generalize (C2HMessage.format m _ _).toOption.getD CStr.empty = x at heq ⊢
  generalize (C2HMessage.format m' _ _).toOption.getD CStr.empty = y at heq ⊢
  simp only [List.append_assoc, List.singleton_append] at heq
  have hxy := congrArg (fun b => (CStr.ofBlock b).bytes) heq
  simp only [CStr.bytes_ofBlock_append x.nulFree, CStr.bytes_ofBlock_append y.nulFree] at hxy
  rw [hxy] at heq ⊢
  exact ⟨rfl, by simpa using heq⟩

/-- No frame starts with two slashes. -/
theorem frame_append_ne_slashes (m : C2HMessage) (t t' : Bytes) :
    Server.frame m ++ t ≠ slash :: slash :: t' := by
  intro heq
  cases hcommand : m.type.commandPrefix with
  | none =>
    have hframe : Server.frame m = [0] := by
      simp [Server.frame, C2HMessage.format, Message.format, hcommand, announced,
        Except.toOption, CStr.empty]
    rw [hframe] at heq
    simp [slash] at heq
  | some command =>
    obtain ⟨x, rest, rfl, hx⟩ : ∃ x rest, command = slash :: x :: rest ∧ x ≠ slash := by
      cases htype : m.type <;> rw [htype] at hcommand <;> cases hcommand <;>
        exact ⟨_, _, rfl, by decide⟩
    obtain ⟨u, hu⟩ := Server.command_prefix_frame hcommand
    rw [← hu] at heq
    simp only [List.cons_append, List.cons.injEq] at heq
    exact hx heq.2.1

theorem not_closed_of_slashes (ms : List C2HMessage) (t : Bytes) :
    ¬ Closed ((ms.map Server.frame).flatten ++ slash :: slash :: t) := by
  rintro ⟨ms', heq⟩
  induction ms generalizing ms' with
  | nil =>
    cases ms' with
    | nil => cases heq
    | cons m ms' => exact frame_append_ne_slashes m _ t heq.symm
  | cons m ms ih =>
    cases ms' with
    | nil => simp [Server.frame, announced] at heq
    | cons m' ms' =>
      simp only [List.map_cons, List.flatten_cons, List.append_assoc] at heq
      exact ih ms' (frame_append_inj heq).2

/-- Ann's thread has sent the first byte of its reply when the broadcast thread sends
her the announcement of Joe; then her thread sends the rest. -/
theorem not_frames_not_mixed_hello :
    ∃ s, Reachable (restrict step fun s a => Accepts 1 s a = true) (.init 2) s ∧
      s.clientSending 1 = none ∧ s.broadcast.sending 1 = none ∧ ¬ Closed (sentTo 1 s.trace) := by
  obtain ⟨s, hreach, hs⟩ : ∃ s, Reachable (restrict step fun s a => Accepts 1 s a = true)
      (.init 2) s ∧ (s.clientSending 1 == none && s.broadcast.sending 1 == none &&
        (([Script.text (Purpose.message CStr.empty .welcome),
          Script.text (Purpose.message CStr.empty .prompt)].map Server.frame).flatten ++
            [slash, slash]).isPrefixOf (sentTo 1 s.trace)) = true :=
    Reachable.of_any (Script.startUp ++ Script.connect 11 ++ Script.connect 12 ++
      Script.join 0 (str "Joe") ++ Script.enter 1 (str "Ann") ++ Script.authenticate 1 ++
      [.client 1 (.message (Script.text (Server.hello (str "Ann")))), .client 1 (.wrote 1)] ++
      Script.pop ++ Script.fetch ++ Script.deliver (Script.text (Server.joined (str "Joe"))) ++
      Script.fetch ++ Script.deliver (Script.text (Server.joined (str "Joe"))) ++
      [.client 1 (.wrote ((Server.frame (Script.text (Server.hello (str "Ann")))).length - 1))])
      (by decide +kernel)
  simp only [Bool.and_eq_true, beq_iff_eq, List.isPrefixOf_iff_prefix] at hs
  obtain ⟨⟨hclient, hbroadcast⟩, t, ht⟩ := hs
  refine ⟨s, hreach, hclient, hbroadcast, ?_⟩
  rw [← ht, List.append_assoc]
  exact not_closed_of_slashes _ t

end C2Hat
