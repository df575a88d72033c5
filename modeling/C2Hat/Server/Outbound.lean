import C2Hat.Server.Fanout
import C2Hat.Server.Framing

/-!
# What a client is sent

The bytes of a connection, told from the messages that were sent to their end.  Each of them is one
call of `Server_send`, of the client's own thread or of the broadcast thread, and in a run in which
the two write alone the stream is made of the frames of these messages, in the order in which the
calls returned, and of the part of a frame that has been sent so far.

What comes from the broadcast thread is told from the queue: while a client stays, it is sent each
message that is popped, once and in the order of the queue.

## Main definitions

* `finished`, `queued`, `broadcasts` — the messages that a client was sent, and those of them that
  come from the queue.
* `frames` — the frames of messages, one behind the other.
* `State.partSent` — the first part of a frame that is being sent.
* `Present` — the client is registered and authenticated, and the server is not told to stop.

## Main results

* `sent_in_order` — **the bytes that a client was sent are the frames of its messages.**
* `broadcasts_present` — **a client that stays is sent what is popped**, each message once.
-/

namespace C2Hat

open Clib Runs

variable {s s' : State} {n : ℕ} {h : Addr}

/-! ### Messages and their bytes -/

/-- The messages that a client was sent to their end, and who sent them. -/
def finished (h : Addr) (trace : List Event) : List (Writer × C2HMessage) :=
  trace.filterMap fun
    | .wrote h' who m _ true => if h' = h then some (who, m) else none
    | _ => none

theorem finished_append (h : Addr) (t t' : List Event) :
    finished h (t ++ t') = finished h t ++ finished h t' := List.filterMap_append

theorem finished_wrote (who : Writer) (m : C2HMessage) (bytes : Bytes) (last : Bool) :
    finished h (s.apply (.wrote h who m bytes last)).trace =
      finished h s.trace ++ if last then [(who, m)] else [] := by
  rw [s.trace_apply, finished_append]
  cases last <;> simp [finished, Effect.events]

/-- Other effects send nothing to the client. -/
theorem finished_apply {e : Effect} (he : ∀ who m bytes last, e ≠ .wrote h who m bytes last) :
    finished h (s.apply e).trace = finished h s.trace := by
  rw [s.trace_apply, finished_append, List.append_right_eq_self]
  cases e with
  | push m =>
    simp only [Effect.events]
    split <;> rfl
  | wrote h' who m bytes last =>
    have hne : h' ≠ h := fun hh => he who m bytes last (by rw [hh])
    cases last <;> simp [finished, Effect.events, hne]
  | _ => rfl

/-- The frames of messages, one behind the other. -/
def frames (ms : List (Writer × C2HMessage)) : Bytes := (ms.map fun x => Server.frame x.2).flatten

@[simp] theorem frames_nil : frames [] = [] := rfl

@[simp] theorem frames_append (ms ms' : List (Writer × C2HMessage)) :
    frames (ms ++ ms') = frames ms ++ frames ms' := by
  rw [frames, List.map_append, List.flatten_append]
  rfl

@[simp] theorem frames_singleton (x : Writer × C2HMessage) : frames [x] = Server.frame x.2 :=
  List.append_nil _

/-- What has been sent of a frame. -/
def front : Option (C2HMessage × Bytes) → Bytes
  | none => []
  | some (m, rest) => (Server.frame m).take ((Server.frame m).length - rest.length)

variable {m : C2HMessage} {rest : Bytes}

@[simp] theorem front_frame (m : C2HMessage) : front (some (m, Server.frame m)) = [] := by
  rw [front, Nat.sub_self, List.take_zero]

theorem front_append (hrest : rest <:+ Server.frame m) :
    front (some (m, rest)) ++ rest = Server.frame m := by
  obtain ⟨pre, hpre⟩ := hrest
  rw [front, ← hpre, List.length_append, Nat.add_sub_cancel, List.take_left' rfl]

theorem front_write (hrest : rest <:+ Server.frame m) (k : ℕ) :
    front (some (m, rest)) ++ rest.take k = front (some (m, rest.drop k)) := by
  apply (List.append_left_inj (rest.drop k)).1
  rw [List.append_assoc, List.take_append_drop, front_append hrest,
    front_append ((List.drop_suffix _ _).trans hrest)]

/-- Nothing has been sent of a frame that was not begun. -/
theorem front_of_begun {sending : Option (C2HMessage × Bytes)}
    (hbegun : (sending.bind fun p => begun p.1 p.2) = none) : front sending = [] := by
  cases sending with
  | none => rfl
  | some p =>
    obtain ⟨m, rest⟩ := p
    rw [Option.bind_some, begun] at hbegun
    split at hbegun
    · cases hbegun
    · next hlen => rw [front, Nat.sub_eq_zero_of_le (Nat.le_of_not_lt hlen), List.take_zero]

/-- The first part of a frame that is being sent to a client. -/
def State.partSent (s : State) (h : Addr) : Bytes :=
  front (s.clientSending h) ++ front (s.broadcast.sending h)

/-! ### One step -/

/-- A step has sent some bytes to the client, and ended some messages. -/
structure Sends (h : Addr) (s s' : State) (bytes : Bytes) (ended : List (Writer × C2HMessage)) :
    Prop where
  sent : sentTo h s'.trace = sentTo h s.trace ++ bytes
  finished : finished h s'.trace = finished h s.trace ++ ended
  part : s.partSent h ++ bytes = frames ended ++ s'.partSent h

/-- The step sends nothing to the client. -/
theorem Sends.idle {e : Effect} (htrace : s'.trace = (s.apply e).trace)
    (he : ∀ who m bytes last, e ≠ .wrote h who m bytes last)
    (hclient : front (s'.clientSending h) = front (s.clientSending h))
    (hbroadcast : front (s'.broadcast.sending h) = front (s.broadcast.sending h)) :
    Sends h s s' [] [] where
  sent := by rw [htrace, sentTo_apply he, List.append_nil]
  finished := by rw [htrace, finished_apply he, List.append_nil]
  part := by rw [State.partSent, State.partSent, hclient, hbroadcast, List.append_nil, frames_nil,
    List.nil_append]

theorem Sends.client (hs : Connection h s) {h₀ : Addr} {me : BitVec 64} {b : ClientAction}
    {e : Effect} {pc₀ pc : Pc} (ht : s.threads h₀ = some ⟨me, pc₀⟩)
    (haccepts : Accepts h s (.client h₀ b) = true) (halone : WritesAlone h s (.client h₀ b) = true)
    (hcl : ClientThread.Step s h₀ me pc₀ b e pc) : ∃ bytes ended, Sends h s
      { s.apply e with threads := Function.update s.threads h₀ (some ⟨me, pc⟩) } bytes ended := by
  by_cases hh : h = h₀
  · subst hh
    have hsending : s.clientSending h = pc₀.sending := by simp [State.clientSending, ht]
    have hafter : ({ s.apply e with threads := Function.update s.threads h (some ⟨me, pc⟩) } :
        State).clientSending h = pc.sending := by rw [clientSending_update, if_pos rfl]
    -- outside of `Server_send`
    have idle : pc₀.sending = none → ∃ bytes ended, Sends h s
        { s.apply e with threads := Function.update s.threads h (some ⟨me, pc⟩) } bytes ended := by
      intro hnone
      obtain ⟨hwhole, he⟩ := hcl.sending hnone
      refine ⟨[], [], Sends.idle rfl (he h) ?_ (by rw [s.apply_broadcast])⟩
      rw [hafter, hsending, hnone]
      cases hpc : pc.sending with
      | none => rfl
      | some p =>
        obtain ⟨m, rest⟩ := p
        rw [hwhole m rest hpc, front_frame]
        rfl
    cases hcl with
    | fault =>
      refine ⟨[], [], Sends.idle (e := .fault) rfl (by simp) ?_ rfl⟩
      rw [hafter, hsending]
    | @wrote p m rest k c hc hopen hlt =>
      obtain ⟨-, hbegun⟩ := alone_client ht haccepts halone
      have hsuffix := hs.client m rest hsending
      refine ⟨rest.take k, [], sentTo_wrote .., finished_wrote .., ?_⟩
      rw [State.partSent, State.partSent, hafter, hsending]
      show front (some (m, rest)) ++ front (s.broadcast.sending h) ++ _ =
        front (some (m, rest.drop k)) ++ front (s.broadcast.sending h)
      rw [front_of_begun hbegun, List.append_nil, List.append_nil, front_write hsuffix]
    | @sent p m rest c hc hopen =>
      obtain ⟨-, hbegun⟩ := alone_client ht haccepts halone
      have hsuffix := hs.client m rest hsending
      have hnone : (ClientThread.afterSend true p).sending = none := by cases p <;> rfl
      refine ⟨rest, [(.client, m)], sentTo_wrote .., finished_wrote .., ?_⟩
      rw [State.partSent, State.partSent, hafter, hsending, hnone, frames_singleton]
      show front (some (m, rest)) ++ front (s.broadcast.sending h) ++ rest =
        Server.frame m ++ ([] ++ front (s.broadcast.sending h))
      rw [front_of_begun hbegun, List.append_nil, List.append_nil, List.append_nil,
        front_append hsuffix]
    | failed ha =>
      obtain ⟨⟨k, hk, -⟩, -⟩ := alone_client ht haccepts halone
      exact absurd hk (ha k)
    | move hmove => exact idle (by cases hmove <;> rfl)
    | read hmove => exact idle (by cases hmove <;> rfl)
    | pushed hpush => exact idle (by cases hpush <;> rfl)
    | _ => exact idle rfl
  · -- the thread of another client
    refine ⟨[], [], Sends.idle rfl (fun who m bytes last he => ?_) ?_ (by rw [s.apply_broadcast])⟩
    · subst he
      cases hcl <;> exact hh rfl
    · rw [clientSending_update, if_neg hh]

theorem Sends.broadcast (hs : Connection h s) {b : BroadcastAction} {e : Effect}
    {pc₀ pc : BroadcastPc} (hpc : s.broadcast = pc₀) (haccepts : Accepts h s (.broadcast b) = true)
    (halone : WritesAlone h s (.broadcast b) = true) (hbc : Broadcast.Step s pc₀ b e pc) :
    ∃ bytes ended, Sends h s { s.apply e with broadcast := pc } bytes ended := by
  have hclient : ({ s.apply e with broadcast := pc } : State).clientSending h =
      s.clientSending h := by
    unfold State.clientSending
    rw [← s.apply_threads hbc.not_acceptorOnly]
  cases hsending : pc₀.sending h with
  | none =>
    obtain ⟨hwhole, he⟩ := hbc.sending hsending
    refine ⟨[], [], Sends.idle rfl he (by rw [hclient]) ?_⟩
    rw [hpc, hsending]
    show front (pc.sending h) = []
    cases hpc : pc.sending h with
    | none => rfl
    | some p =>
      obtain ⟨m, rest⟩ := p
      rw [hwhole m rest hpc, front_frame]
  | some p =>
    obtain ⟨m, rest⟩ := p
    have hsending' : s.broadcast.sending h = some (m, rest) := by rw [hpc, hsending]
    obtain ⟨⟨k, rfl, -⟩, hbegun⟩ := alone_broadcast hsending' haccepts halone
    have hsuffix := hs.broadcast m rest hsending'
    cases hbc with
    | fault => exact ⟨[], [], Sends.idle (e := .fault) rfl (by simp) rfl (by rw [hpc])⟩
    | @wrote item h' rest' _ c hc hopen hlt =>
      obtain rfl : h' = h := by
        by_contra hne
        simp [BroadcastPc.sending, hne] at hsending
      obtain ⟨rfl, rfl⟩ : item.message = m ∧ rest' = rest := by
        simpa [BroadcastPc.sending] using hsending
      refine ⟨rest'.take k, [], sentTo_wrote .., finished_wrote .., ?_⟩
      rw [State.partSent, State.partSent, hclient, hsending', front_of_begun hbegun]
      simp only [BroadcastPc.sending, if_true]
      rw [List.nil_append, List.nil_append, frames_nil, List.nil_append, front_write hsuffix]
    | @sent item h' rest' c hc hopen =>
      obtain rfl : h' = h := by
        by_contra hne
        simp [BroadcastPc.sending, hne] at hsending
      obtain ⟨rfl, rfl⟩ : item.message = m ∧ rest' = rest := by
        simpa [BroadcastPc.sending] using hsending
      refine ⟨rest', [(.broadcast item.seq, item.message)], sentTo_wrote .., finished_wrote .., ?_⟩
      rw [State.partSent, State.partSent, hclient, hsending', front_of_begun hbegun]
      simp only [BroadcastPc.sending, frames_singleton]
      rw [List.nil_append, front_append hsuffix, List.nil_append, front, List.append_nil]
    | failed ha => exact absurd rfl (ha k)

theorem Sends.acceptor (hhandles : Handles s) {e : Effect} {pc₀ pc : AcceptorPc}
    (hpc : s.acceptor = pc₀) (hacc : Acceptor.Step s pc₀ e pc) :
    Sends h s { s.apply e with acceptor := pc } [] [] := by
  refine Sends.idle rfl (fun who m bytes last he => ?_) ?_ (by rw [s.apply_broadcast])
  · subst he
    cases hacc
  · show front (((s.apply e).threads h).bind _) = front ((s.threads h).bind _)
    cases hacc with
    | @spawned h₀ me =>
      obtain ⟨hnone, -⟩ := hhandles.spawning h₀ hpc
      show front ((Function.update s.threads h₀ _ h).bind _) = _
      by_cases hh : h = h₀
      · subst hh
        simp [hnone, Pc.sending, front]
      · rw [Function.update_of_ne hh]
    | _ => rfl

/-- What a client was sent, byte for byte. -/
theorem sent_of_reachable
    (hreach : Reachable (restrict step fun s a => Accepts h s a = true ∧
      WritesAlone h s a = true) (.init n) s) :
    sentTo h s.trace = frames (finished h s.trace) ++ s.partSent h := by
  refine hreach.invariant_along
    (P := fun s => sentTo h s.trace = frames (finished h s.trace) ++ s.partSent h) rfl ?_
  intro s₁ a s₂ hr hs hrestrict
  obtain ⟨⟨haccepts, halone⟩, hstep⟩ := restrict_eq_some.mp hrestrict
  have hconnection := connection_of_reachable hr
  obtain ⟨bytes, ended, hsends⟩ : ∃ bytes ended, Sends h s₁ s₂ bytes ended := by
    cases step_taken hstep with
    | stop => exact ⟨[], [], Sends.idle (e := .none) rfl (by simp) rfl rfl⟩
    | acceptor hpc hacc =>
      exact ⟨[], [], Sends.acceptor (handles_of_reachable hr.of_restrict) hpc hacc⟩
    | broadcast hpc hbc => exact Sends.broadcast hconnection hpc haccepts halone hbc
    | client ht hcl => exact Sends.client hconnection ht haccepts halone hcl
  rw [hsends.sent, hsends.finished, frames_append, hs, List.append_assoc, hsends.part,
    List.append_assoc]

/-! ### The messages of the queue -/

/-- The messages that come from the queue, with their numbers in the order of pops. -/
def fromQueue (ms : List (Writer × C2HMessage)) : List (ℕ × C2HMessage) :=
  ms.filterMap fun
    | (.broadcast seq, m) => some (seq, m)
    | (.client, _) => none

theorem fromQueue_append (ms ms' : List (Writer × C2HMessage)) :
    fromQueue (ms ++ ms') = fromQueue ms ++ fromQueue ms' := List.filterMap_append

/-- The messages from the queue that a client was sent to their end. -/
def queued (h : Addr) (trace : List Event) : List (ℕ × C2HMessage) := fromQueue (finished h trace)

/-- The same without the numbers. -/
def broadcasts (h : Addr) (trace : List Event) : List C2HMessage := (queued h trace).map Prod.snd

theorem queued_sublist_sends (h : Addr) (trace : List Event) :
    List.Sublist (queued h trace) (sends h trace) := by
  rw [queued, fromQueue, finished, List.filterMap_filterMap]
  induction trace with
  | nil => exact List.nil_sublist _
  | cons e t ih =>
    cases e with
    | wrote h' who m bytes last =>
      by_cases hh : h' = h
      · cases who with
        | client => cases last <;> simpa [sends, hh] using ih
        | broadcast seq =>
          cases last with
          | false => simpa [sends, hh] using List.Sublist.cons _ ih
          | true => simpa [sends, hh] using ih
      · cases who <;> cases last <;> simpa [sends, hh] using ih
    | _ => exact ih

/-- How often a message was sent is told from the messages. -/
theorem deliveries_eq (h : Addr) (seq : ℕ) (trace : List Event) :
    deliveries h seq trace = (finished h trace).countP (·.1 == .broadcast seq) := by
  rw [finished, List.countP_filterMap]
  refine List.countP_congr fun e _ => ?_
  cases e with
  | wrote h' who m bytes last =>
    cases who <;> cases last <;> by_cases hh : h' = h <;> simp [hh]
  | _ => rfl

/-- The client is registered and authenticated, and the server is not told to stop. -/
def Present (h : Addr) (s : State) : Bool :=
  !s.terminate && (s.entry h).any fun c => decide (c.nickname.bytes.length ≠ 0)

theorem stays_of_present {item : Item} (hitem : s.broadcast.item = some item)
    (hpresent : Present h s = true) : Stays item h s = true := by
  rw [Stays, hitem, beq_self_eq_true, Bool.true_and]
  exact hpresent

/-- The message that the broadcast thread still has to send to the client. -/
def State.owed (s : State) (h : Addr) : List C2HMessage :=
  match s.broadcast.item with
  | none => []
  | some item => if deliveries h item.seq s.trace = 0 then [item.message] else []

/-- The invariant of a stay: what was sent and what is owed is what was sent before, and then what
was popped. -/
structure Served (h : Addr) (before : List C2HMessage) (count : ℕ) (s : State) : Prop where
  surviving : Surviving s
  progress : ∀ item, s.broadcast.item = some item → Progress item h s
  seen : count ≤ (pops s.trace).length
  messages : broadcasts h s.trace ++ s.owed h = before ++ (pops s.trace).drop count

variable {before : List C2HMessage} {count : ℕ}

theorem pops_apply {e : Effect} (he : ∀ m rest, e ≠ .pop m rest) :
    pops (s.apply e).trace = pops s.trace := by
  rw [s.trace_apply, pops_append, List.append_right_eq_self]
  cases e with
  | push m =>
    simp only [Effect.events]
    split <;> rfl
  | pop m rest => exact absurd rfl (he m rest)
  | _ => rfl

/-- Only the broadcast thread sends messages from the queue. -/
theorem broadcasts_apply {e : Effect}
    (he : ∀ seq m bytes, e ≠ .wrote h (.broadcast seq) m bytes true) :
    broadcasts h (s.apply e).trace = broadcasts h s.trace := by
  by_cases hother : ∀ who m bytes last, e ≠ .wrote h who m bytes last
  · rw [broadcasts, queued, finished_apply hother]
    rfl
  · push Not at hother
    obtain ⟨who, m, bytes, last, rfl⟩ := hother
    rw [broadcasts, queued, finished_wrote, fromQueue_append, List.map_append]
    cases who with
    | client => cases last <;> exact List.append_nil _
    | broadcast seq =>
      cases last with
      | false => exact List.append_nil _
      | true => exact absurd rfl (he seq m bytes)

/-- The owed message stays the same as long as the item does, and it is not sent. -/
theorem owed_congr (hitem : s'.broadcast.item = s.broadcast.item)
    (hsent : ∀ seq, deliveries h seq s'.trace = deliveries h seq s.trace) :
    s'.owed h = s.owed h := by
  simp only [State.owed, hitem, hsent]

/-- Between two messages nothing is owed. -/
theorem Served.messages_of_none (hs : Served h before count s)
    (hitem : s.broadcast.item = none) :
    broadcasts h s.trace = before ++ (pops s.trace).drop count := by
  have hmessages := hs.messages
  rwa [State.owed, hitem, List.append_nil] at hmessages

/-- The message is still to be sent to a client that the broadcast thread writes to. -/
theorem Progress.unsent {item : Item} {rest : Bytes} (hs : Progress item h s)
    (hpc : s.broadcast = .write item h rest) (hh : h ∈ s.registered) :
    deliveries h item.seq s.trace = 0 := by
  obtain ⟨p, t, hp⟩ := hs.place (by rw [hpc]; rfl) hh
  exact hp.sent.trans (if_pos (Or.inr (by rw [hpc]; rfl)))

/-- Steps of the acceptor and of the clients' threads, and signals. -/
theorem Served.of_same (hs : Served h before count s) (hsurviving : Surviving s')
    (hprogress : ∀ item, s'.broadcast.item = some item → Progress item h s')
    (hitem : s'.broadcast.item = s.broadcast.item) (hpops : pops s'.trace = pops s.trace)
    (hbroadcasts : broadcasts h s'.trace = broadcasts h s.trace)
    (hsent : ∀ seq, deliveries h seq s'.trace = deliveries h seq s.trace) :
    Served h before count s' where
  surviving := hsurviving
  progress := hprogress
  seen := by rw [hpops]; exact hs.seen
  messages := by rw [hpops, hbroadcasts, owed_congr hitem hsent]; exact hs.messages

/-- The next message is popped. -/
theorem Served.popped (hs : Served h before count s) (hpc : s.broadcast = .pop) {m : C2HMessage}
    {rest : Option (Fifo C2HMessage)}
    (hreach : Reachable step (.init n) { s.apply (.pop m rest) with
      broadcast := .rewind ⟨Broadcast.popCount s.trace, m⟩ }) :
    Served h before count { s.apply (.pop m rest) with
      broadcast := .rewind ⟨Broadcast.popCount s.trace, m⟩ } := by
  have hzero := deliveries_rewind hreach rfl h
  have hpops : pops (s.trace ++ [.popped m]) = pops s.trace ++ [m] := pops_append _ _
  refine ⟨Or.inl rfl, fun item hitem => ?_, ?_, ?_⟩
  · cases hitem
    exact ⟨fun i hi => hzero, fun hw => (by cases hw), fun i hi => (by cases hi)⟩
  · show count ≤ (pops (s.trace ++ [.popped m])).length
    rw [hpops, List.length_append]
    exact Nat.le_add_right_of_le hs.seen
  · have howed : s.owed h = [] := by rw [State.owed, hpc]; rfl
    have hmessages := hs.messages
    rw [howed, List.append_nil] at hmessages
    have hbroadcasts : broadcasts h (s.trace ++ [.popped m]) = broadcasts h s.trace :=
      broadcasts_apply (e := .pop m rest) (by simp)
    show broadcasts h (s.trace ++ [.popped m]) ++ (if deliveries h _ _ = 0 then [m] else []) =
      before ++ (pops (s.trace ++ [.popped m])).drop count
    rw [if_pos hzero, hbroadcasts, hpops, List.drop_append_of_le_length hs.seen,
      ← List.append_assoc, hmessages]

/-- The current message is sent to the client. -/
theorem Served.sent (hs : Served h before count s) {item : Item} {rest : Bytes}
    (hpc : s.broadcast = .write item h rest) (hh : h ∈ s.registered)
    (hprogress : Progress item h
      { s.apply (.wrote h (.broadcast item.seq) item.message rest true) with
        broadcast := .check item }) :
    Served h before count { s.apply (.wrote h (.broadcast item.seq) item.message rest true) with
      broadcast := .check item } := by
  have hitem : s.broadcast.item = some item := by rw [hpc]; rfl
  have hzero := (hs.progress item hitem).unsent hpc hh
  have hfinished := finished_wrote (s := s) (h := h) (.broadcast item.seq) item.message rest true
  refine ⟨Or.inl rfl, fun i hi => ?_, ?_, ?_⟩
  · cases hi
    exact hprogress
  · show count ≤ (pops (s.apply _).trace).length
    rw [pops_apply (by simp)]
    exact hs.seen
  · have hmessages := hs.messages
    rw [State.owed, hitem] at hmessages
    simp only [hzero, if_true] at hmessages
    have hone : deliveries h item.seq
        (s.apply (.wrote h (.broadcast item.seq) item.message rest true)).trace ≠ 0 := by
      rw [deliveries_eq, hfinished, List.countP_append]
      simp
    show broadcasts h (s.apply _).trace ++ (if deliveries h item.seq _ = 0 then [item.message] else
      []) = before ++ (pops (s.apply _).trace).drop count
    rw [if_neg hone, pops_apply (by simp), List.append_nil, ← hmessages, broadcasts, queued,
      hfinished, fromQueue_append, List.map_append]
    rfl

theorem Served.broadcast (hs : Served h before count s) (hreach : Reachable step (.init n) s')
    (hreach₀ : Reachable step (.init n) s) {b : BroadcastAction} {e : Effect}
    {pc₀ pc : BroadcastPc} (hpresent : Present h s = true)
    (hsucceeds : SendSucceeds s (.broadcast b) = true) (hpc : s.broadcast = pc₀)
    (hbc : Broadcast.Step s pc₀ b e pc) (heq : s' = { s.apply e with broadcast := pc }) :
    Served h before count s' := by
  have hsurviving : Surviving s' := by
    rw [heq]
    exact surviving_step hs.surviving hsucceeds (.broadcast hpc hbc)
  have hterm : s.terminate = false := by
    simp only [Present, Bool.and_eq_true, Bool.not_eq_true'] at hpresent
    exact hpresent.1
  have hlooping : s.broadcast.looping = true :=
    hs.surviving.resolve_right fun hexited => by rw [hterm] at hexited; cases hexited.2
  have hh : h ∈ s.registered := by
    simp only [Present, Bool.and_eq_true, Option.any_eq_true] at hpresent
    obtain ⟨-, c, hc, -⟩ := hpresent
    exact State.mem_registered.mpr ⟨c, hc⟩
  -- the walk of the current item
  have hprogress : ∀ item, pc₀.item = some item →
      Progress item h { s.apply e with broadcast := pc } := by
    intro item hitem
    have hitem' : s.broadcast.item = some item := by rw [hpc]; exact hitem
    exact (hs.progress item hitem').broadcast (socket_valid hreach₀)
      (stays_of_present hitem' hpresent) hsucceeds hpc hbc
  -- steps that neither pop a message nor send one to this client
  have quiet : pc.item = pc₀.item → (∀ m rest, e ≠ .pop m rest) →
      (∀ seq m bytes, e ≠ .wrote h (.broadcast seq) m bytes true) → Served h before count s' := by
    intro hitem hpop hwrote
    subst heq
    refine hs.of_same hsurviving (fun item hi => hprogress item (hitem ▸ hi)) ?_ (pops_apply hpop)
      (broadcasts_apply hwrote) fun seq => deliveries_apply (hwrote seq)
    rw [hpc]
    exact hitem
  cases hbc with
  | popped hpop =>
    subst heq
    exact hs.popped hpc hreach
  | stopped hstop | terminated hstop =>
    rw [hterm] at hstop
    cases hstop
  | freed | dropping | unlisted | removed =>
    rw [hpc] at hlooping
    cases hlooping
  | @sent item x rest =>
    by_cases hx : x = h
    · subst hx heq
      exact hs.sent hpc hh (hprogress item rfl)
    · refine quiet rfl (by simp) fun seq m bytes hwrote => ?_
      cases hwrote
      exact hx rfl
  | @freeItem item =>
    -- the walk has come to its end, and nothing is owed any more
    have hone := (hs.progress item (by rw [hpc]; rfl)).finish item hpc
    have howed : s.owed h = [] := by
      rw [State.owed, hpc]
      show (if deliveries h item.seq s.trace = 0 then [item.message] else []) = []
      rw [hone, if_neg Nat.one_ne_zero]
    have hmessages := hs.messages
    rw [howed] at hmessages
    subst heq
    exact ⟨hsurviving, fun i hi => (by cases hi), hs.seen, hmessages⟩
  | failed ha =>
    cases b with
    | wrote k => exact absurd rfl (ha k)
    | go | writeFailed => simp [SendSucceeds, hpc] at hsucceeds
  | _ => exact quiet rfl (by simp) (by simp)

/-- The invariant of a stay, from one pop on. -/
theorem served_of_run {s₀ s₁ : State} (hreach : Reachable step (.init n) s₀)
    (hstart : s₀.broadcast.item = none) (hlooping : s₀.broadcast.looping = true)
    (hrun : Reachable (restrict step fun s a => Present h s = true ∧ SendSucceeds s a = true ∧
      KeepsPlace h s a = true) s₀ s₁) :
    Served h (broadcasts h s₀.trace) (pops s₀.trace).length s₁ := by
  have hinit : Served h (broadcasts h s₀.trace) (pops s₀.trace).length s₀ := by
    refine ⟨Or.inl hlooping, fun item hitem => ?_, le_rfl, ?_⟩
    · rw [hstart] at hitem
      cases hitem
    · rw [State.owed, hstart, List.drop_length]
  refine hrun.invariant_restrict hinit ?_
  intro s a s' hr hs ⟨hpresent, hsucceeds, hkeep⟩ hstep
  have hr' := hreach.trans hr
  have hsurviving := surviving_step hs.surviving hsucceeds (step_taken hstep)
  cases step_taken hstep with
  | stop =>
    exact hs.of_same hsurviving (fun item hi => (hs.progress item hi).of_same rfl rfl rfl rfl)
      rfl rfl rfl fun _ => rfl
  | @acceptor _ e _ _ hpc hacc =>
    have hwrote : ∀ seq m bytes, e ≠ .wrote h (.broadcast seq) m bytes true := by
      rintro seq m bytes rfl
      cases hacc
    have hpop : ∀ m rest, e ≠ .pop m rest := by
      rintro m rest rfl
      cases hacc
    refine hs.of_same hsurviving (fun item hi => ?_) (by simp) (pops_apply hpop)
      (broadcasts_apply hwrote) fun seq => deliveries_apply (hwrote seq)
    rw [show State.broadcast _ = _ from State.apply_broadcast _ e] at hi
    exact (hs.progress item hi).acceptor (handles_of_reachable hr') (terminate_of_stopping hr')
      (stays_of_present hi hpresent) hpc hacc
  | broadcast hpc hbc =>
    exact hs.broadcast (hr'.tail hstep) hr' hpresent hsucceeds hpc hbc rfl
  | @client _ _ _ e _ _ ht hcl =>
    have hwrote : ∀ seq m bytes, e ≠ .wrote h (.broadcast seq) m bytes true := by
      rintro seq m bytes rfl
      cases hcl
    have hpop : ∀ m rest, e ≠ .pop m rest := by
      rintro m rest rfl
      cases hcl
    refine hs.of_same hsurviving (fun item hi => ?_) (by simp) (pops_apply hpop)
      (broadcasts_apply hwrote) fun seq => deliveries_apply (hwrote seq)
    exact (hs.progress item (by simpa using hi)).client ht hkeep hcl _

/-- **A client that stays is sent what is popped.**  From one pop to another, as long as the client
is registered and authenticated, all deliveries succeed and no removal disturbs the walk, the
messages that the client is sent from the queue are those that are popped, each of them once and in
the order of the queue. -/
theorem broadcasts_present {s₀ s₁ : State} (hreach : Reachable step (.init n) s₀)
    (hstart : s₀.broadcast.item = none) (hlooping : s₀.broadcast.looping = true)
    (hrun : Reachable (restrict step fun s a => Present h s = true ∧ SendSucceeds s a = true ∧
      KeepsPlace h s a = true) s₀ s₁) (hend : s₁.broadcast.item = none) :
    broadcasts h s₁.trace =
      broadcasts h s₀.trace ++ (pops s₁.trace).drop (pops s₀.trace).length :=
  (served_of_run hreach hstart hlooping hrun).messages_of_none hend

/-- The announcement of Ann. -/
def annJoined : C2HMessage := Script.text (Server.joined (str "Ann"))

/-- Both announcements are popped, and sent to Joe and to Ann. -/
theorem broadcasts_present_ann :
    ∃ s₀ s₁, Reachable step (.init 2) s₀ ∧
      Reachable (restrict step fun s a => Present 1 s = true ∧ SendSucceeds s a = true ∧
        KeepsPlace 1 s a = true) s₀ s₁ ∧
      (pops s₁.trace).drop (pops s₀.trace).length = [joeJoined.message, annJoined] ∧
      broadcasts 1 s₁.trace =
        broadcasts 1 s₀.trace ++ (pops s₁.trace).drop (pops s₀.trace).length := by
  obtain ⟨s₀, hreach, hs₀⟩ : ∃ s, Reachable step (.init 2) s ∧
      (s.broadcast.item == none && s.broadcast.looping &&
        (run (restrict step fun s a => Present 1 s = true ∧ SendSucceeds s a = true ∧
          KeepsPlace 1 s a = true) s (Script.pop ++ Script.fetch ++
            Script.deliver joeJoined.message ++ Script.fetch ++ Script.deliver joeJoined.message ++
            Script.finish ++ [.broadcast .go, .broadcast .go] ++ Script.pop ++ Script.fetch ++
            Script.deliver annJoined ++ Script.fetch ++ Script.deliver annJoined ++
            Script.finish ++ [.broadcast .go])).any fun s₁ => s₁.broadcast.item == none &&
              (pops s₁.trace).drop (pops s.trace).length == [joeJoined.message, annJoined]) =
                true :=
    Reachable.of_any Script.joeAndAnn (by decide +kernel)
  simp only [Bool.and_eq_true, beq_iff_eq] at hs₀
  obtain ⟨⟨hstart, hlooping⟩, hrun⟩ := hs₀
  obtain ⟨s₁, hwalk, hs₁⟩ := Reachable.of_any _ hrun
  simp only [Bool.and_eq_true, beq_iff_eq] at hs₁
  exact ⟨s₀, s₁, hreach, hwalk, hs₁.2, broadcasts_present hreach hstart hlooping hwalk hs₁.1⟩

end C2Hat
