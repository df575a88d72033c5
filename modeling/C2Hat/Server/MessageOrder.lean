import C2Hat.Server.Effects

/-!
# The order of messages

Any number of client threads push messages while the broadcast thread pops them and
sends each to the clients.  The queue is a first-in-first-out queue under every
interleaving, and since one thread does all of the sending, every client receives
the messages in the order in which they were pushed.

## Main definitions

* `pushes`, `pops`, `sends` — the trace, seen from the queue and from a client.
* `Ordered` — the invariant.

## Main results

* `ordered_of_reachable` — it holds in every state.
* `message_order` — **the messages popped are the first ones pushed, and no client
  is sent a later message before an earlier one.**
-/

namespace C2Hat

open Clib Runs

/-- The messages that were pushed. -/
def pushes (trace : List Event) : List C2HMessage :=
  trace.filterMap fun
    | .pushed m => some m
    | _ => none

/-- The messages that were popped. -/
def pops (trace : List Event) : List C2HMessage :=
  trace.filterMap fun
    | .popped m => some m
    | _ => none

/-- What the broadcast thread sent to a client: each call of `SSL_write`, with the
number of the message in the order of pops. -/
def sends (h : Addr) (trace : List Event) : List (ℕ × C2HMessage) :=
  trace.filterMap fun
    | .wrote h' (.broadcast seq) m _ _ => if h' = h then some (seq, m) else none
    | _ => none

theorem pushes_append (t t' : List Event) : pushes (t ++ t') = pushes t ++ pushes t' :=
  List.filterMap_append

theorem pops_append (t t' : List Event) : pops (t ++ t') = pops t ++ pops t' :=
  List.filterMap_append

theorem sends_append (h : Addr) (t t' : List Event) :
    sends h (t ++ t') = sends h t ++ sends h t' := List.filterMap_append

theorem popCount_eq (trace : List Event) : Broadcast.popCount trace = (pops trace).length := by
  induction trace with
  | nil => rfl
  | cons e t ih =>
    cases e <;> simp_all [Broadcast.popCount, pops]

/-- The message that the broadcast thread is working on. -/
def BroadcastPc.item : BroadcastPc → Option Item
  | .rewind item | .check item | .next item | .testNick item _ | .testSocket item _
  | .write item _ _ | .drop item _ | .free item => some item
  | .pop | .unlink _ _ | .sleep | .exited => none

/-- The invariant of the queue and of the broadcast thread. -/
structure Ordered (s : State) : Prop where
  /-- Nothing happens before the queue is created. -/
  start : s.acceptor = .newList ∨ s.acceptor = .newQueue →
    s.messages = none ∧ pushes s.trace = [] ∧ pops s.trace = []
  /-- What was pushed was popped, or is in the queue. -/
  queue : ∀ f, s.messages = some f → pushes s.trace = pops s.trace ++ f.contents.map Prod.fst
  /-- What was popped was pushed. -/
  popped : pops s.trace <+: pushes s.trace
  /-- The current message is the one that was popped last. -/
  current : ∀ item, s.broadcast.item = some item → item.seq + 1 = (pops s.trace).length ∧
    (pops s.trace)[item.seq]? = some item.message
  /-- What was sent was popped. -/
  sent : ∀ h, ∀ x ∈ sends h s.trace, (pops s.trace)[x.1]? = some x.2
  /-- Messages were sent in the order of pops. -/
  sorted : ∀ h, (sends h s.trace).Pairwise fun x y => x.1 ≤ y.1

variable {s s' : State}

theorem ordered_init (n : ℕ) : Ordered (.init n) where
  start := fun _ => ⟨rfl, rfl, rfl⟩
  queue := by simp [State.init]
  popped := List.nil_prefix
  current := by simp [State.init, BroadcastPc.item]
  sent := by simp [State.init, sends]
  sorted := by simp [State.init, sends]

/-- The trace seen from the queue and from the clients has not changed. -/
structure SameOrder (s s' : State) : Prop where
  pushes : pushes s'.trace = pushes s.trace
  pops : pops s'.trace = pops s.trace
  sends : ∀ h, sends h s'.trace = sends h s.trace

theorem Ordered.of_same (hs : Ordered s) (htrace : SameOrder s s')
    (hstart : s'.acceptor = .newList ∨ s'.acceptor = .newQueue →
      (s.acceptor = .newList ∨ s.acceptor = .newQueue) ∧ s'.messages = s.messages)
    (hqueue : ∀ f, s'.messages = some f → s.messages = some f)
    (hitem : ∀ item, s'.broadcast.item = some item → s.broadcast.item = some item) :
    Ordered s' where
  start h := by
    obtain ⟨hs', hm⟩ := hstart h
    rw [hm, htrace.pushes, htrace.pops]
    exact hs.start hs'
  queue f hf := by
    rw [htrace.pushes, htrace.pops]
    exact hs.queue f (hqueue f hf)
  popped := by
    rw [htrace.pushes, htrace.pops]
    exact hs.popped
  current item h := by
    rw [htrace.pops]
    exact hs.current item (hitem item h)
  sent h x hx := by
    rw [htrace.sends] at hx
    rw [htrace.pops]
    exact hs.sent h x hx
  sorted h := by
    rw [htrace.sends]
    exact hs.sorted h

/-- Effects that neither touch the queue nor are seen by the receivers of
broadcasts. -/
def Effect.ordinary : Effect → Bool
  | .push _ | .pop _ _ | .newQueue | .freeQueue | .wrote _ (.broadcast _) _ _ _ => false
  | _ => true

theorem sameOrder_apply {e : Effect} (he : e.ordinary = true) :
    SameOrder s (s.apply e) ∧ (s.apply e).messages = s.messages := by
  have hevents : pushes (e.events s.messages) = [] ∧ pops (e.events s.messages) = [] ∧
      ∀ h, sends h (e.events s.messages) = [] := by
    cases e with
    | wrote h who m bytes last =>
      cases who with
      | client => exact ⟨rfl, rfl, fun _ => rfl⟩
      | broadcast seq => simp [Effect.ordinary] at he
    | push | pop => simp [Effect.ordinary] at he
    | _ => exact ⟨rfl, rfl, fun _ => rfl⟩
  refine ⟨⟨?_, ?_, fun h => ?_⟩, ?_⟩
  · rw [s.trace_apply, pushes_append, hevents.1, List.append_nil]
  · rw [s.trace_apply, pops_append, hevents.2.1, List.append_nil]
  · rw [s.trace_apply, sends_append, hevents.2.2, List.append_nil]
  · apply State.messages_apply <;> intros <;> rintro rfl <;> simp [Effect.ordinary] at he

/-! ### The steps -/

/-- Pushing: the message is now the last one. -/
theorem Ordered.push (hs : Ordered s) (m : C2HMessage)
    (hacc : s'.acceptor = s.acceptor) (hbc : s'.broadcast = s.broadcast)
    (hmessages : s'.messages = (s.apply (.push m)).messages)
    (htrace : s'.trace = (s.apply (.push m)).trace) : Ordered s' := by
  rw [s.trace_apply] at htrace
  cases hq : s.messages with
  | none =>
    -- there is no queue, and nothing is pushed
    have hnone : s'.messages = none := by
      rw [hmessages]
      simp [State.apply, CQueue.push, hq]
    have hsame : s'.trace = s.trace := by
      rw [htrace, hq]
      exact List.append_nil _
    refine hs.of_same ⟨by rw [hsame], by rw [hsame], fun h => by rw [hsame]⟩ ?_ ?_ ?_
    · exact fun h => ⟨hacc ▸ h, by rw [hnone, hq]⟩
    · simp [hnone]
    · exact fun item h => hbc ▸ h
  | some f =>
    have hsome : s'.messages = some (f.enqueue m sizeofMessage) := by
      rw [hmessages]
      simp [State.apply, CQueue.push, hq, State.record]
    have htrace' : s'.trace = s.trace ++ [.pushed m] := by
      rw [htrace, hq]
      rfl
    have hpushes : pushes s'.trace = pushes s.trace ++ [m] := by
      rw [htrace', pushes_append]
      rfl
    have hpops : pops s'.trace = pops s.trace := by
      rw [htrace', pops_append]
      exact List.append_nil _
    have hsends : ∀ h, sends h s'.trace = sends h s.trace := by
      intro h
      rw [htrace', sends_append]
      exact List.append_nil _
    refine ⟨fun h => ?_, fun f' hf' => ?_, ?_, fun item h => ?_, fun h x hx => ?_, fun h => ?_⟩
    · have := (hs.start (hacc ▸ h)).1
      rw [hq] at this
      cases this
    · rw [hsome] at hf'
      cases hf'
      rw [hpushes, hpops, hs.queue f hq, Fifo.contents_enqueue]
      simp
    · rw [hpushes, hpops]
      exact hs.popped.trans (List.prefix_append _ _)
    · rw [hpops]
      exact hs.current item (hbc ▸ h)
    · rw [hpops]
      rw [hsends] at hx
      exact hs.sent h x hx
    · rw [hsends]
      exact hs.sorted h

/-- Popping: the message was the first one of the queue. -/
theorem Ordered.pop (hs : Ordered s) {m : C2HMessage} {n : ℕ} {rest : Option (Fifo C2HMessage)}
    (hpop : CQueue.tryPop s.messages = .ok (some (m, n), rest)) :
    Ordered { s.apply (.pop m rest) with
      broadcast := .rewind ⟨Broadcast.popCount s.trace, m⟩ } := by
  cases hq : s.messages with
  | none => rw [hq] at hpop; cases hpop
  | some f =>
    rw [hq] at hpop
    obtain ⟨f', heq, hcontents⟩ := CQueue.tryPop_cases hpop
    obtain ⟨hhead, rfl⟩ : some (m, n) = f.contents.head? ∧ rest = some f' := by
      simpa using heq
    obtain ⟨t, ht⟩ := List.head?_eq_some_iff.mp hhead.symm
    rw [ht, List.tail_cons] at hcontents
    have hpushes : pushes (s.trace ++ [.popped m]) = pushes s.trace := by
      rw [pushes_append]
      exact List.append_nil _
    have hpops : pops (s.trace ++ [.popped m]) = pops s.trace ++ [m] := by
      rw [pops_append]
      rfl
    have hsends : ∀ h, sends h (s.trace ++ [.popped m]) = sends h s.trace := by
      intro h
      rw [sends_append]
      exact List.append_nil _
    have hqueue : pushes s.trace = pops s.trace ++ [m] ++ t.map Prod.fst := by
      rw [hs.queue f hq, ht]
      simp
    have hkeep : ∀ {i : ℕ} {x : C2HMessage}, (pops s.trace)[i]? = some x →
        (pops s.trace ++ [m])[i]? = some x := by
      intro i x hx
      rw [List.getElem?_append_left (List.getElem?_eq_some_iff.mp hx).1, hx]
    refine ⟨fun h => ?_, fun f'' hf'' => ?_, ?_, fun item h => ?_, fun h x hx => ?_, fun h => ?_⟩
    · have := (hs.start h).1
      rw [hq] at this
      cases this
    · cases hf''
      show pushes (s.trace ++ [.popped m]) = pops (s.trace ++ [.popped m]) ++ f'.contents.map Prod.fst
      rw [hpushes, hpops, hcontents, hqueue]
    · show pops (s.trace ++ [.popped m]) <+: pushes (s.trace ++ [.popped m])
      rw [hpushes, hpops, hqueue]
      exact List.prefix_append _ _
    · cases h
      show _ = (pops (s.trace ++ [.popped m])).length ∧ (pops (s.trace ++ [.popped m]))[_]? = _
      rw [hpops, popCount_eq]
      simp
    · change x ∈ sends h (s.trace ++ [.popped m]) at hx
      show (pops (s.trace ++ [.popped m]))[x.1]? = _
      rw [hsends] at hx
      rw [hpops]
      exact hkeep (hs.sent h x hx)
    · show (sends h (s.trace ++ [.popped m])).Pairwise _
      rw [hsends]
      exact hs.sorted h

/-- Sending: the current message has the highest number so far. -/
theorem Ordered.send (hs : Ordered s) {item : Item} (hitem : s.broadcast.item = some item)
    {pc : BroadcastPc} (hpc : pc.item = some item) (h₀ : Addr) (bytes : Bytes) (last : Bool) :
    Ordered { s.apply (.wrote h₀ (.broadcast item.seq) item.message bytes last) with
      broadcast := pc } := by
  obtain ⟨hseq, hmessage⟩ := hs.current item hitem
  have hpushes : pushes (s.trace ++ [.wrote h₀ (.broadcast item.seq) item.message bytes last]) =
      pushes s.trace := by
    rw [pushes_append]
    exact List.append_nil _
  have hpops : pops (s.trace ++ [.wrote h₀ (.broadcast item.seq) item.message bytes last]) =
      pops s.trace := by
    rw [pops_append]
    exact List.append_nil _
  have hsends : ∀ h, sends h (s.trace ++
      [.wrote h₀ (.broadcast item.seq) item.message bytes last]) =
        sends h s.trace ++ if h₀ = h then [(item.seq, item.message)] else [] := by
    intro h
    rw [sends_append]
    by_cases hh : h₀ = h <;> simp [sends, hh]
  refine ⟨fun h => ?_, fun f hf => ?_, ?_, fun item' h => ?_, fun h x hx => ?_, fun h => ?_⟩
  · show _ ∧ pushes (s.trace ++ _) = [] ∧ pops (s.trace ++ _) = []
    rw [hpushes, hpops]
    exact hs.start h
  · show pushes (s.trace ++ _) = pops (s.trace ++ _) ++ _
    rw [hpushes, hpops]
    exact hs.queue f hf
  · show pops (s.trace ++ _) <+: pushes (s.trace ++ _)
    rw [hpushes, hpops]
    exact hs.popped
  · obtain rfl : item' = item := by simpa [hpc] using h.symm
    show _ = (pops (s.trace ++ _)).length ∧ (pops (s.trace ++ _))[_]? = _
    rw [hpops]
    exact ⟨hseq, hmessage⟩
  · change x ∈ sends h (s.trace ++ _) at hx
    show (pops (s.trace ++ _))[x.1]? = _
    rw [hpops]
    rw [hsends] at hx
    rcases List.mem_append.mp hx with hx | hx
    · exact hs.sent h x hx
    · split at hx
      · rw [List.mem_singleton.mp hx]
        exact hmessage
      · cases hx
  · show (sends h (s.trace ++ _)).Pairwise _
    rw [hsends, List.pairwise_append]
    refine ⟨hs.sorted h, by split <;> simp, fun x hx y hy => ?_⟩
    have hlt := (List.getElem?_eq_some_iff.mp (hs.sent h x hx)).1
    split at hy
    · rw [List.mem_singleton.mp hy]
      omega
    · cases hy

theorem Ordered.acceptor (hs : Ordered s) {e : Effect} {pc₀ pc : AcceptorPc}
    (hpc : s.acceptor = pc₀) (hstep : Acceptor.Step s pc₀ e pc) :
    Ordered { s.apply e with acceptor := pc } := by
  -- all but the creation and the destruction of the queue are ordinary
  have ordinary : e.ordinary = true →
      (pc = .newList ∨ pc = .newQueue → s.acceptor = .newList ∨ s.acceptor = .newQueue) →
      Ordered { s.apply e with acceptor := pc } := by
    intro he hstart
    obtain ⟨htrace, hmessages⟩ := sameOrder_apply (s := s) he
    exact hs.of_same ⟨htrace.pushes, htrace.pops, htrace.sends⟩ (fun h => ⟨hstart h, hmessages⟩)
      (fun f hf => hmessages ▸ hf) (fun item h => s.apply_broadcast e ▸ h)
  cases hstep with
  | fault => exact ordinary rfl fun h => hpc ▸ h
  | newList => exact ordinary rfl fun _ => Or.inl hpc
  | newQueue =>
    obtain ⟨-, hpushes, hpops⟩ := hs.start (Or.inr hpc)
    refine ⟨fun h => by simp at h, fun f hf => ?_, hs.popped, hs.current, hs.sent, hs.sorted⟩
    cases hf
    show pushes s.trace = pops s.trace ++ _
    rw [hpushes, hpops]
    rfl
  | queueFreed _ =>
    exact ⟨fun h => by simp at h, fun f hf => (by cases hf), hs.popped, hs.current, hs.sent,
      hs.sorted⟩
  | move hmove =>
    refine ordinary rfl fun h => ?_
    cases hmove <;> simp at h
  | _ => exact ordinary rfl fun h => by simp at h

theorem Ordered.broadcast (hs : Ordered s) {b : BroadcastAction} {e : Effect}
    {pc₀ pc : BroadcastPc} (hpc : s.broadcast = pc₀) (hstep : Broadcast.Step s pc₀ b e pc) :
    Ordered { s.apply e with broadcast := pc } := by
  have ordinary : e.ordinary = true →
      (∀ item, pc.item = some item → s.broadcast.item = some item) →
      Ordered { s.apply e with broadcast := pc } := by
    intro he hitem
    obtain ⟨htrace, hmessages⟩ := sameOrder_apply (s := s) he
    exact hs.of_same ⟨htrace.pushes, htrace.pops, htrace.sends⟩
      (fun h => ⟨s.apply_acceptor e ▸ h, hmessages⟩) (fun f hf => hmessages ▸ hf) hitem
  cases hstep with
  | popped hpop => exact hs.pop hpop
  | wrote _ _ _ => exact hs.send (by rw [hpc]; rfl) rfl _ _ _
  | sent _ _ => exact hs.send (by rw [hpc]; rfl) rfl _ _ _
  | _ =>
    refine ordinary rfl fun item h => ?_
    rw [hpc]
    first | exact h | cases h

theorem Ordered.client (hs : Ordered s) {h : Addr} {me : BitVec 64} {b : ClientAction}
    {pc pc' : Pc} {e : Effect} (hstep : ClientThread.Step s h me pc b e pc')
    (threads : Addr → Option Thread) : Ordered { s.apply e with threads := threads } := by
  have ordinary : e.ordinary = true → Ordered { s.apply e with threads := threads } := by
    intro he
    obtain ⟨htrace, hmessages⟩ := sameOrder_apply (s := s) he
    exact hs.of_same ⟨htrace.pushes, htrace.pops, htrace.sends⟩
      (fun h => ⟨s.apply_acceptor e ▸ h, hmessages⟩) (fun f hf => hmessages ▸ hf)
      (fun item h => s.apply_broadcast e ▸ h)
  cases hstep with
  | pushed _ => exact hs.push _ (s.apply_acceptor _) (s.apply_broadcast _) rfl rfl
  | _ => exact ordinary rfl

/-- **The invariant holds in every state of every run.** -/
theorem ordered_of_reachable {n : ℕ} (hreach : Reachable step (.init n) s) : Ordered s := by
  refine hreach.invariant (ordered_init n) fun {s a s'} hs hstep => ?_
  cases step_taken hstep with
  | stop => exact ⟨hs.start, hs.queue, hs.popped, hs.current, hs.sent, hs.sorted⟩
  | acceptor hpc hacc => exact hs.acceptor hpc hacc
  | broadcast hpc hbc => exact hs.broadcast hpc hbc
  | client _ hcl => exact hs.client hcl _

/-- **Queue order and conservation.**  In every state of every run, the messages
popped are the first ones pushed, and the others are still in the queue, in order,
as long as there is one.  What a client was sent are pushed messages, and no message
was sent after one that had been pushed later. -/
theorem message_order {n : ℕ} (hreach : Reachable step (.init n) s) :
    pops s.trace <+: pushes s.trace ∧
      (∀ f, s.messages = some f → pushes s.trace = pops s.trace ++ f.contents.map Prod.fst) ∧
      ∀ h, (∀ x ∈ sends h s.trace, (pushes s.trace)[x.1]? = some x.2) ∧
        (sends h s.trace).Pairwise fun x y => x.1 ≤ y.1 := by
  have hs := ordered_of_reachable hreach
  refine ⟨hs.popped, hs.queue, fun h => ⟨fun x hx => ?_, hs.sorted h⟩⟩
  have hget := hs.sent h x hx
  obtain ⟨t, ht⟩ := hs.popped
  rw [← ht, List.getElem?_append_left (List.getElem?_eq_some_iff.mp hget).1, hget]

/-- The announcements of Joe and Ann are pushed, the first one is popped and sent to
both. -/
theorem message_order_joeAndAnn :
    ∃ s, Reachable step (.init 2) s ∧ (pushes s.trace).length = 2 ∧ (pops s.trace).length = 1 ∧
      (sends 0 s.trace).length = 1 ∧ (sends 1 s.trace).length = 1 ∧
      pops s.trace <+: pushes s.trace := by
  obtain ⟨s, hreach, hs⟩ : ∃ s, Reachable step (.init 2) s ∧
      ((pushes s.trace).length == 2 && (pops s.trace).length == 1 &&
        (sends 0 s.trace).length == 1 && (sends 1 s.trace).length == 1) = true :=
    Reachable.of_any (Script.joeAndAnn ++ Script.pop ++ Script.fetch ++
      Script.deliver (Script.text (Server.joined (str "Joe"))) ++ Script.fetch ++
      Script.deliver (Script.text (Server.joined (str "Joe")))) (by decide +kernel)
  simp only [Bool.and_eq_true, beq_iff_eq] at hs
  obtain ⟨⟨⟨hpushes, hpops⟩, hjoe⟩, hann⟩ := hs
  exact ⟨s, hreach, hpushes, hpops, hjoe, hann, (message_order hreach).1⟩

end C2Hat
