import C2Hat.Server.Handshake
import C2Hat.Server.Spawn

/-!
# Clients without a nickname

The nickname of an entry is what tells the broadcast thread that a client may be sent
messages, and the thread of the client is the only one to store it, at the end of a
successful `Server_authenticate`.  Until then the client is kept apart: nothing is
broadcast to it, and nothing is broadcast in its name.

## Main definitions

* `Isolated` — the invariant for one client.

## Main results

* `isolated_until_stored` — **clients without a nickname are isolated** in the runs
  where threads begin after their identifiers were stored.
-/

namespace C2Hat

open Clib Runs

variable {s s' : State} {n : ℕ} {h : Addr}

/-! ### The invariant -/

/-- What depends on the nickname of client `h` comes after it was stored. -/
structure Isolated (h : Addr) (s : State) : Prop where
  /-- The thread is behind the authentication. -/
  thread : ∀ t, s.threads h = some t → t.pc.stage ≠ .early → .stored h ∈ s.trace
  /-- The entry has a nickname. -/
  named : .stored h ∉ s.trace → Unnamed s h
  /-- The broadcast thread has seen it. -/
  served : s.broadcast.serves h = true → .stored h ∈ s.trace
  /-- A message was broadcast to the client. -/
  written : ∀ pre seq m bytes last,
    pre ++ [.wrote h (.broadcast seq) m bytes last] <+: s.trace → .stored h ∈ pre

theorem isolated_init : Isolated h (.init n) where
  thread t ht := by cases ht
  named _ c hc := by cases hc
  served hserves := by cases hserves
  written pre seq m bytes last hpre := by
    have hlen := hpre.length_le
    simp [State.init] at hlen

/-- An effect records at most one event. -/
theorem events_cases (e : Effect) (queue : Option (Fifo C2HMessage)) :
    e.events queue = [] ∨ ∃ event, e.events queue = [event] := by
  cases e with
  | push m =>
    cases queue with
    | none => exact Or.inl rfl
    | some f => exact Or.inr ⟨_, rfl⟩
  | pop | setNickname | wrote => exact Or.inr ⟨_, rfl⟩
  | _ => exact Or.inl rfl

theorem stored_mem_apply {e : Effect} (hstored : .stored h ∈ s.trace) :
    .stored h ∈ (s.apply e).trace := by
  rw [s.trace_apply]
  exact List.mem_append_left _ hstored

/-- What has been broadcast to the client after a step. -/
theorem Isolated.written_apply (hs : Isolated h s) {e : Effect}
    (hwrote : ∀ seq m bytes last, e = .wrote h (.broadcast seq) m bytes last →
      .stored h ∈ s.trace) (pre : List Event) (seq : ℕ) (m : C2HMessage) (bytes : Bytes)
    (last : Bool) (hpre : pre ++ [.wrote h (.broadcast seq) m bytes last] <+: (s.apply e).trace) :
    .stored h ∈ pre := by
  rw [s.trace_apply] at hpre
  rcases events_cases e s.messages with hev | ⟨event, hev⟩
  · rw [hev, List.append_nil] at hpre
    exact hs.written pre seq m bytes last hpre
  · rw [hev] at hpre
    rcases List.prefix_concat_iff.mp hpre with heq | hpre
    · -- this is the message
      obtain ⟨rfl, hevent⟩ := List.append_inj' heq rfl
      refine hwrote seq m bytes last ?_
      rw [← hevent] at hev
      cases e with
      | wrote => simpa [Effect.events] using hev
      | push =>
        simp only [Effect.events] at hev
        split at hev <;> cases hev
      | _ => cases hev
    · exact hs.written pre seq m bytes last hpre

/-! ### Steps -/

theorem Isolated.acceptor (hs : Isolated h s) {e : Effect} {pc₀ pc : AcceptorPc}
    (hacc : Acceptor.Step s pc₀ e pc) : Isolated h { s.apply e with acceptor := pc } := by
  obtain ⟨hhears, happend⟩ := hacc.hears h
  refine ⟨?_, ?_, ?_, ?_⟩
  · intro t ht hstage
    change (s.apply e).threads h = some t at ht
    refine stored_mem_apply ?_
    cases hacc with
    | @spawned h₀ me =>
      rcases State.threads_update ht with ⟨-, rfl⟩ | ⟨-, ht⟩
      · exact absurd rfl hstage
      · exact hs.thread t ht hstage
    | _ => exact hs.thread t ht hstage
  · intro hstored
    refine unnamed_apply (hs.named fun hmem => hstored ?_) hhears happend
    exact stored_mem_apply hmem
  · intro hserves
    exact stored_mem_apply (hs.served (by simpa using hserves))
  · refine hs.written_apply ?_
    rintro seq m bytes last rfl
    simp [Effect.hears] at hhears

theorem Isolated.broadcast (hs : Isolated h s) {b : BroadcastAction} {e : Effect}
    {pc₀ pc : BroadcastPc} (hpc : s.broadcast = pc₀) (hbc : Broadcast.Step s pc₀ b e pc) :
    Isolated h { s.apply e with broadcast := pc } := by
  have hthreads := s.apply_threads hbc.not_acceptorOnly
  -- a client that hears of this has been seen to have a nickname
  have hheard : e.hears h = true → .stored h ∈ s.trace := by
    intro he
    rcases hbc.hears (h := h) with hquiet | ⟨⟨item, rest, who, m, bytes, last, rfl, -⟩, -⟩
    · rw [he] at hquiet
      cases hquiet
    · exact hs.served (by simp [hpc, BroadcastPc.serves])
  refine ⟨?_, ?_, ?_, ?_⟩
  · intro t ht hstage
    exact stored_mem_apply (hs.thread t (hthreads ▸ ht) hstage)
  · intro hstored
    have hnot : .stored h ∉ s.trace := fun hmem => hstored (stored_mem_apply hmem)
    refine unnamed_apply (hs.named hnot) (Bool.eq_false_iff.mpr fun he => hnot (hheard he)) ?_
    rintro c rfl
    cases hbc
  · intro hserves
    refine stored_mem_apply ?_
    rcases hbc.serves hserves with hserved | ⟨c, hc, hnick⟩
    · exact hs.served (hpc ▸ hserved)
    · by_contra hstored
      exact hnick (hs.named hstored c hc)
  · refine hs.written_apply ?_
    rintro seq m bytes last rfl
    exact hheard (by simp [Effect.hears])

/-- A thread gets behind the authentication by storing the nickname, or by returning from
`Server_dropClient`. -/
theorem early_of_step {me : BitVec 64} {b : ClientAction} {e : Effect} {pc₀ pc : Pc}
    (hcl : ClientThread.Step s h me pc₀ b e pc) (hearly : pc₀.stage = .early) :
    pc.stage = .early ∨ (∃ nick, e = .setNickname h nick) ∨
      pc₀ ≠ .start ∧ ∃ c, s.entry h = some c ∧ c.threadID = 0 := by
  cases hcl with
  | fault => exact Or.inl hearly
  | move hmove => exact Or.inl (by cases hmove <;> exact hearly)
  | read hmove => exact Or.inl (by cases hmove <;> exact hearly)
  | @built p => exact Or.inl (by cases p <;> first | exact hearly | cases hearly)
  | @wrote p => exact Or.inl (by cases p <;> first | exact hearly | cases hearly)
  | @sent p => exact Or.inl (by cases p <;> first | exact hearly | cases hearly)
  | @failed p => exact Or.inl (by cases p <;> first | exact hearly | cases hearly)
  | nickFree | threadKnown => exact Or.inl rfl
  | stored => exact Or.inr (Or.inl ⟨_, rfl⟩)
  | pushed hpush => cases hpush <;> cases hearly
  | freed hc hid => exact Or.inr (Or.inr ⟨by simp, _, hc, hid⟩)
  | removed => exact Or.inl hearly

/-- The effect that stores a nickname is recorded. -/
theorem stored_mem_setNickname (s : State) (h : Addr) (nick : CStr) :
    .stored h ∈ (s.apply (.setNickname h nick)).trace := by
  rw [s.trace_apply]
  exact List.mem_append_right _ (List.mem_singleton.mpr rfl)

/-- A step of the client's own thread. -/
theorem Isolated.own (hs : Isolated h s) {me : BitVec 64} {b : ClientAction} {e : Effect}
    {pc₀ pc : Pc} (ht : s.threads h = some ⟨me, pc₀⟩) (hcl : ClientThread.Step s h me pc₀ b e pc)
    (hid : ∀ c, s.entry h = some c → pc₀ ≠ .start → c.threadID ≠ 0) : Isolated h
      { s.apply e with threads := Function.update s.threads h (some ⟨me, pc⟩) } := by
  refine ⟨?_, ?_, ?_, ?_⟩
  · intro t ht' hstage
    change Function.update s.threads h _ h = some t at ht'
    rw [Function.update_self] at ht'
    cases ht'
    by_cases hearly : pc₀.stage = .early
    · rcases early_of_step hcl hearly with hstill | ⟨nick, rfl⟩ | ⟨hstart, c, hc, hzero⟩
      · exact absurd hstill hstage
      · exact stored_mem_setNickname s h nick
      · exact absurd hzero (hid c hc hstart)
    · exact stored_mem_apply (hs.thread _ ht hearly)
  · intro hstored
    have hunnamed : Unnamed s h := hs.named fun hmem => hstored (stored_mem_apply hmem)
    cases hcl with
    | wrote => exact hunnamed
    | sent => exact hunnamed
    | stored => exact absurd (stored_mem_setNickname s h _) hstored
    | _ => exact unnamed_apply hunnamed rfl (by simp)
  · intro hserves
    exact stored_mem_apply (hs.served (by simpa using hserves))
  · refine hs.written_apply ?_
    rintro seq m bytes last rfl
    cases hcl

/-- A step of the thread of another client. -/
theorem Isolated.other (hs : Isolated h s) {h₀ : Addr} (hne : h ≠ h₀) {me : BitVec 64}
    {b : ClientAction} {e : Effect} {pc₀ pc : Pc} (hcl : ClientThread.Step s h₀ me pc₀ b e pc) :
    Isolated h { s.apply e with threads := Function.update s.threads h₀ (some ⟨me, pc⟩) } := by
  have hhears : e.hears h = false := by
    cases hcl <;> first | rfl | simp [Effect.hears, Ne.symm hne]
  refine ⟨?_, ?_, ?_, ?_⟩
  · intro t ht hstage
    change Function.update s.threads h₀ _ h = some t at ht
    rw [Function.update_of_ne hne] at ht
    exact stored_mem_apply (hs.thread t ht hstage)
  · intro hstored
    refine unnamed_apply (hs.named fun hmem => hstored (stored_mem_apply hmem)) hhears ?_
    rintro c rfl
    cases hcl
  · intro hserves
    exact stored_mem_apply (hs.served (by simpa using hserves))
  · refine hs.written_apply ?_
    rintro seq m bytes last rfl
    cases hcl

theorem isolated_of_reachable
    (hreach : Reachable (restrict step fun s a => StartsStored s a = true) (.init n) s) :
    Isolated h s := by
  refine hreach.invariant_along isolated_init ?_
  intro s₁ a s₂ hr hs hstep
  obtain ⟨-, hstep⟩ := restrict_eq_some.mp hstep
  cases step_taken hstep with
  | stop => exact ⟨hs.thread, hs.named, hs.served, hs.written⟩
  | acceptor _ hacc => exact hs.acceptor hacc
  | broadcast hpc hbc => exact hs.broadcast hpc hbc
  | @client h₀ me _ _ pc₀ _ ht hcl =>
    by_cases hh : h = h₀
    · subst hh
      refine hs.own ht hcl ?_
      intro c hc hstart
      have hids := identifiers_of_reachable hr.of_restrict
      exact (threadID_of_started hids (started_of_reachable hr) ht hstart hc).2
    · exact hs.other hh hcl

end C2Hat
