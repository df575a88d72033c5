import C2Hat.Server.Invariants

/-!
# The handshake

A client that has sent its nickname waits for the reply of its thread, and takes
anything but `/ok` for a failure.  The nickname is what makes it a recipient of
broadcasts, and it is stored before the reply is sent.

## Main definitions

* `sinceStored` — what a client was sent since its nickname was stored.
* `Stage` — how far a thread is with its reply.
* `RepliesFirst` — the broadcast thread does not write to a client that has a nickname
  and no reply yet.

## Main results

* `reply_first` — **the first frame after an accepted nickname is the reply `/ok`**, in
  the runs where the broadcast thread waits for it.
-/

namespace C2Hat

open Clib Runs

variable {s s' : State} {n : ℕ} {h : Addr}

/-! ### The bytes since the nickname was stored -/

/-- One event, seen by a client. -/
def heard (h : Addr) (since : Option Bytes) : Event → Option Bytes
  | .stored h' => if h' = h then some [] else since
  | .wrote h' _ _ bytes _ => if h' = h then since.map (· ++ bytes) else since
  | _ => since

/-- What a client was sent since its nickname was stored, `none` before that. -/
def sinceStored (h : Addr) (trace : List Event) : Option Bytes := trace.foldl (heard h) none

theorem sinceStored_setNickname (s : State) (h : Addr) (nick : CStr) :
    sinceStored h (s.apply (.setNickname h nick)).trace = some [] := by
  rw [s.trace_apply, sinceStored, List.foldl_append]
  simp [Effect.events, heard]

theorem sinceStored_wrote (s : State) (h : Addr) (who : Writer) (m : C2HMessage) (bytes : Bytes)
    (last : Bool) : sinceStored h (s.apply (.wrote h who m bytes last)).trace =
      (sinceStored h s.trace).map (· ++ bytes) := by
  rw [s.trace_apply, sinceStored, List.foldl_append]
  simp [Effect.events, heard, sinceStored]

/-- The effects that a client hears of. -/
def Effect.hears (h : Addr) : Effect → Bool
  | .setNickname h' _ | .wrote h' _ _ _ _ => h' == h
  | _ => false

theorem sinceStored_apply {e : Effect} (he : e.hears h = false) :
    sinceStored h (s.apply e).trace = sinceStored h s.trace := by
  rw [s.trace_apply, sinceStored, List.foldl_append, sinceStored]
  cases e with
  | setNickname h' nick =>
    have hne : h' ≠ h := by simpa [Effect.hears] using he
    simp [Effect.events, heard, hne]
  | wrote h' who m bytes last =>
    have hne : h' ≠ h := by simpa [Effect.hears] using he
    simp [Effect.events, heard, hne]
  | push m =>
    simp only [Effect.events]
    split <;> rfl
  | _ => rfl

/-! ### Stages -/

/-- How far a client's thread is with the reply to the nickname. -/
inductive Stage
  /-- The nickname is not stored yet. -/
  | early
  /-- It is stored, and the reply is still to be built; the reply is being sent; or
  sending it has failed. -/
  | ready
  | sending (m : C2HMessage) (rest : Bytes)
  | failed
  /-- The reply was sent. -/
  | joined
  deriving DecidableEq

/-- The stage of a thread that sends a message. -/
def Purpose.stage : Purpose → Stage
  | .welcome | .prompt | .authTimeout | .invalidNick | .authFailed => .early
  | .hello => .ready
  | .ack _ | .chatTimeout => .joined

/-- The stage of a thread that drops its client. -/
def Site.stage : Site → Stage
  | .mismatch | .welcome | .auth => .early
  | .hello => .failed
  | .leave => .joined

/-- The stage of a thread. -/
def Pc.stage : Pc → Stage
  | .start | .authWait | .validate _ | .lookupNick _ | .lookupThread _ | .storeNick _ => .early
  | .build purpose => purpose.stage
  | .write .hello m rest => .sending m rest
  | .write purpose _ _ => purpose.stage
  | .announceJoin | .chat | .chatWait | .drain | .relay _ | .announceLeave => .joined
  | .drop site | .unlink site _ | .exited site => site.stage

/-- The client waits for its reply. -/
def Stage.answering : Stage → Bool
  | .ready | .sending _ _ | .failed => true
  | .early | .joined => false

/-- When the broadcast thread is about to write to the client, the client does not wait
for its reply. -/
def RepliesFirst (h : Addr) (s : State) (a : Action) : Bool :=
  match a, s.broadcast with
  | .broadcast _, .write _ h' _ => h' != h || (s.threads h).all fun t => !t.pc.stage.answering
  | _, _ => true

/-! ### The invariant -/

/-- The bytes are the first part of a reply, or a reply with something behind it. -/
def Greeted (since : Option Bytes) : Prop :=
  ∀ b, since = some b → ∃ m : C2HMessage, m.type = .ok ∧
    (b <+: Server.frame m ∨ Server.frame m <+: b)

/-- What a client has heard, for the stage of its thread. -/
def Live (since : Option Bytes) (unnamed : Prop) : Stage → Prop
  | .early => since = none ∧ unnamed
  | .ready => since = some []
  | .sending m rest => m.type = .ok ∧ ∃ b, since = some b ∧ b ++ rest = Server.frame m
  | .failed => ∃ b m, since = some b ∧ m.type = .ok ∧ b <+: Server.frame m
  | .joined => ∃ b m, since = some b ∧ m.type = .ok ∧ Server.frame m <+: b

theorem Live.greeted {since : Option Bytes} {unnamed : Prop} {stage : Stage}
    (hlive : Live since unnamed stage) : Greeted since := by
  intro b hb
  cases stage with
  | early =>
    rw [hlive.1] at hb
    cases hb
  | ready =>
    cases hlive.symm.trans hb
    exact ⟨⟨.ok, CStr.empty, CStr.empty⟩, rfl, Or.inl List.nil_prefix⟩
  | sending m rest =>
    obtain ⟨hm, b', hb', hframe⟩ := hlive
    cases hb'.symm.trans hb
    exact ⟨m, hm, Or.inl ⟨rest, hframe⟩⟩
  | failed =>
    obtain ⟨b', m, hb', hm, hpre⟩ := hlive
    cases hb'.symm.trans hb
    exact ⟨m, hm, Or.inl hpre⟩
  | joined =>
    obtain ⟨b', m, hb', hm, hpre⟩ := hlive
    cases hb'.symm.trans hb
    exact ⟨m, hm, Or.inr hpre⟩

theorem Live.mono {since : Option Bytes} {unnamed unnamed' : Prop} {stage : Stage}
    (hlive : Live since unnamed stage) (himp : unnamed → unnamed') :
    Live since unnamed' stage := by
  cases stage with
  | early => exact ⟨hlive.1, himp hlive.2⟩
  | _ => exact hlive

/-- More is sent to a client outside of the reply. -/
theorem Live.wrote {since : Option Bytes} {unnamed : Prop} {stage : Stage}
    (hlive : Live since unnamed stage) (hstage : stage.answering = false) (bytes : Bytes) :
    Live (since.map (· ++ bytes)) unnamed stage := by
  cases stage with
  | early => exact ⟨by rw [hlive.1]; rfl, hlive.2⟩
  | joined =>
    obtain ⟨b, m, hb, hm, hpre⟩ := hlive
    exact ⟨b ++ bytes, m, by rw [hb]; rfl, hm, hpre.trans (List.prefix_append _ _)⟩
  | _ => cases hstage

/-- The entry of the client has no nickname yet. -/
def Unnamed (s : State) (h : Addr) : Prop :=
  ∀ c, s.entry h = some c → c.nickname.bytes.length = 0

/-- Nothing can be sent to the client any more. -/
def Dead (s : State) (h : Addr) : Prop := ∀ c, s.entry h = some c → c.ssl = .freed

/-- The invariant for a client and its thread. -/
def Handshake (s : State) (h : Addr) : Option Thread → Prop
  | none => sinceStored h s.trace = none ∧ Unnamed s h
  | some t => (Dead s h ∧ Greeted (sinceStored h s.trace)) ∨
      Live (sinceStored h s.trace) (Unnamed s h) t.pc.stage

/-- The broadcast thread has seen that the client has a nickname. -/
def BroadcastPc.serves (h : Addr) : BroadcastPc → Bool
  | .testSocket _ h' | .write _ h' _ => h' == h
  | _ => false

/-- The nickname of the client was stored. -/
def Named (s : State) (h : Addr) : Prop :=
  ∃ t, s.threads h = some t ∧ (t.pc.stage ≠ .early ∨ Dead s h)

/-- The invariant. -/
structure Greeting (h : Addr) (s : State) : Prop where
  thread : Handshake s h (s.threads h)
  served : s.broadcast.serves h = true → Named s h

/-! ### Steps of other threads -/

theorem unnamed_apply {e : Effect} (hs : Unnamed s h) (he : e.hears h = false)
    (happend : ∀ c, e = .append c → c.nickname = CStr.empty) : Unnamed (s.apply e) h := by
  intro c' hc'
  rcases s.entry_apply_cases hc' with ⟨l, -, -, heq⟩ | ⟨c, hc, hkeeps⟩
  · rw [happend c' heq]
    rfl
  · rcases hkeeps.nickname with heq | heq
    · rw [heq]
      exact hs c hc
    · subst heq
      simp [Effect.hears] at he

/-- The handle of a thread is not given out again, and a freed connection stays so. -/
theorem dead_apply (hdead : Dead s h) (hhandles : Handles s) {t : Thread}
    (ht : s.threads h = some t) (e : Effect) : Dead (s.apply e) h := by
  intro c' hc'
  rcases s.entry_apply_cases hc' with ⟨l, hl, hfresh, -⟩ | ⟨c, hc, hkeeps⟩
  · exact absurd hfresh (hhandles.ne_fresh ht l hl)
  · exact hkeeps.freed (hdead c hc)

/-- A step of which the client does not hear. -/
theorem Handshake.apply {e : Effect} (hs : Handshake s h (s.threads h)) (hhandles : Handles s)
    (he : e.hears h = false) (happend : ∀ c, e = .append c → c.nickname = CStr.empty) :
    Handshake (s.apply e) h (s.threads h) := by
  have hsince := sinceStored_apply (s := s) he
  cases ht : s.threads h with
  | none =>
    rw [ht] at hs
    exact ⟨hsince.trans hs.1, unnamed_apply hs.2 he happend⟩
  | some t =>
    rw [ht] at hs
    rcases hs with ⟨hdead, hgreeted⟩ | hlive
    · exact Or.inl ⟨dead_apply hdead hhandles ht e, by rw [hsince]; exact hgreeted⟩
    · refine Or.inr ?_
      rw [hsince]
      exact hlive.mono fun hunnamed => unnamed_apply hunnamed he happend

theorem Named.apply (hnamed : Named s h) (hhandles : Handles s) {e : Effect}
    (hthreads : s'.threads h = s.threads h) (hclients : s'.clients = (s.apply e).clients) :
    Named s' h := by
  obtain ⟨t, ht, hcase⟩ := hnamed
  refine ⟨t, hthreads.trans ht, hcase.imp_right fun hdead => ?_⟩
  intro c hc
  rw [State.entry, hclients] at hc
  exact dead_apply hdead hhandles ht e c hc

/-- What the acceptor does, nobody hears of. -/
theorem Acceptor.Step.hears {e : Effect} {pc₀ pc : AcceptorPc} (hacc : Acceptor.Step s pc₀ e pc)
    (h : Addr) : e.hears h = false ∧ ∀ c, e = .append c → c.nickname = CStr.empty := by
  cases hacc with
  | appended _ => exact ⟨rfl, fun c hc => by cases hc; rfl⟩
  | _ => exact ⟨rfl, by simp⟩

theorem Greeting.acceptor (hs : Greeting h s) (hhandles : Handles s) {e : Effect}
    {pc₀ pc : AcceptorPc} (hpc : s.acceptor = pc₀) (hacc : Acceptor.Step s pc₀ e pc) :
    Greeting h { s.apply e with acceptor := pc } := by
  obtain ⟨hhears, happend⟩ := hacc.hears h
  have hthread := hs.thread.apply hhandles hhears happend
  by_cases hspawn : ∃ me, e = .spawn h me
  · -- the thread of this client is created
    obtain ⟨me, rfl⟩ := hspawn
    obtain ⟨hnone, -⟩ : s.threads h = none ∧ (s.clients.isSome = true → h < s.fresh) := by
      cases hacc
      exact hhandles.spawning h hpc
    rw [hnone] at hthread
    refine ⟨?_, fun hserves => ?_⟩
    · show Handshake _ h (Function.update s.threads h _ h)
      rw [Function.update_self]
      exact Or.inr hthread
    · obtain ⟨t, ht, -⟩ := hs.served hserves
      rw [hnone] at ht
      cases ht
  · have hthreads : (s.apply e).threads h = s.threads h := by
      cases hacc with
      | @spawned h₀ me =>
        refine Function.update_of_ne ?_ _ _
        rintro rfl
        exact hspawn ⟨me, rfl⟩
      | _ => rfl
    refine ⟨?_, fun hserves => ?_⟩
    · show Handshake (s.apply e) h ((s.apply e).threads h)
      rw [hthreads]
      exact hthread
    · exact (hs.served (by simpa using hserves)).apply hhandles hthreads rfl

/-- The broadcast thread goes on to a client whose nickname it has seen. -/
theorem Broadcast.Step.serves {b : BroadcastAction} {e : Effect} {pc₀ pc : BroadcastPc}
    (hbc : Broadcast.Step s pc₀ b e pc) (hserves : pc.serves h = true) :
    pc₀.serves h = true ∨ ∃ c, s.entry h = some c ∧ c.nickname.bytes.length ≠ 0 := by
  cases hbc with
  | fault => exact Or.inl hserves
  | accepted hc hnick =>
    obtain rfl := eq_of_beq hserves
    exact Or.inr ⟨_, hc, hnick⟩
  | began _ => exact Or.inl hserves
  | wrote _ _ _ => exact Or.inl hserves
  | _ => cases hserves

/-- What the client hears of the broadcast thread, it hears through an open connection. -/
theorem Broadcast.Step.hears {b : BroadcastAction} {e : Effect} {pc₀ pc : BroadcastPc}
    (hbc : Broadcast.Step s pc₀ b e pc) : e.hears h = false ∨
      (∃ item rest who m bytes last, pc₀ = .write item h rest ∧ e = .wrote h who m bytes last) ∧
        ∃ c, s.entry h = some c ∧ c.ssl ≠ .freed := by
  cases hbc with
  | @wrote item x rest _ c hc hopen _ =>
    by_cases hx : x = h
    · subst hx
      exact Or.inr ⟨⟨item, rest, _, _, _, _, rfl, rfl⟩, c, hc, hopen⟩
    · exact Or.inl (by simp [Effect.hears, hx])
  | @sent item x rest c hc hopen =>
    by_cases hx : x = h
    · subst hx
      exact Or.inr ⟨⟨item, rest, _, _, _, _, rfl, rfl⟩, c, hc, hopen⟩
    · exact Or.inl (by simp [Effect.hears, hx])
  | _ => exact Or.inl rfl

/-- A client with a nickname has a thread that stored it. -/
theorem Handshake.named (hs : Handshake s h (s.threads h)) {c : Client} (hc : s.entry h = some c)
    (hnick : c.nickname.bytes.length ≠ 0) : Named s h := by
  cases ht : s.threads h with
  | none =>
    rw [ht] at hs
    exact absurd (hs.2 c hc) hnick
  | some t =>
    rw [ht] at hs
    refine ⟨t, ht, ?_⟩
    rcases hs with ⟨hdead, -⟩ | hlive
    · exact Or.inr hdead
    · refine Or.inl fun hearly => ?_
      rw [hearly] at hlive
      exact hnick (hlive.2 c hc)

theorem Greeting.broadcast (hs : Greeting h s) (hhandles : Handles s) {b : BroadcastAction}
    (hfirst : RepliesFirst h s (.broadcast b) = true) {e : Effect} {pc₀ pc : BroadcastPc}
    (hpc : s.broadcast = pc₀) (hbc : Broadcast.Step s pc₀ b e pc) :
    Greeting h { s.apply e with broadcast := pc } := by
  have hthreads := s.apply_threads hbc.not_acceptorOnly
  refine ⟨?_, fun hserves => ?_⟩
  · show Handshake (s.apply e) h ((s.apply e).threads h)
    rw [hthreads]
    rcases hbc.hears (h := h) with hhears | ⟨⟨item, rest, who, m, bytes, last, rfl, rfl⟩, c, hc, hopen⟩
    · refine hs.thread.apply hhandles hhears fun c hc => ?_
      subst hc
      cases hbc
    · -- the client has a nickname, and it has got its reply
      obtain ⟨t, ht, hnamed⟩ := hs.served (by simp [hpc, BroadcastPc.serves])
      have halive : ¬ Dead s h := fun hdead => hopen (hdead c hc)
      have hanswered : t.pc.stage.answering = false := by
        simpa [RepliesFirst, hpc, ht] using hfirst
      have hthread := hs.thread
      rw [ht] at hthread ⊢
      refine Or.inr ?_
      rw [sinceStored_wrote]
      exact (hthread.resolve_left fun hd => halive hd.1).wrote hanswered bytes
  · have hnamed : Named s h := by
      rcases hbc.serves hserves with hserved | ⟨c, hc, hnick⟩
      · exact hs.served (hpc ▸ hserved)
      · exact hs.thread.named hc hnick
    exact hnamed.apply hhandles (congrFun hthreads h) rfl

/-! ### Steps of the client's thread -/

/-- The thread of the client takes a step, with its connection open. -/
theorem Live.step {me : BitVec 64} {b : ClientAction} {e : Effect} {pc₀ pc : Pc}
    (hlive : Live (sinceStored h s.trace) (Unnamed s h) pc₀.stage)
    (hcl : ClientThread.Step s h me pc₀ b e pc) :
    (Dead (s.apply e) h ∧ Greeted (sinceStored h (s.apply e).trace)) ∨
      Live (sinceStored h (s.apply e).trace) (Unnamed (s.apply e) h) pc.stage := by
  -- steps of which the client does not hear, within a stage
  have quiet : e.hears h = false → pc.stage = pc₀.stage →
      (Dead (s.apply e) h ∧ Greeted (sinceStored h (s.apply e).trace)) ∨
        Live (sinceStored h (s.apply e).trace) (Unnamed (s.apply e) h) pc.stage := by
    intro he hstage
    refine Or.inr ?_
    rw [hstage, sinceStored_apply he]
    refine hlive.mono fun hunnamed => unnamed_apply hunnamed he fun c hc => ?_
    subst hc
    cases hcl
  cases hcl with
  | fault => exact quiet rfl rfl
  | move hmove => exact quiet rfl (by cases hmove <;> rfl)
  | read hmove => exact quiet rfl (by cases hmove <;> rfl)
  | @built p m htype =>
    cases p with
    | hello => exact Or.inr ⟨htype, [], hlive, rfl⟩
    | _ => exact quiet rfl rfl
  | @wrote p m rest k c hc hopen hk =>
    refine Or.inr ?_
    rw [sinceStored_wrote]
    cases p with
    | hello =>
      obtain ⟨hm, b, hb, hframe⟩ := hlive
      refine ⟨hm, b ++ rest.take k, by rw [hb]; rfl, ?_⟩
      rw [List.append_assoc, List.take_append_drop, hframe]
    | _ => exact Live.wrote hlive rfl _
  | @sent p m rest c hc hopen =>
    refine Or.inr ?_
    rw [sinceStored_wrote]
    cases p with
    | hello =>
      obtain ⟨hm, b, hb, hframe⟩ := hlive
      exact ⟨b ++ rest, m, by rw [hb]; rfl, hm, hframe ▸ List.prefix_refl _⟩
    | _ => exact Live.wrote hlive rfl _
  | @failed p m rest _ ha =>
    cases p with
    | hello =>
      obtain ⟨hm, b, hb, hframe⟩ := hlive
      exact Or.inr ⟨b, m, hb, hm, rest, hframe⟩
    | _ => exact quiet rfl rfl
  | nickFree _ _ => exact quiet rfl rfl
  | threadKnown => exact quiet rfl rfl
  | stored _ => exact Or.inr (sinceStored_setNickname s h _)
  | pushed hpush => exact quiet rfl (by cases hpush <;> rfl)
  | freed hc _ =>
    refine Or.inl ⟨fun c' hc' => ?_, ?_⟩
    · change (s.modifyClient h _).entry h = _ at hc'
      rw [State.entry_modifyClient, if_pos rfl] at hc'
      obtain ⟨c, -, rfl⟩ := Option.map_eq_some_iff.mp hc'
      rfl
    · rw [sinceStored_apply rfl]
      exact hlive.greeted
  | removed _ _ _ => exact quiet rfl rfl

/-- The thread of the client takes a step when its connection has been freed. -/
theorem greeted_of_dead {me : BitVec 64} {b : ClientAction} {e : Effect} {pc₀ pc : Pc}
    (hdead : Dead s h) (hgreeted : Greeted (sinceStored h s.trace))
    (hcl : ClientThread.Step s h me pc₀ b e pc) : Greeted (sinceStored h (s.apply e).trace) := by
  have quiet : e.hears h = false → Greeted (sinceStored h (s.apply e).trace) := by
    intro he
    rw [sinceStored_apply he]
    exact hgreeted
  cases hcl with
  | wrote hc hopen _ => exact absurd (hdead _ hc) hopen
  | sent hc hopen => exact absurd (hdead _ hc) hopen
  | stored _ =>
    rw [sinceStored_setNickname]
    exact Live.greeted (show Live (some []) True .ready from rfl)
  | _ => exact quiet rfl

/-- A nickname that was stored stays so. -/
theorem stage_ne_early {me : BitVec 64} {b : ClientAction} {e : Effect} {pc₀ pc : Pc}
    (hcl : ClientThread.Step s h me pc₀ b e pc) (hstage : pc₀.stage ≠ .early) :
    pc.stage ≠ .early := by
  cases hcl with
  | fault => exact hstage
  | move hmove => cases hmove <;> exact hstage
  | read hmove => cases hmove <;> exact hstage
  | @built p => cases p <;> first | exact hstage | exact nofun
  | @wrote p => cases p <;> first | exact hstage | exact nofun
  | @sent p => cases p <;> first | exact hstage | exact nofun
  | @failed p => cases p <;> first | exact hstage | exact nofun
  | nickFree | threadKnown => exact hstage
  | stored => exact nofun
  | pushed hpush => cases hpush <;> exact hstage
  | @freed site => cases site <;> first | exact hstage | exact nofun
  | removed => exact hstage

theorem Greeting.client (hs : Greeting h s) (hhandles : Handles s) {h₀ : Addr} {me : BitVec 64}
    {b : ClientAction} {e : Effect} {pc₀ pc : Pc} (ht : s.threads h₀ = some ⟨me, pc₀⟩)
    (hcl : ClientThread.Step s h₀ me pc₀ b e pc) : Greeting h
      { s.apply e with threads := Function.update s.threads h₀ (some ⟨me, pc⟩) } := by
  by_cases hh : h = h₀
  · subst hh
    have hthread := hs.thread
    rw [ht] at hthread
    refine ⟨?_, fun hserves => ?_⟩
    · show Handshake (s.apply e) h (Function.update s.threads h _ h)
      rw [Function.update_self]
      rcases hthread with ⟨hdead, hgreeted⟩ | hlive
      · exact Or.inl ⟨dead_apply hdead hhandles ht e, greeted_of_dead hdead hgreeted hcl⟩
      · exact Live.step hlive hcl
    · obtain ⟨t, ht', hnamed⟩ := hs.served (by simpa using hserves)
      cases ht.symm.trans ht'
      exact ⟨⟨me, pc⟩, Function.update_self _ _ _,
        hnamed.imp (stage_ne_early hcl) fun hdead => dead_apply hdead hhandles ht e⟩
  · -- the thread of another client
    have hhears : e.hears h = false := by
      cases hcl <;> first | rfl | simp [Effect.hears, Ne.symm hh]
    have hthreads : Function.update s.threads h₀ (some ⟨me, pc⟩) h = s.threads h :=
      Function.update_of_ne hh _ _
    refine ⟨?_, fun hserves => ?_⟩
    · show Handshake (s.apply e) h (Function.update s.threads h₀ _ h)
      rw [hthreads]
      refine hs.thread.apply hhandles hhears fun c hc => ?_
      subst hc
      cases hcl
    · exact (hs.served (by simpa using hserves)).apply hhandles hthreads rfl

/-- **The reply comes first** in every run where the broadcast thread does not write to
a client that waits for its reply: what the client is sent after its nickname was
accepted starts with a frame of type `/ok`. -/
theorem reply_first
    (hreach : Reachable (restrict step fun s a => RepliesFirst h s a = true) (.init n) s)
    {b : Bytes} (hb : sinceStored h s.trace = some b) :
    ∃ m : C2HMessage, m.type = .ok ∧ (b <+: Server.frame m ∨ Server.frame m <+: b) := by
  have hs : Greeting h s := by
    refine hreach.invariant_restrict ⟨⟨rfl, fun c hc => by cases hc⟩, fun hserves => ?_⟩
      fun hr hs hfirst hstep => ?_
    · cases hserves
    · cases step_taken hstep with
      | stop => exact ⟨hs.thread, hs.served⟩
      | acceptor hpc hacc => exact hs.acceptor (handles_of_reachable hr) hpc hacc
      | broadcast hpc hbc => exact hs.broadcast (handles_of_reachable hr) hfirst hpc hbc
      | client ht hcl => exact hs.client (handles_of_reachable hr) ht hcl
  have hthread := hs.thread
  cases ht : s.threads h with
  | none =>
    rw [ht] at hthread
    rw [hthread.1] at hb
    cases hb
  | some t =>
    rw [ht] at hthread
    rcases hthread with ⟨-, hgreeted⟩ | hlive
    · exact hgreeted b hb
    · exact hlive.greeted b hb

/-- Ann is sent the reply, and then the announcement of Joe. -/
theorem reply_first_ann :
    ∃ s b, Reachable (restrict step fun s a => RepliesFirst 1 s a = true) (.init 2) s ∧
      sinceStored 1 s.trace = some b ∧
      (Server.frame (Script.text (Server.hello (str "Ann")))).length < b.length ∧
      ∃ m : C2HMessage, m.type = .ok ∧ (b <+: Server.frame m ∨ Server.frame m <+: b) := by
  obtain ⟨s, hreach, hs⟩ : ∃ s,
      Reachable (restrict step fun s a => RepliesFirst 1 s a = true) (.init 2) s ∧
        (sinceStored 1 s.trace).any (fun b => decide
          ((Server.frame (Script.text (Server.hello (str "Ann")))).length < b.length)) = true :=
    Reachable.of_any (Script.joeAndAnn ++ Script.pop ++ Script.fetch ++
      Script.deliver (Script.text (Server.joined (str "Joe"))) ++ Script.fetch ++
      Script.deliver (Script.text (Server.joined (str "Joe")))) (by decide +kernel)
  simp only [Option.any_eq_true, decide_eq_true_eq] at hs
  obtain ⟨b, hb, hlen⟩ := hs
  exact ⟨s, b, hreach, hb, hlen, reply_first hreach hb⟩

/-- Ann's nickname is stored, and before her thread sends its reply the broadcast thread
sends her the announcement of Joe. -/
theorem not_reply_first_log :
    ∃ s b, Reachable step (.init 2) s ∧ sinceStored 1 s.trace = some b ∧
      b = Server.frame (Script.text (Server.joined (str "Joe"))) ∧
      ascii "/log" <+: b ∧
      ¬ ∃ m : C2HMessage, m.type = .ok ∧ (b <+: Server.frame m ∨ Server.frame m <+: b) := by
  obtain ⟨s, hreach, hs⟩ : ∃ s, Reachable step (.init 2) s ∧
      (sinceStored 1 s.trace == some (Server.frame (Script.text (Server.joined (str "Joe"))))) =
        true :=
    Reachable.of_any (Script.startUp ++ Script.connect 11 ++ Script.connect 12 ++
      Script.join 0 (str "Joe") ++ Script.enter 1 (str "Ann") ++ Script.authenticate 1 ++
      Script.pop ++ Script.fetch ++ Script.deliver (Script.text (Server.joined (str "Joe"))) ++
      Script.fetch ++ Script.deliver (Script.text (Server.joined (str "Joe"))))
      (by decide +kernel)
  have hlog : ascii "/log" <+: Server.frame (Script.text (Server.joined (str "Joe"))) :=
    Server.command_prefix_frame rfl
  refine ⟨s, _, hreach, beq_iff_eq.mp hs, rfl, hlog, ?_⟩
  rintro ⟨m, hm, hpre⟩
  -- the second bytes of the two commands differ
  have hok : ascii "/ok" <+: Server.frame m := Server.command_prefix_frame (by rw [hm]; rfl)
  obtain ⟨t, ht⟩ := hlog
  obtain ⟨u, hu⟩ := hok
  rw [← ht, ← hu] at hpre
  rcases hpre with ⟨v, hv⟩ | ⟨v, hv⟩ <;> simp [ascii] at hv

end C2Hat
