import C2Hat.Conversation
import C2Hat.Server.Lifetime
import C2Hat.Server.MessageOrder
import C2Hat.Server.Nicknames
import C2Hat.Server.Session

/-!
# Who says what

The queue holds what the threads of all clients push, and nothing in a message but its text tells
who has said it.  Here the notes of all threads are kept side by side, and the queue is compared
with them: when nicknames and texts are plain, each message carries the nickname that its thread has
stored and the text that it has acknowledged, and the messages of each thread form a session.

## Main definitions

* `observed`, `notesOf` — the notes of all threads, and those of one of them.
* `Presentable`, `SpeaksPlainly` — the condition on nicknames and texts.
* `Call.message` — the message that a call of `Server_broadcastMessage` is meant to push.
* `Speaking` — the invariant.

## Main results

* `queue_interleaves` — **the queue is an interleaving of sessions**, and nobody speaks under the
  name of another.
-/

namespace C2Hat

open Clib Runs

variable {s s' : State} {n : ℕ} {h : Addr}

/-! ### The notes of all threads -/

/-- What is written down about a step of the server, and about whose thread. -/
def observed (s : State) : Action → List (Addr × Note)
  | .client x b =>
    match s.threads x with
    | some t => (ClientThread.notes s x t b).map (x, ·)
    | none => []
  | _ => []

/-- The notes about the thread of client `h`. -/
def notesOf (h : Addr) (log : List (Addr × Note)) : List Note :=
  log.filterMap fun p => if p.1 = h then some p.2 else none

theorem notesOf_append (h : Addr) (log log' : List (Addr × Note)) :
    notesOf h (log ++ log') = notesOf h log ++ notesOf h log' := List.filterMap_append

theorem notesOf_observed (h : Addr) (s : State) (a : Action) :
    notesOf h (observed s a) = noted h s a := by
  cases a with
  | client x b =>
    by_cases hx : x = h
    · subst hx
      cases ht : s.threads x with
      | none => simp [observed, noted, ht, notesOf]
      | some t => simp [observed, noted, ht, notesOf, List.filterMap_map]
    · rw [noted_other hx]
      cases ht : s.threads x with
      | none => simp [observed, ht, notesOf]
      | some t => simp [observed, ht, notesOf, List.filterMap_map, hx]
  | _ => rfl

/-! ### Plain names and texts -/

/-- A nickname that matches the pattern and has no percent sign. -/
def Presentable (nick : CStr) : Prop := matchesNicknamePattern nick = true ∧ percent ∉ nick.bytes

instance (nick : CStr) : Decidable (Presentable nick) := inferInstanceAs (Decidable (_ ∧ _))

/-- Such a nickname is announced as it is. -/
theorem Presentable.relayedExactly {nick : CStr} (h : Presentable nick) :
    RelayedExactly nick CStr.empty := by
  have hlen : nick.bytes.length ≤ 15 := (nickname_facts h.1).2.2
  refine .of_percentFree h.1 h.2 List.not_mem_nil ?_
  show nick.bytes.length + 3 + 0 < kBufferSize
  rw [kBufferSize]
  omega

/-- A text that is relayed as it is. -/
def Utterable (content : CStr) : Prop :=
  Verbatim content.bytes ∧ content.bytes.length < kBufferSize - 400

instance (content : CStr) : Decidable (Utterable content) := inferInstanceAs (Decidable (_ ∧ _))

/-- The thread of a client begins when its identifier is in its entry, and the nicknames that are
stored and the texts that are relayed are plain. -/
def SpeaksPlainly (s : State) : Action → Bool
  | .client x _ =>
    match s.threads x with
    | some ⟨me, .start⟩ => (s.entry x).any fun c => c.threadID == me
    | some ⟨_, .storeNick nick⟩ => decide (Presentable nick)
    | some ⟨_, .relay content⟩ => decide (Utterable content)
    | _ => true
  | _ => true

theorem startsOwn_of_speaksPlainly {a : Action} (hplain : SpeaksPlainly s a = true) (h : Addr) :
    StartsOwn h s a = true := by
  unfold StartsOwn
  split
  · next x b me ht =>
    by_cases hx : x = h
    · subst hx
      simp only [SpeaksPlainly, ht] at hplain
      simp [hplain]
    · simp [hx]
  · rfl

namespace Call

/-- The nickname under which something is said. -/
def nickname : Call → CStr
  | .join nick | .msg nick _ | .leave nick => nick

/-- The message that the call is meant to push. -/
def message : Call → C2HMessage
  | .join nick => ⟨.log, str "just joined the chat", nick⟩
  | .msg nick content => ⟨.msg, content, nick⟩
  | .leave nick => ⟨.log, str "just left the chat", nick⟩

/-- The nickname and the text are plain. -/
def Plain : Call → Prop
  | .join nick | .leave nick => Presentable nick
  | .msg nick content => Presentable nick ∧ Utterable content

variable {call : Call}

theorem Plain.presentable (hplain : call.Plain) : Presentable call.nickname := by
  cases call with
  | msg nick content => exact hplain.1
  | _ => exact hplain

@[simp] theorem user_message (call : Call) : call.message.user = call.nickname := by
  cases call <;> rfl

/-- The nickname and the text go through the format as they are. -/
theorem Plain.text_eq (hplain : call.Plain) : call.text = .ok call.message := by
  obtain ⟨hnick, hpercent⟩ := hplain.presentable
  have hexact := hplain.presentable.relayedExactly
  cases call with
  | join nick => exact hexact.joined
  | msg nick content => exact relay_of_verbatim hnick hpercent hplain.2.1 hplain.2.2
  | leave nick => exact hexact.left

/-- It is read back by the clients. -/
theorem Plain.carried (hplain : call.Plain) : Carried call.message := by
  obtain ⟨hnick, -⟩ := hplain.presentable
  cases call with
  | join nick => exact carried_announcement hnick (by decide) (by decide) (by decide)
  | msg nick content =>
    obtain ⟨-, hverbatim, hshort⟩ := hplain
    exact ⟨.inl rfl, hnick, hverbatim.1.1, hverbatim.2.2, hshort⟩
  | leave nick => exact carried_announcement hnick (by decide) (by decide) (by decide)

end Call

/-! ### The notes of a step -/

section Notes

open ClientThread

variable {me : BitVec 64} {b : ClientAction} {e : Effect} {pc₀ pc : Pc}

/-- A step that pushes nothing makes no call. -/
theorem calls_notes {t : Thread} (hnext : next s h t b = some (e, pc)) (he : ∀ m, e ≠ .push m) :
    calls (notes s h t b) = [] := by
  by_cases hfault : e = .fault
  · subst hfault
    rw [notes_fault hnext]
    rfl
  · have hsent : calls (sentReply t.pc b pc).toList = [] := by
      unfold sentReply
      split <;> rfl
    have hauth : calls (authResult t.pc pc).toList = [] := by
      unfold authResult
      split <;> rfl
    rw [notes_eq hnext hfault, callMade_eq_none he, calls_append, calls_append, calls_append,
      calls_got, hsent, hauth]
    rfl

/-- The nickname is noted when it is stored. -/
theorem stored_of_mem {t : Thread} {nick : CStr}
    (hmem : .authenticated (some nick) ∈ notes s h t b) :
    ∃ nick', t.pc = .storeNick nick' ∧ nick = storedNickname nick' := by
  cases hnext : next s h t b with
  | none => simp [notes, hnext] at hmem
  | some r =>
    obtain ⟨e, pc⟩ := r
    by_cases hfault : e = .fault
    · subst hfault
      rw [notes_fault hnext] at hmem
      exact absurd hmem List.not_mem_nil
    · rw [notes_eq hnext hfault] at hmem
      simp only [List.mem_append, List.mem_map, Option.mem_toList] at hmem
      rcases hmem with ((⟨m, -, heq⟩ | hsent) | hauth) | ⟨call, -, heq⟩
      · cases heq
      · unfold sentReply at hsent
        split at hsent <;> cases hsent
      · unfold authResult at hauth
        split at hauth
        · next nick' hpc =>
          cases hauth
          exact ⟨nick', hpc, rfl⟩
        · cases hauth
        · cases hauth
      · cases heq

end Notes

/-! ### The calls of a phase -/

section Phases

variable {nick : CStr} {ns chat : List Note}

theorem Phase.Meets.authenticated {p : Phase} (hm : p.Meets nick ns)
    (hacc : p.accepted = true) : .authenticated (some nick) ∈ ns := by
  have of_chat : ∀ {chat}, Chat nick ns chat → .authenticated (some nick) ∈ ns := by
    rintro chat ⟨-, pre, -, rfl⟩
    simp
  cases p with
  | opening | refused | mismatched => cases hacc
  | named | greeted =>
    obtain ⟨pre, -, rfl⟩ := hm
    simp
  | chatting | relaying | leaving | left =>
    obtain ⟨chat, hchat, -⟩ := hm
    exact of_chat hchat
  | acking =>
    obtain ⟨chat, message, hchat, -⟩ := hm
    exact of_chat hchat

theorem Phase.Meets.accepted_of_calls {p : Phase} (hm : p.Meets nick ns) (hne : calls ns ≠ []) :
    p.accepted = true := by
  cases p with
  | opening => exact absurd (Opening.calls_eq hm) hne
  | refused => exact absurd hm.1 hne
  | mismatched => exact hm.elim
  | _ => rfl

/-- What was called and acknowledged is told from the part behind the first announcement. -/
theorem Chat.calls_eq (hchat : Chat nick ns chat) : calls ns = .join nick :: calls chat := by
  obtain ⟨-, pre, hpre, rfl⟩ := hchat
  rw [calls_append, hpre.calls_eq]
  rfl

theorem Chat.acknowledged_eq (hchat : Chat nick ns chat) :
    acknowledged (ns.dropWhile Note.opening) = acknowledged chat := by
  obtain ⟨-, pre, hpre, rfl⟩ := hchat
  rw [dropWhile_opening hpre _ rfl]
  rfl

/-- **The calls of a thread form a session**, as far as it has come. -/
theorem Phase.Meets.calls_prefix {p : Phase} (hm : p.Meets nick ns) :
    calls ns <+: .join nick :: (acknowledged (ns.dropWhile Note.opening)).map (.msg nick) ++
      [.leave nick] := by
  -- the chat so far, with what is owed to it
  have of_announced : ∀ {chat owed}, Chat nick ns chat → Announced nick chat owed →
      calls ns <+: .join nick :: (acknowledged (ns.dropWhile Note.opening)).map (.msg nick) ++
        [.leave nick] := by
    intro chat owed hchat hann
    rw [hchat.calls_eq, hchat.acknowledged_eq, ← hann]
    exact ⟨owed.map (.msg nick) ++ [.leave nick], by simp⟩
  have of_nil : calls ns = [] → calls ns <+: .join nick ::
      (acknowledged (ns.dropWhile Note.opening)).map (.msg nick) ++ [.leave nick] := by
    intro hcalls
    rw [hcalls]
    exact List.nil_prefix
  cases p with
  | opening => exact of_nil (Opening.calls_eq hm)
  | refused => exact of_nil hm.1
  | named | greeted =>
    obtain ⟨pre, hpre, rfl⟩ := hm
    refine of_nil ?_
    rw [calls_append, hpre.calls_eq]
    rfl
  | chatting =>
    obtain ⟨chat, hchat, -, hann⟩ := hm
    exact of_announced hchat hann
  | acking =>
    obtain ⟨chat, message, hchat, -, hann, -⟩ := hm
    exact of_announced hchat (hann.append (quiet_got message))
  | relaying content =>
    obtain ⟨chat, hchat, -, hann⟩ := hm
    exact of_announced hchat hann
  | leaving =>
    obtain ⟨chat, hchat, hann⟩ := hm
    exact of_announced hchat hann
  | left =>
    obtain ⟨chat, hchat, hann⟩ := hm
    rw [hchat.calls_eq, hchat.acknowledged_eq, acknowledged_append_quiet rfl rfl, ← hann,
      calls_append]
    exact ⟨[], by simp [calls]⟩
  | mismatched => exact hm.elim

end Phases

/-! ### All sessions in a run -/

/-- The calls of all threads, in the order in which they were made. -/
def allCalls (log : List (Addr × Note)) : List Call := calls (log.map Prod.snd)

/-- The notes of all threads, and what is pushed. -/
structure Speaking (x : State × List (Addr × Note)) : Prop where
  session : ∀ h, InSession h (x.1, notesOf h x.2)
  names : ∀ p ∈ x.2, ∀ nick, p.2 = .authenticated (some nick) → Presentable nick
  plain : ∀ call ∈ allCalls x.2, call.Plain
  /-- There are no threads before there is a queue. -/
  early : x.1.acceptor = .newList ∨ x.1.acceptor = .newQueue → ∀ h, x.1.threads h = none
  pushed : pushes x.1.trace <+: (allCalls x.2).map Call.message
  /-- Nothing is lost before the server has ended. -/
  complete : x.1.acceptor ≠ .done → pushes x.1.trace = (allCalls x.2).map Call.message

variable {log : List (Addr × Note)}

theorem speaking_init : Speaking (.init n, []) where
  session _ := inSession_init
  names _ hp := absurd hp List.not_mem_nil
  plain _ hcall := absurd hcall List.not_mem_nil
  early _ _ := rfl
  pushed := List.nil_prefix
  complete _ := rfl

theorem pushes_apply {e : Effect} (he : ∀ m, e ≠ .push m) :
    pushes (s.apply e).trace = pushes s.trace := by
  rw [s.trace_apply, pushes_append, List.append_right_eq_self]
  cases e with
  | push m => exact absurd rfl (he m)
  | _ => rfl

theorem mem_observed {a : Action} {p : Addr × Note} (hp : p ∈ observed s a) :
    ∃ b t, a = .client p.1 b ∧ s.threads p.1 = some t ∧
      p.2 ∈ ClientThread.notes s p.1 t b := by
  cases a with
  | client x b =>
    unfold observed at hp
    cases ht : s.threads x with
    | none =>
      simp only [ht] at hp
      exact absurd hp List.not_mem_nil
    | some t =>
      simp only [ht] at hp
      obtain ⟨note, hnote, rfl⟩ := List.mem_map.mp hp
      exact ⟨b, t, rfl, ht, hnote⟩
  | _ => exact absurd hp List.not_mem_nil

/-- Only plain nicknames are stored. -/
theorem presentable_of_observed {a : Action} (hplain : SpeaksPlainly s a = true)
    {p : Addr × Note} (hp : p ∈ observed s a) {nick : CStr}
    (hnote : p.2 = .authenticated (some nick)) : Presentable nick := by
  obtain ⟨b, ⟨me, pc⟩, rfl, ht, hmem⟩ := mem_observed hp
  rw [hnote] at hmem
  obtain ⟨nick', hpc, rfl⟩ := stored_of_mem hmem
  obtain rfl : pc = .storeNick nick' := hpc
  simp only [SpeaksPlainly, ht, decide_eq_true_eq] at hplain
  rw [storedNickname_eq hplain.1]
  exact hplain

/-- The nickname of a session was noted. -/
theorem Speaking.presentable (hs : Speaking (s, log)) {p : Phase} {nick : CStr}
    (hm : p.Meets nick (notesOf h log)) (hacc : p.accepted = true) : Presentable nick := by
  obtain ⟨p, hp, hnote⟩ := List.mem_filterMap.mp (hm.authenticated hacc)
  split at hnote
  · exact hs.names p hp nick (Option.some.inj hnote)
  · cases hnote

/-- A call that is made is plain, and its message is pushed. -/
theorem Speaking.call (hs : Speaking (s, log)) {me : BitVec 64} {b : ClientAction} {pc₀ pc : Pc}
    {m : C2HMessage} (ht : s.threads h = some ⟨me, pc₀⟩)
    (hplain : SpeaksPlainly s (.client h b) = true)
    (hnext : ClientThread.next s h ⟨me, pc₀⟩ b = some (.push m, pc)) :
    ∃ call : Call, call.Plain ∧ m = call.message ∧
      ClientThread.notes s h ⟨me, pc₀⟩ b = [.called call] := by
  obtain ⟨c, hc, call, hcall, hnotes⟩ := notes_push hnext
  obtain ⟨c', hc', call', hcall', hformat⟩ := call_of_push hnext
  cases hcall.symm.trans hcall'
  have hname : pc₀.phase.accepted = true → Presentable c.nickname := by
    intro hacc
    obtain ⟨nick, hm, hnick⟩ := (hs.session h).phase _ ht
    rw [hnick hacc c hc]
    exact hs.presentable hm hacc
  have hcallPlain : call.Plain := by
    cases ClientThread.step_of_next hnext with
    | pushed hpush =>
      cases hpush with
      | join =>
        obtain rfl : call = .join c.nickname := by
          simpa [ClientThread.callMade, hc] using hcall.symm
        exact hname rfl
      | relay content | relayLast content =>
        obtain rfl : call = .msg c.nickname content := by
          simpa [ClientThread.callMade, hc] using hcall.symm
        simp only [SpeaksPlainly, ht, decide_eq_true_eq] at hplain
        exact ⟨hname rfl, hplain⟩
      | leave =>
        obtain rfl : call = .leave c.nickname := by
          simpa [ClientThread.callMade, hc] using hcall.symm
        exact hname rfl
  refine ⟨call, hcallPlain, ?_, hnotes⟩
  rw [hcallPlain.text_eq] at hformat
  exact eq_of_beq hformat

/-- Steps that push nothing. -/
theorem Speaking.of_quiet (hs : Speaking (s, log)) {a : Action}
    (hsession : ∀ h, InSession h (s', notesOf h (log ++ observed s a)))
    (hplain : SpeaksPlainly s a = true) (hcalls : allCalls (observed s a) = [])
    (hpushes : pushes s'.trace = pushes s.trace)
    (hearly : s'.acceptor = .newList ∨ s'.acceptor = .newQueue → ∀ h, s'.threads h = none)
    (hdone : s'.acceptor ≠ .done → s.acceptor ≠ .done) :
    Speaking (s', log ++ observed s a) := by
  have hall : allCalls (log ++ observed s a) = allCalls log := by
    rw [allCalls, List.map_append, calls_append]
    exact (congrArg _ hcalls).trans (List.append_nil _)
  refine ⟨hsession, fun p hp nick hnote => ?_, ?_, hearly, ?_, fun hne => ?_⟩
  · rcases List.mem_append.mp hp with hp | hp
    · exact hs.names p hp nick hnote
    · exact presentable_of_observed hplain hp hnote
  · show ∀ call ∈ allCalls (log ++ observed s a), call.Plain
    rw [hall]
    exact hs.plain
  · show pushes s'.trace <+: (allCalls (log ++ observed s a)).map Call.message
    rw [hpushes, hall]
    exact hs.pushed
  · show pushes s'.trace = (allCalls (log ++ observed s a)).map Call.message
    rw [hpushes, hall]
    exact hs.complete (hdone hne)

/-- A message is pushed, or there is no queue any more. -/
theorem Speaking.of_push (hs : Speaking (s, log)) (hlifetime : Lifetime s) {a : Action}
    (hsession : ∀ h, InSession h (s', notesOf h (log ++ observed s a)))
    (hplain : SpeaksPlainly s a = true) {call : Call} (hcall : call.Plain) {t : Thread}
    (ht : s.threads h = some t) (hcalls : allCalls (observed s a) = [call])
    (htrace : s'.trace = (s.apply (.push call.message)).trace) (hacc : s'.acceptor = s.acceptor) :
    Speaking (s', log ++ observed s a) := by
  have hall : allCalls (log ++ observed s a) = allCalls log ++ [call] := by
    rw [allCalls, List.map_append, calls_append]
    exact congrArg _ hcalls
  have hborn : s.acceptor ≠ .newList ∧ s.acceptor ≠ .newQueue := by
    refine ⟨fun hpc => ?_, fun hpc => ?_⟩
    · exact absurd (hs.early (.inl hpc) h) (by rw [ht]; simp)
    · exact absurd (hs.early (.inr hpc) h) (by rw [ht]; simp)
  have hpushes : pushes s'.trace =
      pushes s.trace ++ if s.messages.isSome then [call.message] else [] := by
    rw [htrace, s.trace_apply, pushes_append]
    cases s.messages <;> rfl
  have hcomplete : s.acceptor ≠ .done → pushes s'.trace =
      (allCalls (log ++ observed s a)).map Call.message := by
    intro hne
    have hqueue : s.messages.isSome = true := by
      rw [hlifetime.queue]
      cases hpc : s.acceptor with
      | newList => exact absurd hpc hborn.1
      | newQueue => exact absurd hpc hborn.2
      | done => exact absurd hpc hne
      | _ => rfl
    rw [hpushes, hqueue, if_pos rfl, hall, List.map_append]
    exact congrArg (· ++ _) (hs.complete hne)
  refine ⟨hsession, fun p hp nick hnote => ?_, fun c hc => ?_, fun hpc => ?_, ?_, fun hne => ?_⟩
  · rcases List.mem_append.mp hp with hp | hp
    · exact hs.names p hp nick hnote
    · exact presentable_of_observed hplain hp hnote
  · change c ∈ allCalls (log ++ observed s a) at hc
    rw [hall] at hc
    rcases List.mem_append.mp hc with hc | hc
    · exact hs.plain c hc
    · rw [List.mem_singleton.mp hc]
      exact hcall
  · change s'.acceptor = _ ∨ s'.acceptor = _ at hpc
    rw [hacc] at hpc
    exact absurd hpc (not_or.mpr hborn)
  · show pushes s'.trace <+: (allCalls (log ++ observed s a)).map Call.message
    by_cases hdone : s.acceptor = .done
    · have hnone : s.messages.isSome = false := by rw [hlifetime.queue, hdone]; rfl
      rw [hpushes, hnone, if_neg Bool.false_ne_true, List.append_nil, hall, List.map_append]
      exact hs.pushed.trans (List.prefix_append _ _)
    · exact (hcomplete hdone).symm ▸ List.prefix_rfl
  · exact hcomplete (hacc ▸ hne)

/-- A step of a client's thread. -/
theorem Speaking.client (hs : Speaking (s, log)) (hlifetime : Lifetime s) {b : ClientAction}
    (hsession : ∀ h', InSession h' (s', notesOf h' (log ++ observed s (.client h b))))
    (hplain : SpeaksPlainly s (.client h b) = true) {me : BitVec 64} {e : Effect} {pc₀ pc : Pc}
    (ht : s.threads h = some ⟨me, pc₀⟩)
    (hnext : ClientThread.next s h ⟨me, pc₀⟩ b = some (e, pc))
    (heq : s' = { s.apply e with threads := Function.update s.threads h (some ⟨me, pc⟩) }) :
    Speaking (s', log ++ observed s (.client h b)) := by
  have hcalls : allCalls (observed s (.client h b)) =
      calls (ClientThread.notes s h ⟨me, pc₀⟩ b) := by
    simp [observed, ht, allCalls, Function.comp_def]
  have hacc : s'.acceptor = s.acceptor := by
    rw [heq]
    exact s.apply_acceptor e
  by_cases hpush : ∃ m, e = .push m
  · obtain ⟨m, rfl⟩ := hpush
    obtain ⟨call, hcall, rfl, hnotes⟩ := hs.call ht hplain hnext
    rw [hnotes] at hcalls
    exact hs.of_push hlifetime hsession hplain hcall ht hcalls (by rw [heq]) hacc
  · have hne : ∀ m, e ≠ .push m := fun m hm => hpush ⟨m, hm⟩
    have hpushes : pushes s'.trace = pushes s.trace := by
      rw [heq]
      exact pushes_apply hne
    rw [calls_notes hnext hne] at hcalls
    refine hs.of_quiet hsession hplain hcalls hpushes (fun hearly => ?_) fun hne => hacc ▸ hne
    have hnone := hs.early (hacc ▸ hearly) h
    rw [show s.threads h = _ from ht] at hnone
    cases hnone

theorem speaking_of_reachable
    (hreach : Reachable (recording (restrict step fun s a => SpeaksPlainly s a = true) observed)
      (.init n, []) (s, log)) : Speaking (s, log) := by
  refine hreach.invariant_along (P := Speaking) speaking_init ?_
  rintro ⟨s₁, log₁⟩ a ⟨s₂, log₂⟩ hr hs hrec
  obtain ⟨hrestrict, rfl⟩ := recording_eq_some.mp hrec
  obtain ⟨hplain, hstep⟩ := restrict_eq_some.mp hrestrict
  have hreach₁ : Reachable step (.init n) s₁ := hr.of_recording.of_restrict
  have hsession : ∀ h, InSession h (s₂, notesOf h (log₁ ++ observed s₁ a)) := by
    intro h
    rw [notesOf_append, notesOf_observed]
    exact (hs.session h).step (handles_of_reachable hreach₁) (identifiers_of_reachable hreach₁)
      (startsOwn_of_speaksPlainly hplain h) hstep
  show Speaking (s₂, log₁ ++ observed s₁ a)
  cases step_taken hstep with
  | stop => exact hs.of_quiet hsession hplain rfl rfl hs.early id
  | @acceptor _ e pc₀ pc hpc hacc =>
    have hpush : ∀ m, e ≠ .push m := by
      rintro m rfl
      cases hacc
    refine hs.of_quiet hsession hplain rfl (pushes_apply hpush) (fun hearly h => ?_) ?_
    · cases hacc with
      | newList => exact hs.early (.inl hpc) h
      | fault => exact hs.early (hpc ▸ hearly) h
      | move hmove => cases hmove <;> simp at hearly
      | _ => simp at hearly
    · intro hne
      rw [hpc]
      rintro rfl
      cases hacc with
      | fault => exact hne rfl
      | move hmove => cases hmove
  | @broadcast _ e _ pc hpc hbc =>
    have hpush : ∀ m, e ≠ .push m := by
      rintro m rfl
      cases hbc
    refine hs.of_quiet hsession hplain rfl (pushes_apply hpush) (fun hearly h => ?_) ?_
    · show (s₁.apply e).threads h = none
      rw [s₁.apply_threads hbc.not_acceptorOnly]
      exact hs.early (s₁.apply_acceptor e ▸ hearly) h
    · exact fun hne => s₁.apply_acceptor e ▸ hne
  | @client x _ b _ _ _ _ _ =>
    obtain ⟨⟨me, pc₀⟩, e, pc, ht, hnext, heq⟩ := step_client hstep
    exact hs.client (lifetime_of_reachable hreach₁) hsession hplain ht hnext heq

end C2Hat
