import C2Hat.Server.Spawn

/-!
# Sessions

What a client's thread announces from its beginning to its end.  A history is kept of
the calls that return to `Server_handleClient`: the replies that were sent, the result
of `Server_authenticate`, the messages that `C2HMessage_get` found, and the calls of
`Server_broadcastMessage`.  The places of the thread fall into phases, and the history
of each phase has its own form.

A `/quit` ends the chat.  During the authentication it is taken out of the buffer and
ignored, although the protocol lets a client close the session with it.

## Main definitions

* `Note`, `noted` — the history of a client's thread.
* `calls`, `acknowledged` — what was announced, and what was to be announced.
* `Session` — the announcements of a complete session.
* `NoEarlyQuit` — no `/quit` comes during the authentication.

## Main results

* `session_of_exited` — the announcements of every complete session.
* `session_trace` — **the announcements of a session** when no `/quit` comes during the
  authentication.
-/

namespace C2Hat

open Clib Runs

/-! ### The history -/

/-- A call of `Server_broadcastMessage`. -/
inductive Call
  /-- "[%s] just joined the chat" -/
  | join (nickname : CStr)
  /-- "[%s] %s" -/
  | msg (nickname content : CStr)
  /-- "[%s] just left the chat" -/
  | leave (nickname : CStr)
  deriving DecidableEq

/-- The type of the message of a call. -/
def Call.type : Call → C2HMessageType
  | .join _ | .leave _ => .log
  | .msg _ _ => .msg

/-- The message of a call. -/
def Call.text : Call → Except Fault C2HMessage
  | .join nickname => Server.joined nickname
  | .msg nickname content => Server.relay nickname content
  | .leave nickname => Server.left nickname

/-- What is written down about a client's thread. -/
inductive Note
  /-- `Server_sendMessage` returns. -/
  | sent (purpose : Purpose) (success : Bool)
  /-- `Server_authenticate` returns, with the nickname that it stored if it succeeded. -/
  | authenticated (nickname : Option CStr)
  /-- `C2HMessage_get` returns a message. -/
  | got (message : C2HMessage)
  /-- `Server_broadcastMessage` is called. -/
  | called (call : Call)
  deriving DecidableEq

namespace ClientThread

/-- The message that `C2HMessage_get` returns in a step. -/
def gotMessage (s : State) (h : Addr) (pc : Pc) (a : ClientAction) : Option C2HMessage :=
  match pc, a with
  | .authWait, .ready true _ reads => do
    let c ← s.entry h
    let (received, buffer, _) ← (Server.receive c.buffer reads).toOption.join
    if 0 < received then (C2HMessage.get buffer).toOption.bind Prod.fst else none
  | .drain, .go => do
    let c ← s.entry h
    (C2HMessage.get c.buffer).toOption.bind Prod.fst
  | _, _ => none

/-- The result of `Server_sendMessage`, in a step that does not go on writing. -/
def sentReply (pc : Pc) (a : ClientAction) (pc' : Pc) : Option Note :=
  match pc, pc', a with
  | .write _ _ _, .write _ _ _, _ => none
  | .write purpose _ _, _, .wrote _ => some (.sent purpose true)
  | .write purpose _ _, _, _ => some (.sent purpose false)
  | _, _, _ => none

/-- The result of `Server_authenticate`: its caller says hello, or that it failed. -/
def authResult (pc pc' : Pc) : Option Note :=
  match pc, pc' with
  | .storeNick nick, .build .hello => some (.authenticated (some (storedNickname nick)))
  | _, .build .authFailed => some (.authenticated none)
  | _, _ => none

/-- The call of `Server_broadcastMessage` that pushes a message. -/
def callMade (s : State) (h : Addr) (pc : Pc) (e : Effect) : Option Call :=
  match pc, e with
  | .announceJoin, .push _ => (s.entry h).map fun c => .join c.nickname
  | .relay content, .push _ => (s.entry h).map fun c => .msg c.nickname content
  | .announceLeave, .push _ => (s.entry h).map fun c => .leave c.nickname
  | _, _ => none

/-- What is written down about a step.  Nothing is said about one that has no meaning. -/
def notes (s : State) (h : Addr) (t : Thread) (a : ClientAction) : List Note :=
  match next s h t a with
  | none | some (.fault, _) => []
  | some (e, pc) =>
    (gotMessage s h t.pc a).toList.map .got ++ (sentReply t.pc a pc).toList ++
      (authResult t.pc pc).toList ++ (callMade s h t.pc e).toList.map .called

end ClientThread

/-- What is written down about the thread of client `h` in a step of the server. -/
def noted (h : Addr) (s : State) (a : Action) : List Note :=
  match a, s.threads h with
  | .client x b, some t => if x = h then ClientThread.notes s h t b else []
  | _, _ => []

/-! ### Announcements -/

/-- The calls of `Server_broadcastMessage`. -/
def calls (ns : List Note) : List Call :=
  ns.filterMap fun
    | .called call => some call
    | _ => none

/-- An acknowledgement was sent. -/
def Note.acks : Note → Bool
  | .sent (.ack _) success => success
  | _ => false

/-- The message in front of these notes was acknowledged. -/
def acked : List Note → Bool
  | [] => false
  | note :: _ => note.acks

/-- The texts of the messages that were acknowledged, up to a `/quit`. -/
def acknowledged : List Note → List CStr
  | [] => []
  | .got message :: ns =>
    if message.type = .quit then []
    else if message.type = .msg ∧ message.content.bytes.length > 0 ∧ acked ns = true then
      message.content :: acknowledged ns
    else acknowledged ns
  | _ :: ns => acknowledged ns

/-- The welcome, the authentication or the reply to it failed. -/
def Note.failure : Note → Bool
  | .sent .welcome success | .sent .hello success => !success
  | .authenticated nickname => nickname.isNone
  | _ => false

/-- The announcements of a complete session. -/
structure Session (ns : List Note) : Prop where
  /-- There are none when something failed. -/
  refused : (∃ note ∈ ns, note.failure = true) → calls ns = []
  /-- Otherwise the client joins, says what was acknowledged, and leaves. -/
  accepted : (∀ note ∈ ns, note.failure = false) → ∃ nick, .authenticated (some nick) ∈ ns ∧
    calls ns = .join nick :: (acknowledged ns).map (.msg nick) ++ [.leave nick]

/-- The thread of client `h` begins when its identifier is in its entry. -/
def StartsOwn (h : Addr) (s : State) (a : Action) : Bool :=
  match a, s.threads h with
  | .client x _, some ⟨me, .start⟩ => x != h || (s.entry h).any fun c => c.threadID == me
  | _, _ => true

/-- `C2HMessage_get` does not return a `/quit` to client `h` during the authentication. -/
def NoEarlyQuit (h : Addr) (s : State) (a : Action) : Bool :=
  match a, s.threads h with
  | .client x b, some ⟨_, .authWait⟩ =>
    x != h || (ClientThread.gotMessage s h .authWait b).all fun m => m.type != .quit
  | _, _ => true

/-! ### Lists of notes -/

@[simp] theorem calls_append (ns ms : List Note) : calls (ns ++ ms) = calls ns ++ calls ms :=
  List.filterMap_append

/-- There is no `/quit` among the messages. -/
def NoQuit (ns : List Note) : Prop := ∀ message, .got message ∈ ns → message.type ≠ .quit

theorem noQuit_nil : NoQuit [] := fun _ hmem => absurd hmem List.not_mem_nil

theorem noQuit_got {message : C2HMessage} (hquit : message.type ≠ .quit) :
    NoQuit [.got message] := by
  intro message' hmem
  cases List.mem_singleton.mp hmem
  exact hquit

theorem NoQuit.append {ns ms : List Note} (hns : NoQuit ns) (hms : NoQuit ms) :
    NoQuit (ns ++ ms) := by
  intro message hmem
  rcases List.mem_append.mp hmem with h | h
  · exact hns message h
  · exact hms message h

theorem NoQuit.tail {note : Note} {ns : List Note} (hns : NoQuit (note :: ns)) : NoQuit ns :=
  fun message hmem => hns message (List.mem_cons_of_mem _ hmem)

theorem acked_append (ns : List Note) {ms : List Note} (hms : acked ms = false) :
    acked (ns ++ ms) = acked ns := by
  cases ns with
  | nil => exact hms
  | cons note ns => rfl

/-- Notes are cut where no message waits for its acknowledgement. -/
theorem acknowledged_append {ns ms : List Note} (hns : NoQuit ns) (hms : acked ms = false) :
    acknowledged (ns ++ ms) = acknowledged ns ++ acknowledged ms := by
  induction ns with
  | nil => rfl
  | cons note ns ih =>
    cases note with
    | got message =>
      have hquit : message.type ≠ .quit := hns message List.mem_cons_self
      simp only [List.cons_append, acknowledged, if_neg hquit, acked_append ns hms, ih hns.tail]
      split
      · rfl
      · rfl
    | _ => exact ih hns.tail

/-- Notes at the end that acknowledge nothing. -/
theorem acknowledged_append_quiet {ns ms : List Note} (hacked : acked ms = false)
    (hms : acknowledged ms = []) : acknowledged (ns ++ ms) = acknowledged ns := by
  induction ns with
  | nil => exact hms
  | cons note ns ih =>
    cases note with
    | got message => simp only [List.cons_append, acknowledged, acked_append ns hacked, ih]
    | _ => exact ih

/-- A note of the part of a session before its nickname is stored. -/
def Note.opening : Note → Bool
  | .sent .welcome success => success
  | .sent .prompt _ | .sent .authTimeout _ | .sent .invalidNick _ | .got _ => true
  | _ => false

/-- The notes are those of such a part. -/
def Opening (ns : List Note) : Prop := ∀ note ∈ ns, note.opening = true

theorem Opening.append {ns ms : List Note} (hns : Opening ns) (hms : Opening ms) :
    Opening (ns ++ ms) := by
  intro note hmem
  rcases List.mem_append.mp hmem with h | h
  · exact hns note h
  · exact hms note h

theorem Opening.calls_eq {ns : List Note} (hns : Opening ns) : calls ns = [] := by
  rw [calls, List.filterMap_eq_nil_iff]
  intro note hmem
  have hopening := hns note hmem
  cases note with
  | called call => cases hopening
  | _ => rfl

theorem Opening.noFailure {ns : List Note} (hns : Opening ns) :
    ∀ note ∈ ns, note.failure = false := by
  intro note hmem
  have hopening := hns note hmem
  cases note with
  | sent purpose success =>
    cases purpose with
    | welcome =>
      change success = true at hopening
      simp [Note.failure, hopening]
    | hello => cases hopening
    | _ => rfl
  | authenticated nickname => cases hopening
  | _ => rfl

/-- Nothing is acknowledged before the chat. -/
theorem Opening.acknowledged_eq {ns : List Note} (hns : Opening ns) : acknowledged ns = [] := by
  induction ns with
  | nil => rfl
  | cons note ns ih =>
    have htail : Opening ns := fun note hmem => hns note (List.mem_cons_of_mem _ hmem)
    have hacked : acked ns = false := by
      cases ns with
      | nil => rfl
      | cons note ns =>
        have hopening := htail note List.mem_cons_self
        show note.acks = false
        cases note with
        | sent purpose success => cases purpose <;> first | rfl | cases hopening
        | _ => rfl
    cases note with
    | got message => simp [acknowledged, hacked, ih htail]
    | _ => exact ih htail

/-! ### Phases -/

/-- The phases of a session. -/
inductive Phase
  /-- Up to the end of the authentication. -/
  | opening
  /-- The welcome, the authentication or the reply to it failed. -/
  | refused
  /-- The reply to the nickname is to be sent; it was sent. -/
  | named
  | greeted
  /-- The chat, the acknowledgement of a message and its relay. -/
  | chatting
  | acking (content : CStr)
  | relaying (content : CStr)
  /-- The end of the chat is to be announced; it was announced. -/
  | leaving
  | left
  /-- The entry has another identifier. -/
  | mismatched

/-- The phase of a thread that sends a message. -/
def Purpose.phase : Purpose → Phase
  | .welcome | .prompt | .authTimeout | .invalidNick => .opening
  | .authFailed => .refused
  | .hello => .named
  | .ack content => .acking content
  | .chatTimeout => .chatting

/-- The phase of a thread that drops its client. -/
def Site.phase : Site → Phase
  | .mismatch => .mismatched
  | .welcome | .auth | .hello => .refused
  | .leave => .left

/-- The phase of a thread. -/
def Pc.phase : Pc → Phase
  | .start | .authWait | .validate _ | .lookupNick _ | .lookupThread _ | .storeNick _ => .opening
  | .build purpose | .write purpose _ _ => purpose.phase
  | .announceJoin => .greeted
  | .chat | .chatWait | .drain => .chatting
  | .relay content => .relaying content
  | .announceLeave => .leaving
  | .drop site | .unlink site _ | .exited site => site.phase

/-- Nothing failed that ends a session before the chat. -/
def NoFailure (ns : List Note) : Prop := ∀ note ∈ ns, note.failure = false

/-- The notes of a session from its beginning, with `chat` those behind the
announcement that the client has joined. -/
def Chat (nick : CStr) (ns chat : List Note) : Prop :=
  NoFailure chat ∧ ∃ pre, Opening pre ∧
    ns = pre ++ .authenticated (some nick) :: .sent .hello true :: .called (.join nick) :: chat

theorem Chat.append {nick : CStr} {ns ms chat : List Note} (hchat : Chat nick ns chat)
    (hms : NoFailure ms) : Chat nick (ns ++ ms) (chat ++ ms) := by
  obtain ⟨hfailure, pre, hpre, rfl⟩ := hchat
  refine ⟨fun note hmem => ?_, pre, hpre, by simp⟩
  rcases List.mem_append.mp hmem with h | h
  · exact hfailure note h
  · exact hms note h

/-- Everything that was acknowledged has been announced, except for what is `owed`. -/
def Announced (nick : CStr) (chat : List Note) (owed : List CStr) : Prop :=
  calls chat ++ owed.map (.msg nick) = (acknowledged chat).map (.msg nick)

/-- The notes of a phase. -/
def Phase.Meets (nick : CStr) (ns : List Note) : Phase → Prop
  | .opening => Opening ns
  | .refused => calls ns = [] ∧ ∃ note ∈ ns, note.failure = true
  | .named => ∃ pre, Opening pre ∧ ns = pre ++ [.authenticated (some nick)]
  | .greeted => ∃ pre, Opening pre ∧ ns = pre ++ [.authenticated (some nick), .sent .hello true]
  | .chatting => ∃ chat, Chat nick ns chat ∧ NoQuit chat ∧ Announced nick chat []
  | .acking content => ∃ chat message, Chat nick ns (chat ++ [.got message]) ∧ NoQuit chat ∧
      Announced nick chat [] ∧ message.type = .msg ∧ message.content = content ∧
      message.content.bytes.length > 0
  | .relaying content => ∃ chat, Chat nick ns chat ∧ NoQuit chat ∧ Announced nick chat [content]
  | .leaving => ∃ chat, Chat nick ns chat ∧ Announced nick chat []
  | .left => ∃ chat, Chat nick ns (chat ++ [.called (.leave nick)]) ∧ Announced nick chat []
  | .mismatched => False

/-- The nickname has been stored, and is not stored again. -/
def Phase.accepted : Phase → Bool
  | .opening | .refused | .mismatched => false
  | _ => true

/-! ### From phase to phase -/

section Phases

variable {nick : CStr} {ns ms chat : List Note}

theorem Opening.refused (hns : Opening ns) (hcalls : calls ms = [])
    (hfailure : ∃ note ∈ ms, note.failure = true) : Phase.refused.Meets nick (ns ++ ms) := by
  obtain ⟨note, hmem, hnote⟩ := hfailure
  refine ⟨?_, note, List.mem_append_right _ hmem, hnote⟩
  rw [calls_append, hns.calls_eq, hcalls, List.append_nil]

theorem refused_append (hns : Phase.refused.Meets nick ns) (hcalls : calls ms = []) :
    Phase.refused.Meets nick (ns ++ ms) := by
  obtain ⟨hempty, note, hmem, hnote⟩ := hns
  refine ⟨?_, note, List.mem_append_left _ hmem, hnote⟩
  rw [calls_append, hempty, hcalls, List.append_nil]

/-- Notes that neither announce nor acknowledge anything. -/
structure Quiet (ms : List Note) : Prop where
  failure : NoFailure ms
  calls : calls ms = []
  acked : acked ms = false
  acknowledged : acknowledged ms = []

theorem noFailure_singleton (note : Note) (hnote : note.failure = false) : NoFailure [note] := by
  intro note' hmem
  rw [List.mem_singleton.mp hmem]
  exact hnote

theorem quiet_nil : Quiet [] where
  failure _ hmem := absurd hmem List.not_mem_nil
  calls := rfl
  acked := rfl
  acknowledged := rfl

/-- A message waits for its acknowledgement. -/
theorem quiet_got (message : C2HMessage) : Quiet [.got message] where
  failure := noFailure_singleton _ rfl
  calls := rfl
  acked := rfl
  acknowledged := by simp [C2Hat.acknowledged, C2Hat.acked]

theorem quiet_chatTimeout (success : Bool) : Quiet [.sent .chatTimeout success] where
  failure := noFailure_singleton _ rfl
  calls := rfl
  acked := rfl
  acknowledged := rfl

theorem Announced.append (hchat : Announced nick chat []) (hms : Quiet ms) :
    Announced nick (chat ++ ms) [] := by
  rw [Announced, calls_append, acknowledged_append_quiet hms.acked hms.acknowledged, hms.calls,
    List.append_nil]
  exact hchat

theorem chatting_append (hns : Phase.chatting.Meets nick ns) (hquit : NoQuit ms)
    (hms : Quiet ms) : Phase.chatting.Meets nick (ns ++ ms) := by
  obtain ⟨chat, hchat, hnoquit, hann⟩ := hns
  exact ⟨chat ++ ms, hchat.append hms.failure, hnoquit.append hquit, hann.append hms⟩

theorem leaving_of_chatting (hns : Phase.chatting.Meets nick ns) (hms : Quiet ms) :
    Phase.leaving.Meets nick (ns ++ ms) := by
  obtain ⟨chat, hchat, -, hann⟩ := hns
  exact ⟨chat ++ ms, hchat.append hms.failure, hann.append hms⟩

theorem acking_of_chatting (hns : Phase.chatting.Meets nick ns) {message : C2HMessage}
    (htype : message.type = .msg) (hlen : message.content.bytes.length > 0) :
    (Phase.acking message.content).Meets nick (ns ++ [.got message]) := by
  obtain ⟨chat, hchat, hnoquit, hann⟩ := hns
  exact ⟨chat, message, hchat.append (noFailure_singleton _ rfl), hnoquit, hann, htype, rfl, hlen⟩

/-- The acknowledgement was sent: the message is to be relayed. -/
theorem relaying_of_acking {content : CStr} (hns : (Phase.acking content).Meets nick ns) :
    (Phase.relaying content).Meets nick (ns ++ [.sent (.ack content) true]) := by
  obtain ⟨chat, message, hchat, hnoquit, hann, htype, rfl, hlen⟩ := hns
  have hchat' := hchat.append (noFailure_singleton (.sent (.ack message.content) true) rfl)
  rw [List.append_assoc, List.singleton_append] at hchat'
  have hack : acknowledged [.got message, .sent (.ack message.content) true] =
      [message.content] := by
    simp [acknowledged, htype, hlen, acked, Note.acks]
  have hcalls : calls [.got message, .sent (.ack message.content) true] = [] := rfl
  refine ⟨_, hchat', hnoquit.append (by simp [NoQuit, htype]), ?_⟩
  rw [Announced, calls_append, acknowledged_append hnoquit rfl, hack, hcalls, List.map_append,
    ← hann]
  simp

/-- The acknowledgement was not sent: the message is forgotten. -/
theorem chatting_of_acking {content : CStr} (hns : (Phase.acking content).Meets nick ns) :
    Phase.chatting.Meets nick (ns ++ [.sent (.ack content) false]) := by
  obtain ⟨chat, message, hchat, hnoquit, hann, htype, rfl, hlen⟩ := hns
  have hchat' := hchat.append (noFailure_singleton (.sent (.ack message.content) false) rfl)
  rw [List.append_assoc, List.singleton_append] at hchat'
  have hack : acknowledged [.got message, .sent (.ack message.content) false] = [] := by
    simp [acknowledged, acked, Note.acks]
  refine ⟨_, hchat', hnoquit.append (by simp [NoQuit, htype]), hann.append ⟨?_, rfl, rfl, hack⟩⟩
  simp [NoFailure, Note.failure]

theorem announced_of_relaying {content : CStr} (hns : (Phase.relaying content).Meets nick ns) :
    Phase.chatting.Meets nick (ns ++ [.called (.msg nick content)]) := by
  obtain ⟨chat, hchat, hnoquit, hann⟩ := hns
  refine ⟨_, hchat.append (noFailure_singleton _ rfl), hnoquit.append (by simp [NoQuit]), ?_⟩
  have hcalls : calls [.called (.msg nick content)] = [.msg nick content] := rfl
  rw [Announced, calls_append, acknowledged_append_quiet rfl rfl, hcalls, ← hann]
  simp

end Phases

/-! ### Steps of the thread -/

section Thread

open ClientThread

variable {s : State} {h : Addr} {me : BitVec 64} {b : ClientAction} {e : Effect} {pc₀ pc : Pc}
  {nick : CStr} {ns : List Note}

theorem notes_eq {t : Thread} (hnext : next s h t b = some (e, pc)) (he : e ≠ .fault) :
    notes s h t b = (gotMessage s h t.pc b).toList.map .got ++ (sentReply t.pc b pc).toList ++
      (authResult t.pc pc).toList ++ (callMade s h t.pc e).toList.map .called := by
  rw [notes, hnext]
  cases e with
  | fault => exact absurd rfl he
  | _ => rfl

theorem notes_fault {t : Thread} (hnext : next s h t b = some (.fault, pc)) :
    notes s h t b = [] := by
  rw [notes, hnext]

/-- One round of the loop that takes messages out of the buffer. -/
theorem next_drain (hnext : next s h ⟨me, .drain⟩ b = some (e, pc)) :
    (e = .fault ∧ pc = .drain) ∨ (∃ buffer, e = .setBuffer h buffer) ∧
      ((gotMessage s h .drain b = none ∧ (pc = .chat ∨ pc = .announceLeave)) ∨
      ∃ message, gotMessage s h .drain b = some message ∧
        ((message.type = .quit ∧ pc = .announceLeave) ∨
        (message.type = .msg ∧ message.content.bytes.length > 0 ∧
          pc = .build (.ack message.content)) ∨
        (message.type ≠ .quit ∧ pc = .drain))) := by
  unfold next at hnext
  cases b with
  | go =>
    rcases withClient_eq_some hnext with heq | ⟨c, hc, htake⟩
    · cases heq
      exact Or.inl ⟨rfl, rfl⟩
    · unfold takeMessage at htake
      cases hget : C2HMessage.get c.buffer with
      | error f =>
        rw [hget] at htake
        cases htake
        exact Or.inl ⟨rfl, rfl⟩
      | ok r =>
        obtain ⟨message, buffer⟩ := r
        have hgot : gotMessage s h .drain .go = message := by
          simp [gotMessage, hc, hget, Except.toOption]
        rw [hgot]
        rw [hget] at htake
        right
        cases message with
        | none =>
          cases htake
          refine ⟨⟨_, rfl⟩, Or.inl ⟨rfl, ?_⟩⟩
          unfold chatAgain
          split
          · exact Or.inl rfl
          · exact Or.inr rfl
        | some message =>
          dsimp only at htake
          split at htake
          · next hquit =>
            cases htake
            exact ⟨⟨_, rfl⟩, Or.inr ⟨message, rfl, Or.inl ⟨hquit, rfl⟩⟩⟩
          · next hquit =>
            split at htake
            · next hmsg =>
              cases htake
              exact ⟨⟨_, rfl⟩, Or.inr ⟨message, rfl, Or.inr (Or.inl ⟨hmsg.1, hmsg.2, rfl⟩)⟩⟩
            · cases htake
              exact ⟨⟨_, rfl⟩, Or.inr ⟨message, rfl, Or.inr (Or.inr ⟨hquit, rfl⟩)⟩⟩
  | _ => cases hnext

/-- A message is pushed by a call of `Server_broadcastMessage`, and is its text. -/
theorem call_of_push {m : C2HMessage} (hnext : next s h ⟨me, pc₀⟩ b = some (.push m, pc)) :
    ∃ c, s.entry h = some c ∧ ∃ call, callMade s h pc₀ (.push m) = some call ∧
      formatted call.type m call.text = true := by
  have announced : ∀ {type : C2HMessageType} {text : Except Fault C2HMessage} {q : Pc},
      announce type text b q = some (.push m, pc) → formatted type m text = true := by
    intro type text q hann
    unfold announce at hann
    cases b with
    | message m' =>
      dsimp only at hann
      split at hann
      · next hformat =>
        cases hann
        exact hformat
      · cases hann
    | _ => cases hann
  have hstep := step_of_next hnext
  cases hstep with
  | pushed hpush =>
    unfold next at hnext
    cases hpush with
    | join =>
      rcases withClient_eq_some hnext with heq | ⟨c, hc, hann⟩
      · cases heq
      · exact ⟨c, hc, .join c.nickname, by simp [callMade, hc], announced hann⟩
    | relay content =>
      rcases withClient_eq_some hnext with heq | ⟨c, hc, hann⟩
      · cases heq
      · exact ⟨c, hc, .msg c.nickname content, by simp [callMade, hc], announced hann⟩
    | relayLast content =>
      rcases withClient_eq_some hnext with heq | ⟨c, hc, hann⟩
      · cases heq
      · exact ⟨c, hc, .msg c.nickname content, by simp [callMade, hc], announced hann⟩
    | leave =>
      rcases withClient_eq_some hnext with heq | ⟨c, hc, hann⟩
      · cases heq
      · exact ⟨c, hc, .leave c.nickname, by simp [callMade, hc], announced hann⟩

/-- The call is all there is to note. -/
theorem notes_push {m : C2HMessage} (hnext : next s h ⟨me, pc₀⟩ b = some (.push m, pc)) :
    ∃ c, s.entry h = some c ∧ ∃ call, callMade s h pc₀ (.push m) = some call ∧
      notes s h ⟨me, pc₀⟩ b = [.called call] := by
  obtain ⟨c, hc, call, hcall, -⟩ := call_of_push hnext
  refine ⟨c, hc, call, hcall, ?_⟩
  rw [notes_eq hnext (by simp), hcall]
  cases step_of_next hnext with
  | pushed hpush => cases hpush <;> rfl

/-- The nickname after an effect. -/
def Effect.storing (nick : CStr) : Effect → CStr
  | .setNickname _ stored => stored
  | _ => nick

theorem gotMessage_eq_none (hwait : pc₀ ≠ .authWait) (hdrain : pc₀ ≠ .drain) :
    gotMessage s h pc₀ b = none := by
  unfold gotMessage
  split
  · exact absurd rfl hwait
  · exact absurd rfl hdrain
  · rfl

theorem callMade_eq_none (he : ∀ m, e ≠ .push m) : callMade s h pc₀ e = none := by
  unfold callMade
  split <;> first | rfl | exact absurd rfl (he _)

/-- Messages during the authentication change nothing. -/
theorem opening_got (got : List C2HMessage) : Opening (got.map .got) := by
  intro note hmem
  obtain ⟨message, -, rfl⟩ := List.mem_map.mp hmem
  rfl

theorem calls_got (got : List C2HMessage) : calls (got.map .got) = [] :=
  (opening_got got).calls_eq

/-- Moves other than those of the loop that takes messages out of the buffer. -/
theorem meets_move (hm : pc₀.phase.Meets nick ns) (hmove : Move pc₀ pc) (hdrain : pc₀ ≠ .drain)
    (hmis : pc ≠ .drop .mismatch) (he : ∀ m, e ≠ .push m) :
    pc.phase.Meets nick (ns ++ ((gotMessage s h pc₀ b).toList.map .got ++
      (sentReply pc₀ b pc).toList ++ (authResult pc₀ pc).toList ++
      (callMade s h pc₀ e).toList.map .called)) := by
  have hsame : pc₀.phase.Meets nick (ns ++ []) := by rwa [List.append_nil]
  rw [callMade_eq_none he]
  by_cases hwait : pc₀ = .authWait
  · subst hwait
    generalize (gotMessage s h .authWait b).toList = got
    cases hmove with
    | authEnded =>
      refine Opening.refused hm ?_ ⟨.authenticated none, by simp [authResult], rfl⟩
      rw [calls_append, calls_append, calls_append, calls_got]
      rfl
    | _ =>
      have hgot : Opening (got.map .got ++ [] ++ [] ++ []) := by
        simpa using opening_got got
      exact Opening.append hm hgot
  · rw [gotMessage_eq_none hwait hdrain]
    cases hmove with
    | mismatch => exact absurd rfl hmis
    | authWait | authTimeout | authEnded | received => exact absurd rfl hwait
    | drained | quit | ignored | text => exact absurd rfl hdrain
    | nickTaken | threadUnknown =>
      exact Opening.refused hm rfl ⟨.authenticated none, by simp [sentReply, authResult], rfl⟩
    | terminated | closed => exact leaving_of_chatting hm quiet_nil
    | _ => exact hsame

theorem sentReply_sent {p : Purpose} {m : C2HMessage} {rest : Bytes} {k : ℕ} :
    sentReply (.write p m rest) (.wrote k) (afterSend true p) = some (.sent p true) := by
  cases p <;> rfl

theorem sentReply_failed {p : Purpose} {m : C2HMessage} {rest : Bytes} (ha : ∀ k, b ≠ .wrote k) :
    sentReply (.write p m rest) b (afterSend false p) = some (.sent p false) := by
  cases b with
  | wrote k => exact absurd rfl (ha k)
  | _ => cases p <;> rfl

/-- The place behind a message that was sent, or was not. -/
theorem meets_afterSend {p : Purpose} {m : C2HMessage} {rest : Bytes} (success : Bool)
    (hm : p.phase.Meets nick ns) :
    (afterSend success p).phase.Meets nick (ns ++ (.sent p success ::
      (authResult (.write p m rest) (afterSend success p)).toList)) := by
  cases p with
  | welcome =>
    cases success with
    | true => exact Opening.append hm (by simp [Opening, Note.opening, afterSend, authResult])
    | false => exact Opening.refused hm rfl ⟨_, List.mem_cons_self, rfl⟩
  | prompt =>
    cases success with
    | true => exact Opening.append hm (by simp [Opening, Note.opening, afterSend, authResult])
    | false =>
      exact Opening.refused hm rfl ⟨.authenticated none, by simp [afterSend, authResult], rfl⟩
  | authTimeout | invalidNick =>
    exact Opening.refused hm rfl ⟨.authenticated none, by simp [afterSend, authResult], rfl⟩
  | authFailed => exact refused_append hm rfl
  | hello =>
    obtain ⟨pre, hpre, rfl⟩ := hm
    cases success with
    | true => exact ⟨pre, hpre, by simp [afterSend, authResult]⟩
    | false =>
      rw [List.append_assoc]
      exact Opening.refused hpre rfl ⟨.sent .hello false, by simp, rfl⟩
  | ack content =>
    cases success with
    | true => exact relaying_of_acking hm
    | false => exact chatting_of_acking hm
  | chatTimeout => exact leaving_of_chatting hm (quiet_chatTimeout success)

/-- The loop that takes messages out of the buffer. -/
theorem meets_drain (hm : Phase.chatting.Meets nick ns)
    (hnext : next s h ⟨me, .drain⟩ b = some (e, pc)) :
    pc.phase.Meets (e.storing nick) (ns ++ notes s h ⟨me, .drain⟩ b) := by
  rcases next_drain hnext with ⟨rfl, rfl⟩ | ⟨⟨buffer, rfl⟩, hcases⟩
  · rw [notes_fault hnext, List.append_nil]
    exact hm
  · rw [notes_eq hnext (by simp)]
    rcases hcases with ⟨hgot, rfl | rfl⟩ | ⟨message, hgot, hcases⟩
    · rw [hgot]
      exact chatting_append hm noQuit_nil quiet_nil
    · rw [hgot]
      exact leaving_of_chatting hm quiet_nil
    · rw [hgot]
      rcases hcases with ⟨hquit, rfl⟩ | ⟨htype, hlen, rfl⟩ | ⟨hquit, rfl⟩
      · exact leaving_of_chatting hm (quiet_got message)
      · exact acking_of_chatting hm htype hlen
      · exact chatting_append hm (noQuit_got hquit) (quiet_got message)

/-- **A step of the thread** leads to the notes of the next phase. -/
theorem Phase.Meets.step (hm : pc₀.phase.Meets nick ns)
    (hnext : next s h ⟨me, pc₀⟩ b = some (e, pc))
    (hstart : pc₀ = .start → ∃ c, s.entry h = some c ∧ c.threadID = me)
    (hid : pc₀ ≠ .start → ∀ c, s.entry h = some c → c.threadID ≠ 0)
    (hnick : pc₀.phase.accepted = true → ∀ c, s.entry h = some c → c.nickname = nick) :
    pc.phase.Meets (e.storing nick) (ns ++ notes s h ⟨me, pc₀⟩ b) := by
  have hmis : pc ≠ .drop .mismatch := by
    rintro rfl
    rcases mismatched_of_step (step_of_next hnext) rfl with rfl | hmis
    · obtain ⟨c, hc, rfl⟩ := hstart rfl
      rcases next_start hnext with hpc | ⟨c', hc', hpc⟩
      · cases hpc
      · cases hc.symm.trans hc'
        simp at hpc
    · cases pc₀ with
      | drop site => cases site <;> first | exact hm | cases hmis
      | unlink site => cases site <;> first | exact hm | cases hmis
      | exited site => cases site <;> first | exact hm | cases hmis
      | _ => cases hmis
  have hsame : pc₀.phase.Meets nick (ns ++ []) := by rwa [List.append_nil]
  by_cases hdrain : pc₀ = .drain
  · subst hdrain
    exact meets_drain hm hnext
  · cases step_of_next hnext with
    | fault =>
      rw [notes_fault hnext, List.append_nil]
      exact hm
    | move hmove =>
      rw [notes_eq hnext (by simp)]
      exact meets_move hm hmove hdrain hmis (by simp)
    | read hmove =>
      rw [notes_eq hnext (by simp)]
      exact meets_move hm hmove hdrain hmis (by simp)
    | built | wrote | nickFree | threadKnown | removed =>
      rw [notes_eq hnext (by simp)]
      exact hsame
    | sent =>
      rw [notes_eq hnext (by simp)]
      dsimp only
      rw [sentReply_sent, callMade_eq_none (by simp), gotMessage_eq_none (by simp) (by simp)]
      simpa [Effect.storing] using meets_afterSend true hm
    | failed ha =>
      rw [notes_eq hnext (by simp)]
      dsimp only
      rw [sentReply_failed ha, callMade_eq_none (by simp), gotMessage_eq_none (by simp) (by simp)]
      simpa [Effect.storing] using meets_afterSend false hm
    | stored =>
      rw [notes_eq hnext (by simp)]
      exact ⟨ns, hm, rfl⟩
    | pushed hpush =>
      obtain ⟨c, hc, call, hcall, hnotes⟩ := notes_push hnext
      rw [hnotes]
      cases hpush with
      | join =>
        obtain rfl : call = .join c.nickname := by simpa [callMade, hc] using hcall.symm
        obtain ⟨pre, hpre, rfl⟩ := hm
        rw [hnick rfl c hc]
        exact ⟨[], ⟨quiet_nil.failure, pre, hpre, by simp [Effect.storing]⟩, noQuit_nil, rfl⟩
      | relay content =>
        obtain rfl : call = .msg c.nickname content := by simpa [callMade, hc] using hcall.symm
        rw [hnick rfl c hc]
        exact announced_of_relaying hm
      | relayLast content =>
        obtain rfl : call = .msg c.nickname content := by simpa [callMade, hc] using hcall.symm
        rw [hnick rfl c hc]
        obtain ⟨chat, hchat, -, hann⟩ := announced_of_relaying hm
        exact ⟨chat, hchat, hann⟩
      | leave =>
        obtain rfl : call = .leave c.nickname := by simpa [callMade, hc] using hcall.symm
        obtain ⟨chat, hchat, hann⟩ := hm
        rw [hnick rfl c hc]
        exact ⟨chat, hchat.append (noFailure_singleton _ rfl), hann⟩
    | freed hc hzero => exact absurd hzero (hid (by simp) _ hc)

/-- Only the store of the nickname leads to the phases behind it. -/
theorem accepted_of_step (hcl : Step s h me pc₀ b e pc) (hacc : pc.phase.accepted = true) :
    pc₀.phase.accepted = true ∨ (∃ stored, e = .setNickname h stored) ∨
      pc₀ ≠ .start ∧ ∃ c, s.entry h = some c ∧ c.threadID = 0 := by
  cases hcl with
  | fault => exact Or.inl hacc
  | move hmove => exact Or.inl (by cases hmove <;> exact hacc)
  | read hmove => exact Or.inl (by cases hmove <;> exact hacc)
  | built | wrote => exact Or.inl hacc
  | @sent p => cases p <;> first | exact Or.inl rfl | cases hacc
  | @failed p => cases p <;> first | exact Or.inl rfl | cases hacc
  | nickFree | threadKnown => cases hacc
  | stored => exact Or.inr (Or.inl ⟨_, rfl⟩)
  | pushed hpush => cases hpush <;> exact Or.inl rfl
  | freed hc hid => exact Or.inr (Or.inr ⟨by simp, _, hc, hid⟩)
  | removed => exact Or.inl hacc

end Thread

/-! ### Sessions in a run -/

variable {s s' : State} {n : ℕ} {h : Addr} {ns : List Note}

/-- An entry keeps its nickname and, once it has one, its identifier. -/
theorem entry_kept {e : Effect} (hfresh : ∀ l, s.clients = some l → h ≠ l.list.fresh)
    (hstore : ∀ nick, e ≠ .setNickname h nick) {c' : Client}
    (hc' : (s.apply e).entry h = some c') :
    ∃ c, s.entry h = some c ∧ c'.nickname = c.nickname ∧
      (c'.threadID = c.threadID ∨ e = .setThreadID h c'.threadID) := by
  rcases s.entry_apply_write hc' with ⟨l, hl, heq, -⟩ | ⟨c, hc, rfl⟩
  · exact absurd heq (hfresh l hl)
  · refine ⟨c, hc, ?_, ?_⟩
    · rcases (State.keeps_write e h c).nickname with heq | heq
      · exact heq
      · exact absurd heq (hstore _)
    · by_cases hset : ∃ t, e = .setThreadID h t
      · obtain ⟨t, rfl⟩ := hset
        exact Or.inr (by simp [Effect.write])
      · exact Or.inl (threadID_write (fun t he => hset ⟨t, he⟩) c)

/-- The nickname of the entry after a step of the thread. -/
theorem nickname_of_step {me : BitVec 64} {b : ClientAction} {e : Effect} {pc₀ pc : Pc}
    (nick : CStr) (hcl : ClientThread.Step s h me pc₀ b e pc)
    (hfresh : ∀ l, s.clients = some l → h ≠ l.list.fresh) {c' : Client}
    (hc' : (s.apply e).entry h = some c') :
    ((∃ stored, e = .setNickname h stored) ∧ c'.nickname = e.storing nick) ∨
      ∃ c, s.entry h = some c ∧ (∀ stored, e ≠ .setNickname h stored) ∧
        c'.nickname = c.nickname ∧ e.storing nick = nick := by
  by_cases hstore : ∃ stored, e = .setNickname h stored
  · obtain ⟨stored, rfl⟩ := hstore
    refine Or.inl ⟨⟨stored, rfl⟩, ?_⟩
    rcases s.entry_apply_write hc' with ⟨l, -, -, heq⟩ | ⟨c, -, rfl⟩
    · cases heq
    · simp [Effect.write, Effect.storing]
  · have hne : ∀ stored, e ≠ .setNickname h stored := fun stored he => hstore ⟨stored, he⟩
    obtain ⟨c, hc, heq, -⟩ := entry_kept hfresh hne hc'
    refine Or.inr ⟨c, hc, hne, heq, ?_⟩
    cases hcl with
    | stored => exact absurd rfl (hne _)
    | _ => rfl

/-- The thread of client `h` and its history. -/
structure InSession (h : Addr) (x : State × List Note) : Prop where
  /-- There is nothing before the thread begins. -/
  absent : x.1.threads h = none → x.2 = []
  /-- The entry has the identifier of the thread. -/
  own : ∀ t, x.1.threads h = some t → t.pc ≠ .start →
    ∀ c, x.1.entry h = some c → c.threadID = t.me
  /-- The history is that of the phase, with the nickname of the entry. -/
  phase : ∀ t, x.1.threads h = some t → ∃ nick, t.pc.phase.Meets nick x.2 ∧
    (t.pc.phase.accepted = true → ∀ c, x.1.entry h = some c → c.nickname = nick)

theorem inSession_init : InSession h (.init n, []) where
  absent _ := rfl
  own t ht := by cases ht
  phase t ht := by cases ht

/-- A step of another thread. -/
theorem InSession.other (hs : InSession h (s, ns)) (hthread : s'.threads h = s.threads h)
    (hentry : ∀ t, s.threads h = some t → ∀ c', s'.entry h = some c' → ∃ c, s.entry h = some c ∧
      c'.nickname = c.nickname ∧ (c'.threadID = c.threadID ∨ c'.threadID = t.me)) :
    InSession h (s', ns) where
  absent hnone := hs.absent (hthread.symm.trans hnone)
  own t ht hstart c' hc' := by
    have ht' : s.threads h = some t := hthread.symm.trans ht
    obtain ⟨c, hc, -, hid | hid⟩ := hentry t ht' c' hc'
    · exact hid.trans (hs.own t ht' hstart c hc)
    · exact hid
  phase t ht := by
    have ht' : s.threads h = some t := hthread.symm.trans ht
    obtain ⟨nick, hm, hnick⟩ := hs.phase t ht'
    refine ⟨nick, hm, fun hacc c' hc' => ?_⟩
    obtain ⟨c, hc, heq, -⟩ := hentry t ht' c' hc'
    exact heq.trans (hnick hacc c hc)

theorem InSession.acceptor (hs : InSession h (s, ns)) (hhandles : Handles s)
    (hids : Identifiers s) {e : Effect} {pc₀ pc : AcceptorPc} (hpc : s.acceptor = pc₀)
    (hacc : Acceptor.Step s pc₀ e pc) : InSession h ({ s.apply e with acceptor := pc }, ns) := by
  by_cases hspawn : ∃ me, e = .spawn h me
  · -- the thread of this client is created
    obtain ⟨me, rfl⟩ := hspawn
    have hnone : s.threads h = none := by
      cases hacc
      exact (hhandles.spawning h hpc).1
    refine ⟨fun h' => ?_, fun t ht hstart => ?_, fun t ht => ?_⟩
    · change Function.update s.threads h _ h = none at h'
      rw [Function.update_self] at h'
      cases h'
    · rcases State.threads_update ht with ⟨-, rfl⟩ | ⟨hne, -⟩
      · exact absurd rfl hstart
      · exact absurd rfl hne
    · rcases State.threads_update ht with ⟨-, rfl⟩ | ⟨hne, -⟩
      · refine ⟨CStr.empty, ?_, by simp [Pc.phase, Phase.accepted]⟩
        show Opening ns
        rw [show ns = [] from hs.absent hnone]
        exact fun note hmem => absurd hmem List.not_mem_nil
      · exact absurd rfl hne
  · have hthreads : (s.apply e).threads h = s.threads h := by
      cases hacc with
      | @spawned h₀ me =>
        refine Function.update_of_ne ?_ _ _
        rintro rfl
        exact hspawn ⟨me, rfl⟩
      | _ => rfl
    refine hs.other hthreads fun t ht c' hc' => ?_
    have hstore : ∀ nick, e ≠ .setNickname h nick := by
      rintro nick rfl
      cases hacc
    obtain ⟨c, hc, hnick, hid⟩ := entry_kept (hhandles.ne_fresh ht) hstore hc'
    refine ⟨c, hc, hnick, hid.imp_right ?_⟩
    rintro rfl
    cases hacc with
    | stored => exact ((hids.storing h _ hpc).1 t ht).symm

/-- A step of the thread itself. -/
theorem InSession.client (hs : InSession h (s, ns)) (hhandles : Handles s) (hids : Identifiers s)
    {me : BitVec 64} {b : ClientAction} {e : Effect} {pc₀ pc : Pc}
    (ht : s.threads h = some ⟨me, pc₀⟩) (hstarts : StartsOwn h s (.client h b) = true)
    (hnext : ClientThread.next s h ⟨me, pc₀⟩ b = some (e, pc)) :
    InSession h ({ s.apply e with threads := Function.update s.threads h (some ⟨me, pc⟩) },
      ns ++ noted h s (.client h b)) := by
  have hcl := ClientThread.step_of_next hnext
  have hnotes : noted h s (.client h b) = ClientThread.notes s h ⟨me, pc₀⟩ b := by
    simp [noted, ht]
  have hthread : ∀ t, Function.update s.threads h (some ⟨me, pc⟩) h = some t → t = ⟨me, pc⟩ := by
    intro t ht'
    rcases State.threads_update ht' with ⟨-, heq⟩ | ⟨hne, -⟩
    · exact heq
    · exact absurd rfl hne
  -- the identifier of the entry, before the step
  have hstart : pc₀ = .start → ∃ c, s.entry h = some c ∧ c.threadID = me := by
    rintro rfl
    simp only [StartsOwn, ht, bne_self_eq_false, Bool.false_or] at hstarts
    obtain ⟨c, hc, hid⟩ := (Option.any_eq_true _ _).mp hstarts
    exact ⟨c, hc, eq_of_beq hid⟩
  have hown : ∀ c, s.entry h = some c → c.threadID = me := by
    intro c hc
    by_cases hpc : pc₀ = .start
    · obtain ⟨c', hc', hid⟩ := hstart hpc
      cases hc.symm.trans hc'
      exact hid
    · exact hs.own _ ht hpc c hc
  have hzero : ∀ c, s.entry h = some c → c.threadID ≠ 0 := by
    intro c hc
    rw [hown c hc]
    exact hids.nonzero h _ ht
  obtain ⟨nick, hm, hnick⟩ := hs.phase _ ht
  refine ⟨fun hnone => ?_, fun t ht' _ c' hc' => ?_, fun t ht' => ?_⟩
  · change Function.update s.threads h _ h = none at hnone
    rw [Function.update_self] at hnone
    cases hnone
  · rw [hthread t ht']
    obtain ⟨c, hc, hid⟩ := threadID_kept hcl.not_acceptorOnly hc'
    exact hid.trans (hown c hc)
  · rw [hthread t ht', hnotes]
    refine ⟨e.storing nick, hm.step hnext hstart (fun _ => hzero) hnick, fun hacc c' hc' => ?_⟩
    rcases nickname_of_step nick hcl (hhandles.ne_fresh ht) hc' with
      ⟨-, heq⟩ | ⟨c, hc, hstore, heq, hkept⟩
    · exact heq
    · rw [heq, hkept]
      rcases accepted_of_step hcl hacc with hacc₀ | ⟨stored, rfl⟩ | ⟨-, c, hc, hid⟩
      · exact hnick hacc₀ c hc
      · exact absurd rfl (hstore stored)
      · exact absurd hid (hzero c hc)

/-- Nothing is noted about other threads. -/
theorem noted_other {h₀ : Addr} (hne : h₀ ≠ h) (b : ClientAction) :
    noted h s (.client h₀ b) = [] := by
  cases ht : s.threads h with
  | none => simp [noted, ht]
  | some t => simp [noted, ht, hne]

/-- A step of the server. -/
theorem InSession.step (hs : InSession h (s, ns)) (hhandles : Handles s) (hids : Identifiers s)
    {a : Action} (hstarts : StartsOwn h s a = true) (hstep : C2Hat.step s a = some s') :
    InSession h (s', ns ++ noted h s a) := by
  -- a thread that makes no notes leaves the entry alone
  have kept : ∀ {e : Effect}, e.acceptorOnly = false → (∀ nick, e ≠ .setNickname h nick) →
      ∀ t, s.threads h = some t → ∀ c', (s.apply e).entry h = some c' →
        ∃ c, s.entry h = some c ∧ c'.nickname = c.nickname ∧
          (c'.threadID = c.threadID ∨ c'.threadID = t.me) := by
    intro e he hstore t ht c' hc'
    obtain ⟨c, hc, hnick, hid⟩ := entry_kept (hhandles.ne_fresh ht) hstore hc'
    refine ⟨c, hc, hnick, Or.inl (hid.resolve_right ?_)⟩
    intro heq
    rw [heq] at he
    cases he
  cases step_taken hstep with
  | stop =>
    rw [show noted h s .stop = [] from rfl, List.append_nil]
    exact ⟨hs.absent, hs.own, hs.phase⟩
  | @acceptor b _ _ _ hpc hacc =>
    rw [show noted h s (.acceptor b) = [] from rfl, List.append_nil]
    exact hs.acceptor hhandles hids hpc hacc
  | @broadcast b _ _ _ _ hbc =>
    rw [show noted h s (.broadcast b) = [] from rfl, List.append_nil]
    refine hs.other (congrFun (s.apply_threads hbc.not_acceptorOnly) h) ?_
    refine kept hbc.not_acceptorOnly ?_
    rintro nick rfl
    cases hbc
  | @client h₀ _ b _ _ _ _ hcl =>
    by_cases hh : h₀ = h
    · subst hh
      obtain ⟨⟨me, pc₀⟩, e, pc, ht, hnext, heq⟩ := step_client hstep
      rw [heq]
      exact hs.client hhandles hids ht hstarts hnext
    · rw [noted_other hh, List.append_nil]
      refine hs.other (Function.update_of_ne (Ne.symm hh) _ _) ?_
      refine kept hcl.not_acceptorOnly ?_
      rintro nick rfl
      cases hcl
      exact hh rfl

/-- The thread and its history, in every run in which it begins in time. -/
theorem inSession_of_reachable {C : State → Action → Prop} [∀ s a, Decidable (C s a)]
    (hC : ∀ s a, C s a → StartsOwn h s a = true) {x : State × List Note}
    (hreach : Reachable (recording (restrict step C) (noted h)) (.init n, []) x) :
    InSession h x := by
  refine hreach.invariant_along inSession_init ?_
  rintro ⟨s₁, ns₁⟩ a ⟨s₂, ns₂⟩ hr hs hrec
  obtain ⟨hrestrict, rfl⟩ := recording_eq_some.mp hrec
  obtain ⟨hC', hstep⟩ := restrict_eq_some.mp hrestrict
  have hreach₁ : Reachable step (.init n) s₁ := hr.of_recording.of_restrict
  exact hs.step (handles_of_reachable hreach₁) (identifiers_of_reachable hreach₁) (hC _ _ hC') hstep

/-- The opening of a session ends where another note comes. -/
theorem dropWhile_opening {pre : List Note} (hpre : Opening pre) (note : Note)
    (hnote : note.opening = false) (rest : List Note) :
    (pre ++ note :: rest).dropWhile Note.opening = note :: rest := by
  rw [List.dropWhile_append_of_pos hpre, List.dropWhile_cons_of_neg (by simp [hnote])]

/-- **The announcements of every complete session**: with a `/quit` during the
authentication it goes on as without. -/
theorem session_of_exited (hs : InSession h (s, ns)) {t : Thread} {site : Site}
    (ht : s.threads h = some t) (hpc : t.pc = .exited site) :
    ((∃ note ∈ ns, note.failure = true) ∧ calls ns = []) ∨
    NoFailure ns ∧ ∃ nick, .authenticated (some nick) ∈ ns ∧
      acked (ns.dropWhile Note.opening) = false ∧
      calls ns = .join nick :: (acknowledged (ns.dropWhile Note.opening)).map (.msg nick) ++
        [.leave nick] := by
  obtain ⟨nick, hm, -⟩ := hs.phase t ht
  rw [hpc] at hm
  cases site with
  | mismatch => exact hm.elim
  | welcome | auth | hello => exact Or.inl ⟨hm.2, hm.1⟩
  | leave =>
    obtain ⟨chat, ⟨hfailure, pre, hpre, rfl⟩, hann⟩ := hm
    have hdrop := dropWhile_opening hpre (.authenticated (some nick)) rfl
      (.sent .hello true :: .called (.join nick) :: (chat ++ [.called (.leave nick)]))
    have hack : acknowledged (chat ++ [.called (.leave nick)]) = acknowledged chat :=
      acknowledged_append_quiet rfl rfl
    refine Or.inr ⟨?_, nick, by simp, by rw [hdrop]; rfl, ?_⟩
    · intro note hmem
      rcases List.mem_append.mp hmem with hmem | hmem
      · exact hpre.noFailure note hmem
      · simp only [List.mem_cons] at hmem
        rcases hmem with rfl | rfl | rfl | hmem
        · rfl
        · rfl
        · rfl
        · exact hfailure note hmem
    · rw [hdrop, calls_append, hpre.calls_eq]
      show .join nick :: calls (chat ++ [.called (.leave nick)]) =
        .join nick :: (acknowledged (chat ++ [.called (.leave nick)])).map (.msg nick) ++ [.leave nick]
      rw [hack, calls_append, ← hann, List.map_nil, List.append_nil]
      rfl

/-! ### No quit during the authentication -/

/-- The messages of the history are those that `C2HMessage_get` returned. -/
theorem gotMessage_of_mem {t : Thread} {b : ClientAction} {message : C2HMessage}
    (hmem : .got message ∈ ClientThread.notes s h t b) :
    ClientThread.gotMessage s h t.pc b = some message := by
  cases hnext : ClientThread.next s h t b with
  | none => simp [ClientThread.notes, hnext] at hmem
  | some r =>
    obtain ⟨e, pc⟩ := r
    by_cases he : e = .fault
    · subst he
      rw [notes_fault hnext] at hmem
      exact absurd hmem List.not_mem_nil
    · rw [notes_eq hnext he] at hmem
      simp only [List.mem_append, List.mem_map, Option.mem_toList] at hmem
      rcases hmem with ((⟨m, hm, heq⟩ | hsent) | hauth) | ⟨call, -, heq⟩
      · cases heq
        exact hm
      · unfold ClientThread.sentReply at hsent
        split at hsent <;> cases hsent
      · unfold ClientThread.authResult at hauth
        split at hauth <;> cases hauth
      · cases heq

/-- A message that is noted when nothing else than the opening has been comes in the
authentication. -/
theorem noQuit_noted (hs : InSession h (s, ns)) (hns : Opening ns) {a : Action}
    (hquit : NoEarlyQuit h s a = true) : NoQuit (noted h s a) := by
  intro message hmem
  unfold noted at hmem
  split at hmem
  · next x b t ht =>
    split at hmem
    · next hx =>
      have hgot := gotMessage_of_mem hmem
      by_cases hwait : t.pc = .authWait
      · obtain ⟨me, pc⟩ := t
        obtain rfl : pc = .authWait := hwait
        rw [hx] at hquit
        simpa [NoEarlyQuit, ht, hgot] using hquit
      · by_cases hdrain : t.pc = .drain
        · -- the chat comes behind the opening
          obtain ⟨nick, hm, -⟩ := hs.phase t ht
          rw [hdrain] at hm
          obtain ⟨chat, ⟨-, pre, -, hns'⟩, -⟩ := hm
          have hopening := hns (.authenticated (some nick)) (by simp [show ns = _ from hns'])
          cases hopening
        · rw [gotMessage_eq_none hwait hdrain] at hgot
          cases hgot
    · exact absurd hmem List.not_mem_nil
  · exact absurd hmem List.not_mem_nil

/-- The messages during the authentication, in a run without an early `/quit`. -/
theorem noQuit_opening {C : State → Action → Prop} [∀ s a, Decidable (C s a)]
    (hC : ∀ s a, C s a → StartsOwn h s a = true ∧ NoEarlyQuit h s a = true)
    {x : State × List Note}
    (hreach : Reachable (recording (restrict step C) (noted h)) (.init n, []) x) :
    NoQuit (x.2.takeWhile Note.opening) := by
  refine hreach.invariant_along (P := fun x => NoQuit (x.2.takeWhile Note.opening)) noQuit_nil ?_
  rintro ⟨s₁, ns₁⟩ a ⟨s₂, ns₂⟩ hr hs hrec
  obtain ⟨hrestrict, rfl⟩ := recording_eq_some.mp hrec
  obtain ⟨hC', hstep⟩ := restrict_eq_some.mp hrestrict
  have hsession := inSession_of_reachable (fun s a h => (hC s a h).1) hr
  show NoQuit ((ns₁ ++ noted h s₁ a).takeWhile Note.opening)
  rw [List.takeWhile_append]
  split
  · next hlen =>
    -- the session has not got beyond its opening
    have hall : ns₁.takeWhile Note.opening = ns₁ :=
      (List.takeWhile_prefix _).eq_of_length hlen
    have hns : Opening ns₁ := List.takeWhile_eq_self_iff.mp hall
    refine NoQuit.append (hall ▸ hs) fun message hmem => ?_
    exact noQuit_noted hsession hns (hC _ _ hC').2 message (List.takeWhile_subset _ hmem)
  · exact hs

/-- **The announcements of a session** whose thread begins with its identifier in its
entry, in every run in which no `/quit` comes during the authentication: none when the
welcome, the authentication or the reply failed; else that the client has joined, the
messages that were acknowledged up to a `/quit`, and that the client has left. -/
theorem session_trace
    (hreach : Reachable (recording
      (restrict step fun s a => StartsOwn h s a = true ∧ NoEarlyQuit h s a = true) (noted h))
      (.init n, []) (s, ns)) {t : Thread} {site : Site} (ht : s.threads h = some t)
    (hpc : t.pc = .exited site) : Session ns := by
  have hs := inSession_of_reachable (fun _ _ h => h.1) hreach
  have hquit := noQuit_opening (fun _ _ h => h) hreach
  rcases session_of_exited hs ht hpc with ⟨hfailure, hcalls⟩ | ⟨hfailure, nick, hmem, hacked, hcalls⟩
  · refine ⟨fun _ => hcalls, fun hnone => ?_⟩
    obtain ⟨note, hnote, heq⟩ := hfailure
    rw [hnone note hnote] at heq
    cases heq
  · refine ⟨?_, fun _ => ⟨nick, hmem, ?_⟩⟩
    · rintro ⟨note, hnote, heq⟩
      rw [hfailure note hnote] at heq
      cases heq
    · have hopening : Opening (ns.takeWhile Note.opening) := fun note hnote =>
        List.mem_takeWhile_imp hnote
      have hsplit : acknowledged ns = acknowledged (ns.dropWhile Note.opening) := by
        have happend := acknowledged_append hquit hacked
        rwa [List.takeWhile_append_dropWhile, hopening.acknowledged_eq, List.nil_append] at happend
      rw [hsplit]
      exact hcalls

namespace Script

/-- A message comes in the chat, is acknowledged and relayed. -/
def say (h : Addr) (nick content : CStr) : List Action :=
  [.client h .go, .client h (.ready true false [.received (ascii "/msg " ++ content.bytes ++ [0])]),
    .client h .go] ++ send h (.ack content) nick ++
    [.client h (.message (text (Server.relay nick content)))]

/-- A request to quit comes before the nickname. -/
def quitEarly (h : Addr) (nick : CStr) : List Action :=
  .client h .go :: send h .welcome nick ++ send h .prompt nick ++
    [.client h (.ready true false [.received (ascii "/quit" ++ [0])]),
      .client h (.ready true false [.received (ascii "/nick " ++ nick.bytes ++ [0])]),
      .client h (.regex .matched)] ++ authenticate h ++ greet h nick

end Script

/-- Joe joins, says something and quits. -/
theorem session_trace_joe :
    ∃ s ns, Reachable (recording
        (restrict step fun s a => StartsOwn 0 s a = true ∧ NoEarlyQuit 0 s a = true) (noted 0))
        (.init 1, []) (s, ns) ∧
      calls ns = [.join (str "Joe"), .msg (str "Joe") (str "hi"), .leave (str "Joe")] ∧
      Session ns := by
  obtain ⟨⟨s, ns⟩, hreach, hs⟩ : ∃ x, Reachable (recording
      (restrict step fun s a => StartsOwn 0 s a = true ∧ NoEarlyQuit 0 s a = true) (noted 0))
      (.init 1, []) x ∧ ((x.1.threads 0).any (fun t => t.pc == .exited .leave) &&
        calls x.2 == [.join (str "Joe"), .msg (str "Joe") (str "hi"), .leave (str "Joe")]) = true :=
    Reachable.of_any (Script.startUp ++ Script.connect 11 ++ Script.join 0 (str "Joe") ++
      Script.say 0 (str "Joe") (str "hi") ++ Script.quit 0 (str "Joe")) (by decide +kernel)
  simp only [Bool.and_eq_true, Option.any_eq_true, beq_iff_eq] at hs
  obtain ⟨⟨t, ht, hpc⟩, hcalls⟩ := hs
  exact ⟨s, ns, hreach, hcalls, session_trace hreach ht hpc⟩

/-- Joe asks to quit before he gives his nickname, and the session goes on. -/
theorem not_session_trace_early :
    ∃ s ns t, Reachable (recording (restrict step fun s a => StartsOwn 0 s a = true) (noted 0))
        (.init 1, []) (s, ns) ∧ s.threads 0 = some t ∧ t.pc = .exited .leave ∧ ¬ Session ns := by
  obtain ⟨⟨s, ns⟩, hreach, hs⟩ : ∃ x, Reachable (recording
      (restrict step fun s a => StartsOwn 0 s a = true) (noted 0)) (.init 1, []) x ∧
      ((x.1.threads 0).any (fun t => t.pc == .exited .leave) &&
        (calls x.2 == [.join (str "Joe"), .msg (str "Joe") (str "hi"), .leave (str "Joe")] &&
          (x.2.all (fun note => !note.failure) && acknowledged x.2 == []))) = true :=
    Reachable.of_any (Script.startUp ++ Script.connect 11 ++ Script.quitEarly 0 (str "Joe") ++
      Script.say 0 (str "Joe") (str "hi") ++ Script.quit 0 (str "Joe")) (by decide +kernel)
  simp only [Bool.and_eq_true, Option.any_eq_true, beq_iff_eq, List.all_eq_true,
    Bool.not_eq_true'] at hs
  obtain ⟨⟨t, ht, hpc⟩, hcalls, hfailure, hack⟩ := hs
  refine ⟨s, ns, t, hreach, ht, hpc, fun hsession => ?_⟩
  obtain ⟨nick, -, heq⟩ := hsession.accepted hfailure
  rw [hcalls, hack] at heq
  simp at heq

end C2Hat
