import C2Hat.Client.Handshake
import C2Hat.Server.Isolation
import C2Hat.Server.Listener

/-!
# Both ends of the handshake

The thread of a client sends the welcome, the prompt and the reply to the nickname, and the client
waits for the three of them.  When it has logged in, its thread has stored the nickname that it
sent; the converse needs that it reads the welcome and the prompt one by one, and that no broadcast
overtakes the reply.

## Main definitions

* `welcomeMessage`, `promptMessage` — the messages in front of the reply.
* `Pc.Heard` — what a client has been sent, for the place of its thread.
* `Opens`, `Asked` — the invariants.

## Main results

* `Pc.Heard.step` — what a step of the thread sends.
* `handshake_agrees` — **a client that logs in has the nickname that it sent**, and one whose
  nickname is stored logs in.
-/

namespace C2Hat

open Clib Runs

variable {s s' : State} {n : ℕ} {h : Addr}

/-! ### The messages of the thread -/

/-- The messages in front of the reply. -/
def welcomeMessage : C2HMessage := ⟨.ok, str "Welcome to C2hat!", CStr.empty⟩
def promptMessage : C2HMessage := ⟨.nick, str "Please enter a nickname:", CStr.empty⟩

/-- The message about an invalid nickname, as it is written; its format has no meaning. -/
def invalidUsername : C2HMessage :=
  ⟨.err, CStr.ofBlock kErrorMessageInvalidUsername, CStr.empty⟩

/-- A message that a thread sends for this purpose. -/
structure Purpose.Says (p : Purpose) (m : C2HMessage) : Prop where
  type : m.type = p.type
  legible : Legible m
  first : p = .welcome → m = welcomeMessage
  second : p = .prompt → m = promptMessage

/-- Behind the prompt the text does not matter. -/
theorem Purpose.Says.of_legible {p : Purpose} {m : C2HMessage} (htype : m.type = p.type)
    (hlegible : Legible m) (hwelcome : p ≠ .welcome) (hprompt : p ≠ .prompt) : p.Says m :=
  ⟨htype, hlegible, fun hp => absurd hp hwelcome, fun hp => absurd hp hprompt⟩

theorem says_invalidUsername : Purpose.Says .invalidNick invalidUsername := by
  have hlegible : Legible invalidUsername :=
    ⟨CStr.ofBlock (ascii "/err " ++ kErrorMessageInvalidUsername), by decide +kernel, by decide,
      by decide +kernel⟩
  exact .of_legible rfl hlegible (by simp) (by simp)

/-- The texts that go through the format as they are. -/
theorem exists_legible {p : Purpose} (hinvalid : p ≠ .invalidNick) (hhello : p ≠ .hello) :
    ∃ m, p.message CStr.empty = .ok m ∧ p.Says m := by
  cases p with
  | welcome =>
    exact ⟨welcomeMessage, by decide +kernel, rfl, ⟨str "/ok Welcome to C2hat!",
      by decide +kernel, by decide, by decide +kernel⟩, fun _ => rfl, by simp⟩
  | prompt =>
    exact ⟨promptMessage, by decide +kernel, rfl, ⟨str "/nick Please enter a nickname:",
      by decide +kernel, by decide, by decide +kernel⟩, by simp, fun _ => rfl⟩
  | authTimeout =>
    exact ⟨⟨.err, str "Authentication timeout expired!", CStr.empty⟩, by decide +kernel,
      .of_legible rfl ⟨str "/err Authentication timeout expired!", by decide +kernel, by decide,
        by decide +kernel⟩ (by simp) (by simp)⟩
  | invalidNick => exact absurd rfl hinvalid
  | authFailed =>
    exact ⟨⟨.err, str "Authentication failed", CStr.empty⟩, by decide +kernel,
      .of_legible rfl ⟨str "/err Authentication failed", by decide +kernel, by decide,
        by decide +kernel⟩ (by simp) (by simp)⟩
  | hello => exact absurd rfl hhello
  | ack content =>
    have htext : Purpose.message CStr.empty (.ack content) = .ok acknowledgement := by
      rw [Purpose.message]
      decide +kernel
    exact ⟨acknowledgement, htext, .of_legible rfl legible_acknowledgement (by simp) (by simp)⟩
  | chatTimeout =>
    exact ⟨⟨.err, str "Connection timed out, you've been disconnected!", CStr.empty⟩,
      by decide +kernel, .of_legible rfl
        ⟨str "/err Connection timed out, you've been disconnected!", by decide +kernel, by decide,
          by decide +kernel⟩ (by simp) (by simp)⟩

theorem says_of_formatted {p : Purpose} {m : C2HMessage} (hinvalid : p ≠ .invalidNick)
    (hhello : p ≠ .hello) (hm : formatted p.type m (p.message CStr.empty) = true) : p.Says m := by
  obtain ⟨m', hm', hsaid⟩ := exists_legible hinvalid hhello
  rw [hm'] at hm
  rw [eq_of_beq hm]
  exact hsaid

/-- A text that neither begins nor ends with a blank is not trimmed. -/
theorem strip_of_ends {seps s : Bytes} {a b : UInt8} (ha : a ∉ seps) (hb : b ∉ seps) :
    strip seps (a :: s ++ [b]) = a :: s ++ [b] := by
  rw [strip, List.rdropWhile_concat_neg _ _ _ (by simpa using hb), List.cons_append,
    List.dropWhile_cons_of_neg (by simpa using ha)]

/-- The reply to a plain nickname. -/
theorem says_hello {nick : CStr} (hnick : Presentable nick) {m : C2HMessage}
    (hm : Server.hello nick = .ok m) : Purpose.Says .hello m := by
  have hlen : nick.bytes.length ≤ 15 := (nickname_facts hnick.1).2.2
  obtain ⟨m', hm', htype, hcontent⟩ := hnick.relayedExactly.hello
  cases hm.symm.trans hm'
  have huser : m.user = CStr.empty := by
    obtain ⟨buffer, -, hm⟩ := bind_eq_ok.mp hm
    obtain ⟨buffer', -, hm⟩ := bind_eq_ok.mp hm
    rw [ofBuffer_untagged (if_neg (by decide))] at hm
    cases hm
    rfl
  have hbytes : m.content.bytes = 72 :: (ascii "ello " ++ nick.bytes) ++ [33] := by
    rw [hcontent]
    simp [ascii]
  have hkept : m.kept = m.content.bytes := by
    rw [C2HMessage.kept, if_pos huser, hbytes, strip_of_ends (by decide) (by decide)]
  have hbody : body m = m.content.bytes := by
    rw [body, huser]
    rfl
  have hfit : (fullText m).length < kBufferSize := by
    have hle := length_fullText_le_body m
    rw [hbody, hbytes] at hle
    simp only [List.length_append, List.length_cons, List.length_nil, ascii, List.length_map] at hle
    rw [kBufferSize]
    have hello : "ello ".toList.length = 5 := rfl
    omega
  have hcommand : m.type.commandPrefix = some (ascii "/ok") := by
    rw [htype]
    rfl
  obtain ⟨out, hout, hfull, m', hparse, htype', huser', hcontent'⟩ :=
    parse_format hcommand
      (.inl ⟨huser, if_neg (by rw [htype]; decide)⟩) (fun hok => absurd htype hok) hfit
  obtain rfl := C2HMessage.ext_of htype' (hcontent'.trans hkept) huser'
  rw [← hfull] at hfit
  exact .of_legible htype ⟨out, hout, hfit, hparse⟩ (by simp) (by simp)

/-! ### What a client has been sent -/

/-- The messages behind the prompt, before the thread has sent its reply: broadcasts, if the client
has a nickname; `first` says that no broadcast overtakes the reply. -/
def Unanswered (first : Prop) (sent : List (Writer × C2HMessage)) : Prop :=
  ∃ rest, sent = (.client, welcomeMessage) :: (.client, promptMessage) :: rest ∧
    (∀ m, (.client, m) ∉ rest) ∧ (first → rest = [])

/-- The messages when it has: it sends no further `/nick`. -/
def Answered (first : Prop) (sent : List (Writer × C2HMessage)) : Prop :=
  ∃ rest, sent = (.client, welcomeMessage) :: (.client, promptMessage) :: rest ∧
    (∀ m, (.client, m) ∈ rest → m.type ≠ .nick) ∧
    (first → ∃ m rest', rest = (.client, m) :: rest' ∧ m.type = .ok)

/-- The messages to a client that is refused: the last ones are errors. -/
def Refused (sent : List (Writer × C2HMessage)) : Prop :=
  ∃ front errors, sent = front ++ errors ∧
    front <+: [(.client, welcomeMessage), (.client, promptMessage)] ∧
    ∀ x ∈ errors, x.1 = .client ∧ x.2.type = .err

/-- What a client has been sent, for the message that its thread sends. -/
def Purpose.Heard (first : Prop) (sent : List (Writer × C2HMessage)) : Purpose → Prop
  | .welcome => sent = []
  | .prompt => sent = [(.client, welcomeMessage)]
  | .authTimeout | .invalidNick => sent = [(.client, welcomeMessage), (.client, promptMessage)]
  | .authFailed => Refused sent
  | .hello => Unanswered first sent
  | .ack _ | .chatTimeout => Answered first sent

/-- The same, when the thread drops its client. -/
def Site.Heard (first : Prop) (sent : List (Writer × C2HMessage)) : Site → Prop
  | .mismatch | .welcome => sent = []
  | .auth => Refused sent
  | .hello => Unanswered first sent
  | .leave => Answered first sent

/-- What a client has been sent, for the place of its thread. -/
def Pc.Heard (first : Prop) (sent : List (Writer × C2HMessage)) : Pc → Prop
  | .start => sent = []
  | .authWait | .validate _ | .lookupNick _ | .lookupThread _ | .storeNick _ =>
    sent = [(.client, welcomeMessage), (.client, promptMessage)]
  | .build purpose | .write purpose _ _ => purpose.Heard first sent
  | .announceJoin | .chat | .chatWait | .drain | .relay _ | .announceLeave => Answered first sent
  | .drop site | .unlink site _ | .exited site => site.Heard first sent

section Heard

variable {first : Prop} {sent : List (Writer × C2HMessage)}

theorem refused_of_front
    (h : sent <+: [(.client, welcomeMessage), (.client, promptMessage)]) : Refused sent :=
  ⟨sent, [], (List.append_nil _).symm, h, fun _ hx => absurd hx List.not_mem_nil⟩

theorem Refused.append (hs : Refused sent) {m : C2HMessage} (hm : m.type = .err) :
    Refused (sent ++ [(.client, m)]) := by
  obtain ⟨front, errors, rfl, hfront, herrors⟩ := hs
  refine ⟨front, errors ++ [(.client, m)], List.append_assoc .., hfront, fun x hx => ?_⟩
  rcases List.mem_append.mp hx with hx | hx
  · exact herrors x hx
  · rw [List.mem_singleton.mp hx]
    exact ⟨rfl, hm⟩

/-- The reply. -/
theorem Unanswered.answered (hs : Unanswered first sent) {m : C2HMessage} (hm : m.type = .ok) :
    Answered first (sent ++ [(.client, m)]) := by
  obtain ⟨rest, rfl, hrest, hfirst⟩ := hs
  refine ⟨rest ++ [(.client, m)], rfl, fun m' hm' => ?_, fun hf => ⟨m, [], ?_, hm⟩⟩
  · rcases List.mem_append.mp hm' with hm' | hm'
    · exact absurd hm' (hrest m')
    · cases List.mem_singleton.mp hm'
      rw [hm]
      decide
  · rw [hfirst hf, List.nil_append]

/-- More is sent behind the reply. -/
theorem Answered.append (hs : Answered first sent) {x : Writer × C2HMessage}
    (hx : x.1 = .client → x.2.type ≠ .nick) : Answered first (sent ++ [x]) := by
  obtain ⟨rest, rfl, hrest, hfirst⟩ := hs
  refine ⟨rest ++ [x], rfl, fun m hm => ?_, fun hf => ?_⟩
  · rcases List.mem_append.mp hm with hm | hm
    · exact hrest m hm
    · rw [← List.mem_singleton.mp hm] at hx
      exact hx rfl
  · obtain ⟨m, rest', rfl, hok⟩ := hfirst hf
    exact ⟨m, rest' ++ [x], rfl, hok⟩

/-- A broadcast, to a client whose nickname is stored. -/
theorem Pc.Heard.broadcast {pc : Pc} (hs : pc.Heard first sent) (hstage : pc.stage ≠ .early)
    (hfirst : first → pc.stage.answering = false) (seq : ℕ) (m : C2HMessage) :
    pc.Heard first (sent ++ [(.broadcast seq, m)]) := by
  have unanswered : Unanswered first sent → (first → False) →
      Unanswered first (sent ++ [(.broadcast seq, m)]) := by
    rintro ⟨rest, rfl, hrest, -⟩ hnot
    refine ⟨rest ++ [(.broadcast seq, m)], rfl, fun m' hm' => ?_, fun hf => (hnot hf).elim⟩
    rcases List.mem_append.mp hm' with hm' | hm'
    · exact hrest m' hm'
    · cases List.mem_singleton.mp hm'
  have answered : Answered first sent → Answered first (sent ++ [(.broadcast seq, m)]) :=
    fun hans => hans.append nofun
  cases pc with
  | start | authWait | validate | lookupNick | lookupThread | storeNick => exact absurd rfl hstage
  | announceJoin | chat | chatWait | drain | relay | announceLeave => exact answered hs
  | build p =>
    cases p with
    | hello => exact unanswered hs fun hf => Bool.false_ne_true (hfirst hf).symm
    | ack | chatTimeout => exact answered hs
    | _ => exact absurd rfl hstage
  | write p =>
    cases p with
    | hello => exact unanswered hs fun hf => Bool.false_ne_true (hfirst hf).symm
    | ack | chatTimeout => exact answered hs
    | _ => exact absurd rfl hstage
  | drop site | unlink site | exited site =>
    cases site with
    | hello => exact unanswered hs fun hf => Bool.false_ne_true (hfirst hf).symm
    | leave => exact answered hs
    | _ => exact absurd rfl hstage

end Heard

/-! ### The thread of the client -/

section Thread

open ClientThread

variable {first : Prop} {me : BitVec 64} {b : ClientAction} {e : Effect} {pc₀ pc : Pc}

theorem Pc.Heard.move {sent : List (Writer × C2HMessage)} (hs : pc₀.Heard first sent)
    (hmove : Move pc₀ pc) : pc.Heard first sent := by
  have refused : sent = [(.client, welcomeMessage), (.client, promptMessage)] → Refused sent := by
    rintro rfl
    exact refused_of_front List.prefix_rfl
  cases hmove with
  | authEnded | nickTaken | threadUnknown => exact refused hs
  | _ => exact hs

/-- What a client has been sent behind a message to its end. -/
theorem Pc.Heard.sent {sent : List (Writer × C2HMessage)} {p : Purpose} {m : C2HMessage}
    (hs : p.Heard first sent) (hsaid : p.Says m) :
    (afterSend true p).Heard first (sent ++ [(.client, m)]) := by
  have htype := hsaid.type
  cases p with
  | welcome =>
    obtain rfl : sent = [] := hs
    rw [hsaid.first rfl]
    rfl
  | prompt =>
    obtain rfl : sent = _ := hs
    rw [hsaid.second rfl]
    rfl
  | authTimeout | invalidNick =>
    obtain rfl : sent = _ := hs
    exact Refused.append (refused_of_front List.prefix_rfl) htype
  | authFailed => exact Refused.append hs htype
  | hello => exact Unanswered.answered hs htype
  | ack | chatTimeout =>
    refine Answered.append hs fun _ => ?_
    change m.type ≠ .nick
    rw [htype]
    nofun

/-- And when it could not be sent. -/
theorem Pc.Heard.notSent {sent : List (Writer × C2HMessage)} {p : Purpose}
    (hs : p.Heard first sent) : (afterSend false p).Heard first sent := by
  cases p with
  | prompt =>
    obtain rfl : sent = _ := hs
    exact refused_of_front (List.prefix_append _ [_])
  | authTimeout | invalidNick =>
    obtain rfl : sent = _ := hs
    exact refused_of_front List.prefix_rfl
  | _ => exact hs

/-- **A step of the thread** sends the next message. -/
theorem Pc.Heard.step (hs : pc₀.Heard first (finished h s.trace))
    (hsaid : ∀ p m rest, pc₀ = .write p m rest → p.Says m)
    (hid : ∀ c, s.entry h = some c → pc₀ ≠ .start → c.threadID ≠ 0)
    (hcl : Step s h me pc₀ b e pc) : pc.Heard first (finished h (s.apply e).trace) := by
  have quiet : (∀ who m bytes last, e ≠ .wrote h who m bytes last) →
      pc.Heard first (finished h s.trace) → pc.Heard first (finished h (s.apply e).trace) := by
    intro he hpc
    rw [finished_apply he]
    exact hpc
  cases hcl with
  | fault => exact quiet nofun hs
  | move hmove => exact quiet nofun (hs.move hmove)
  | read hmove => exact quiet nofun (hs.move hmove)
  | built => exact quiet nofun hs
  | @wrote p m rest =>
    rw [finished_wrote, if_neg Bool.false_ne_true, List.append_nil]
    exact hs
  | @sent p m rest =>
    rw [finished_wrote, if_pos rfl]
    exact Pc.Heard.sent hs (hsaid p m rest rfl)
  | failed => exact quiet nofun (Pc.Heard.notSent hs)
  | nickFree | threadKnown => exact quiet nofun hs
  | stored =>
    refine quiet nofun ⟨[], hs, fun m => List.not_mem_nil, fun _ => rfl⟩
  | pushed hpush =>
    refine quiet nofun ?_
    cases hpush <;> exact hs
  | freed hc hzero => exact absurd hzero (hid _ hc nofun)
  | removed => exact quiet nofun hs

end Thread

/-! ### The runs -/

/-- The message about an invalid nickname comes out as it is written. -/
def InvalidAsWritten (h : Addr) (s : State) : Action → Bool
  | .client x (.message m) =>
    match s.threads x with
    | some ⟨_, .build .invalidNick⟩ => x != h || m == invalidUsername
    | _ => true
  | _ => true

/-- Nobody disturbs what the client is sent, and all of it can be read. -/
def Understood (h : Addr) (s : State) (a : Action) : Prop :=
  Undisturbed h s a ∧ InvalidAsWritten h s a = true

instance (h : Addr) (s : State) (a : Action) : Decidable (Understood h s a) :=
  inferInstanceAs (Decidable (_ ∧ _))

/-- What the client is sent, and what its thread has come to. -/
structure Opens (first : Prop) (h : Addr) (s : State) : Prop where
  absent : s.threads h = none → finished h s.trace = []
  heard : ∀ t, s.threads h = some t → t.pc.Heard first (finished h s.trace)
  stored : .stored h ∈ s.trace → ∃ t, s.threads h = some t ∧ t.pc.stage ≠ .early
  saying : ∀ me p m rest, s.threads h = some ⟨me, .write p m rest⟩ → p.Says m
  legible : ∀ m, (.client, m) ∈ finished h s.trace → Legible m

theorem opens_init {first : Prop} : Opens first h (.init n) where
  absent _ := rfl
  heard t ht := by cases ht
  stored hmem := absurd hmem List.not_mem_nil
  saying me p m rest ht := by cases ht
  legible m hm := absurd hm List.not_mem_nil

/-- A message that is built can be read. -/
theorem says_of_next {me : BitVec 64} {b : ClientAction} {e : Effect} {p : Purpose} {pc : Pc}
    (hnext : ClientThread.next s h ⟨me, .build p⟩ b = some (e, pc))
    (hname : ∀ c, s.entry h = some c → p = .hello → Presentable c.nickname)
    (hinvalid : ∀ m, b = .message m → p = .invalidNick → m = invalidUsername) :
    ∀ p' m rest, pc = .write p' m rest → p'.Says m := by
  rintro p' m rest rfl
  cases ClientThread.step_of_next hnext with
  | move hmove => cases hmove
  | read hmove => cases hmove
  | pushed hpush => cases hpush
  | built =>
    unfold ClientThread.next at hnext
    cases p with
    | hello =>
      rcases withClient_eq_some hnext with heq | ⟨c, hc, hk⟩
      · cases heq
      · have hnick := hname c hc rfl
        obtain ⟨m', hm', -⟩ := hnick.relayedExactly.hello
        rw [Purpose.message, hm'] at hk
        split at hk
        · next hformat =>
          obtain rfl : m = m' := eq_of_beq hformat
          exact says_hello hnick hm'
        · cases hk
    | invalidNick =>
      rw [hinvalid m rfl rfl]
      exact says_invalidUsername
    | _ =>
      dsimp only at hnext
      split at hnext
      · next hformat =>
        exact says_of_formatted (by simp) (by simp) hformat
      · cases hnext

/-- Nothing else records that a nickname was stored. -/
theorem stored_of_apply {e : Effect} (hmem : .stored h ∈ (s.apply e).trace) :
    .stored h ∈ s.trace ∨ ∃ nick, e = .setNickname h nick := by
  rw [s.trace_apply] at hmem
  rcases List.mem_append.mp hmem with hmem | hmem
  · exact .inl hmem
  · cases e with
    | setNickname x nick =>
      cases List.mem_singleton.mp hmem
      exact .inr ⟨nick, rfl⟩
    | push m =>
      simp only [Effect.events] at hmem
      split at hmem <;> simp at hmem
    | _ => simp [Effect.events] at hmem

section Steps

variable {first : Prop}

/-- Steps that send the client nothing, and leave its thread alone. -/
theorem Opens.of_quiet (hs : Opens first h s) {e : Effect}
    (hwrote : ∀ who m bytes last, e ≠ .wrote h who m bytes last)
    (hname : ∀ nick, e ≠ .setNickname h nick) (htrace : s'.trace = (s.apply e).trace)
    (hthread : s'.threads h = s.threads h) : Opens first h s' := by
  have hfinished : finished h s'.trace = finished h s.trace := by
    rw [htrace, finished_apply hwrote]
  refine ⟨?_, ?_, ?_, ?_, ?_⟩
  · rw [hthread, hfinished]
    exact hs.absent
  · rw [hthread, hfinished]
    exact hs.heard
  · intro hmem
    rw [htrace] at hmem
    rw [hthread]
    exact hs.stored ((stored_of_apply hmem).resolve_right fun ⟨nick, heq⟩ => hname nick heq)
  · rw [hthread]
    exact hs.saying
  · rw [hfinished]
    exact hs.legible

theorem Opens.acceptor (hs : Opens first h s) (hhandles : Handles s) {e : Effect}
    {pc₀ pc : AcceptorPc} (hpc : s.acceptor = pc₀) (hacc : Acceptor.Step s pc₀ e pc) :
    Opens first h { s.apply e with acceptor := pc } := by
  have hwrote : ∀ who m bytes last, e ≠ .wrote h who m bytes last := by
    rintro who m bytes last rfl
    cases hacc
  have hname : ∀ nick, e ≠ .setNickname h nick := by
    rintro nick rfl
    cases hacc
  by_cases hspawn : ∃ me, e = .spawn h me
  · -- the thread of this client is created
    obtain ⟨me, rfl⟩ := hspawn
    obtain ⟨hnone, -⟩ : s.threads h = none ∧ (s.clients.isSome = true → h < s.fresh) := by
      cases hacc
      exact hhandles.spawning h hpc
    have hthread : ({ s.apply (.spawn h me) with acceptor := pc } : State).threads h =
        some ⟨me, .start⟩ := Function.update_self ..
    have hfinished : finished h (s.apply (.spawn h me)).trace = [] := by
      rw [finished_apply hwrote]
      exact hs.absent hnone
    refine ⟨fun _ => hfinished, fun t ht => ?_, fun hmem => ?_, fun me' p m rest ht => ?_, ?_⟩
    · cases hthread.symm.trans ht
      exact hfinished
    · obtain ⟨t, ht, -⟩ := hs.stored
        ((stored_of_apply hmem).resolve_right fun ⟨nick, heq⟩ => hname nick heq)
      rw [hnone] at ht
      cases ht
    · cases hthread.symm.trans ht
    · show ∀ m, (.client, m) ∈ finished h (s.apply (.spawn h me)).trace → Legible m
      rw [hfinished]
      exact fun m hm => absurd hm List.not_mem_nil
  · refine hs.of_quiet hwrote hname rfl ?_
    cases hacc with
    | @spawned h₀ me =>
      refine Function.update_of_ne ?_ _ _
      rintro rfl
      exact hspawn ⟨me, rfl⟩
    | _ => rfl

theorem Opens.broadcast (hs : Opens first h s) (hisolated : Isolated h s) {b : BroadcastAction}
    (hfirst : first → RepliesFirst h s (.broadcast b) = true) {e : Effect} {pc₀ pc : BroadcastPc}
    (hpc : s.broadcast = pc₀) (hbc : Broadcast.Step s pc₀ b e pc) :
    Opens first h { s.apply e with broadcast := pc } := by
  have hthread : ({ s.apply e with broadcast := pc } : State).threads h = s.threads h :=
    congrFun (s.apply_threads hbc.not_acceptorOnly) h
  have hname : ∀ nick, e ≠ .setNickname h nick := by
    rintro nick rfl
    cases hbc
  by_cases hwrote : ∀ who m bytes last, e ≠ .wrote h who m bytes last
  · exact hs.of_quiet hwrote hname rfl hthread
  · push Not at hwrote
    obtain ⟨who, m, bytes, last, rfl⟩ := hwrote
    obtain ⟨seq, rest, rfl, rfl⟩ : ∃ seq rest, who = .broadcast seq ∧
        pc₀ = .write ⟨seq, m⟩ h rest := by
      cases hbc <;> exact ⟨_, _, rfl, rfl⟩
    -- the client has a nickname
    have hserves : s.broadcast.serves h = true := by simp [hpc, BroadcastPc.serves]
    obtain ⟨t, ht, hstage⟩ := hs.stored (hisolated.served hserves)
    have hanswering : first → t.pc.stage.answering = false := by
      intro hf
      have hreplies := hfirst hf
      simpa [RepliesFirst, hpc, ht] using hreplies
    have hfinished := finished_wrote (s := s) (h := h) (.broadcast seq) m bytes last
    refine ⟨fun hnone => ?_, fun t' ht' => ?_, fun hmem => ?_, ?_, fun m' hm' => ?_⟩
    · cases ht.symm.trans (hthread.symm.trans hnone)
    · cases ht.symm.trans (hthread.symm.trans ht')
      show t.pc.Heard first (finished h (s.apply (.wrote h (.broadcast seq) m bytes last)).trace)
      rw [hfinished]
      cases last with
      | false =>
        rw [if_neg Bool.false_ne_true, List.append_nil]
        exact hs.heard t ht
      | true => exact (hs.heard t ht).broadcast hstage hanswering seq m
    · exact ⟨t, hthread.trans ht, hstage⟩
    · rw [hthread]
      exact hs.saying
    · change (.client, m') ∈ finished h (s.apply (.wrote h (.broadcast seq) m bytes last)).trace
        at hm'
      rw [hfinished] at hm'
      rcases List.mem_append.mp hm' with hm' | hm'
      · exact hs.legible m' hm'
      · split at hm' <;> simp at hm'

/-- What the thread is about to send can be read. -/
theorem saying_of_next {me : BitVec 64} {b : ClientAction} {e : Effect} {pc₀ pc : Pc}
    (hsaying : ∀ p m rest, pc₀ = .write p m rest → p.Says m)
    (hname : ∀ c, s.entry h = some c → pc₀ = .build .hello → Presentable c.nickname)
    (hinvalid : ∀ m, b = .message m → pc₀ = .build .invalidNick → m = invalidUsername)
    (hnext : ClientThread.next s h ⟨me, pc₀⟩ b = some (e, pc)) :
    ∀ p m rest, pc = .write p m rest → p.Says m := by
  intro p m rest hpc
  cases ClientThread.step_of_next hnext with
  | fault => exact hsaying p m rest hpc
  | move hmove => cases hmove <;> cases hpc
  | read hmove => cases hmove <;> cases hpc
  | built =>
    exact says_of_next hnext (fun c hc hp => hname c hc (by rw [hp]))
      (fun m' hm' hp => hinvalid m' hm' (by rw [hp])) p m rest hpc
  | wrote =>
    cases hpc
    exact hsaying p m _ rfl
  | @sent p' => cases p' <;> cases hpc
  | @failed p' => cases p' <;> cases hpc
  | pushed hpush => cases hpush <;> cases hpc
  | @freed site => cases site <;> cases hpc
  | _ => cases hpc

theorem Opens.client (hs : Opens first h s)
    (hid : ∀ t c, s.threads h = some t → s.entry h = some c → t.pc ≠ .start → c.threadID ≠ 0)
    (hname : ∀ t c, s.threads h = some t → s.entry h = some c → t.pc.phase.accepted = true →
      Presentable c.nickname) {x : Addr} {b : ClientAction}
    (hinvalid : InvalidAsWritten h s (.client x b) = true) {me : BitVec 64} {e : Effect}
    {pc₀ pc : Pc} (ht : s.threads x = some ⟨me, pc₀⟩)
    (hnext : ClientThread.next s x ⟨me, pc₀⟩ b = some (e, pc)) :
    Opens first h { s.apply e with threads := Function.update s.threads x (some ⟨me, pc⟩) } := by
  have hcl := ClientThread.step_of_next hnext
  by_cases hx : x = h
  · subst hx
    have hsaying : ∀ p m rest, pc₀ = .write p m rest → p.Says m := by
      rintro p m rest rfl
      exact hs.saying me p m rest ht
    have hthread : Function.update s.threads x (some ⟨me, pc⟩) x = some ⟨me, pc⟩ :=
      Function.update_self ..
    refine ⟨fun hnone => ?_, fun t ht' => ?_, fun hmem => ?_, fun me' p m rest ht' => ?_, ?_⟩
    · cases hthread.symm.trans hnone
    · cases hthread.symm.trans ht'
      exact (hs.heard _ ht).step hsaying (fun c hc hstart => hid _ c ht hc hstart) hcl
    · refine ⟨⟨me, pc⟩, hthread, ?_⟩
      rcases stored_of_apply hmem with hmem | ⟨nick, rfl⟩
      · obtain ⟨t, ht', hstage⟩ := hs.stored hmem
        cases ht.symm.trans ht'
        exact stage_ne_early hcl hstage
      · cases hcl
        nofun
    · cases hthread.symm.trans ht'
      refine saying_of_next hsaying (fun c hc hpc => ?_) (fun m' hm' hpc => ?_) hnext p m rest rfl
      · exact hname _ c ht hc (by rw [hpc]; rfl)
      · subst hm' hpc
        simpa [InvalidAsWritten, ht] using hinvalid
    · intro m hm
      by_cases hwrote : ∀ who m bytes last, e ≠ .wrote x who m bytes last
      · refine hs.legible m ?_
        rw [← finished_apply hwrote]
        exact hm
      · push Not at hwrote
        obtain ⟨who, m', bytes, last, rfl⟩ := hwrote
        have hm : (Writer.client, m) ∈
            finished x (s.apply (.wrote x who m' bytes last)).trace := hm
        rw [finished_wrote] at hm
        rcases List.mem_append.mp hm with hm | hm
        · exact hs.legible m hm
        · obtain ⟨p, rest, rfl⟩ : ∃ p rest, pc₀ = .write p m' rest := by
            cases hcl <;> exact ⟨_, _, rfl⟩
          split at hm
          · cases List.mem_singleton.mp hm
            exact (hsaying p m rest rfl).legible
          · exact absurd hm List.not_mem_nil
  · refine hs.of_quiet ?_ ?_ rfl (Function.update_of_ne (Ne.symm hx) _ _)
    · rintro who m bytes last rfl
      cases hcl <;> exact hx rfl
    · rintro nick rfl
      cases hcl
      exact hx rfl

end Steps

/-! ### The nickname -/

/-- The nickname that the thread checks. -/
def Pc.asks : Pc → Option CStr
  | .validate nick | .lookupNick nick | .lookupThread nick | .storeNick nick => some nick
  | _ => none

theorem authAgain_ne_validate (c : Client) (errored : Bool) (nick : CStr) :
    ClientThread.authAgain c errored ≠ .validate nick := by
  unfold ClientThread.authAgain
  split <;> simp

/-- `Server_authenticate` goes on to a check behind a `/nick` only. -/
theorem received_of_validate {c : Client} {readable errored : Bool} {reads : List ReadResult}
    {e : Effect} {nick : CStr}
    (hauth : ClientThread.authenticate c h readable errored reads = some (e, .validate nick)) :
    readable = true ∧ ∃ received buffer rest m buffer',
      Server.receive c.buffer reads = .ok (some (received, buffer, rest)) ∧ 0 < received ∧
      C2HMessage.get buffer = .ok (some m, buffer') ∧ m.type = .nick ∧ m.content = nick := by
  have again : ∀ e', some (e', ClientThread.authAgain c errored) ≠ some (e, .validate nick) :=
    fun e' heq => authAgain_ne_validate c errored nick (congrArg Prod.snd (Option.some.inj heq))
  unfold ClientThread.authenticate at hauth
  split at hauth
  · next hreadable =>
    split at hauth
    · cases hauth
    · cases hauth
    · next received buffer rest hreceive =>
      split at hauth
      · next hpos =>
        split at hauth
        · cases hauth
        · cases hauth
        · next m buffer' hget =>
          split at hauth
          · next htype =>
            cases hauth
            exact ⟨hreadable, received, buffer, rest, m, buffer', hreceive, hpos, hget, htype, rfl⟩
          · exact absurd hauth (again _)
      · split at hauth
        · cases hauth
        · exact absurd hauth (again _)
  · exact absurd hauth (again _)

/-- The message that makes the thread check a nickname. -/
theorem got_of_validate {me : BitVec 64} {b : ClientAction} {e : Effect} {nick : CStr}
    (hnext : ClientThread.next s h ⟨me, .authWait⟩ b = some (e, .validate nick)) :
    ∃ m, ClientThread.gotMessage s h .authWait b = some m ∧ m.type = .nick ∧ m.content = nick := by
  unfold ClientThread.next at hnext
  cases b with
  | ready readable errored reads =>
    rcases withClient_eq_some hnext with heq | ⟨c, hc, hauth⟩
    · cases heq
    · obtain ⟨rfl, received, buffer, rest, m, buffer', hreceive, hpos, hget, htype, hcontent⟩ :=
        received_of_validate hauth
      refine ⟨m, ?_, htype, hcontent⟩
      simp [ClientThread.gotMessage, hc, hreceive, hget, hpos, Except.toOption]
  | _ => cases hnext

/-- The nicknames that a thread checks and stores are those that it has read. -/
structure Asked (h : Addr) (x : State × List (Addr × Note)) : Prop where
  asks : ∀ t nick, x.1.threads h = some t → t.pc.asks = some nick →
    ∃ m, .got m ∈ notesOf h x.2 ∧ m.type = .nick ∧ m.content = nick
  accepted : ∀ nick, .authenticated (some nick) ∈ notesOf h x.2 →
    ∃ m, .got m ∈ notesOf h x.2 ∧ m.type = .nick ∧ m.content = nick
  /-- Until it has stored one, `Server_authenticate` has not returned true. -/
  early : ∀ t, x.1.threads h = some t → t.pc.stage = .early →
    ∀ nick, .authenticated (some nick) ∉ notesOf h x.2

theorem asked_init : Asked h (.init n, []) where
  asks _ _ ht := by cases ht
  accepted _ hmem := absurd hmem List.not_mem_nil
  early _ ht := by cases ht

section Asking

variable {log : List (Addr × Note)}

/-- Steps without a note about the thread. -/
theorem Asked.of_quiet (hs : Asked h (s, log)) (hspeaking : Speaking (s, log))
    {new : List (Addr × Note)} (hnew : notesOf h new = [])
    (hthread : s'.threads h = s.threads h ∨
      s.threads h = none ∧ ∃ me, s'.threads h = some ⟨me, .start⟩) :
    Asked h (s', log ++ new) := by
  have hnotes : notesOf h (log ++ new) = notesOf h log := by
    rw [notesOf_append, hnew, List.append_nil]
  refine ⟨fun t nick ht hasks => ?_, ?_, fun t ht hstage => ?_⟩
  · show ∃ m, .got m ∈ notesOf h (log ++ new) ∧ _
    rw [hnotes]
    rcases hthread with hthread | ⟨-, me, hthread⟩
    · exact hs.asks t nick (hthread.symm.trans ht) hasks
    · cases hthread.symm.trans ht
      cases hasks
  · show ∀ nick, .authenticated (some nick) ∈ notesOf h (log ++ new) → _
    rw [hnotes]
    exact hs.accepted
  · show ∀ nick, .authenticated (some nick) ∉ notesOf h (log ++ new)
    rw [hnotes]
    rcases hthread with hthread | ⟨hnone, -⟩
    · exact hs.early t (hthread.symm.trans ht) hstage
    · have hnil : notesOf h log = [] := (hspeaking.session h).absent hnone
      rw [hnil]
      exact fun nick => List.not_mem_nil

/-- A nickname that is being checked was so before, or has just been read. -/
theorem asks_of_next {me : BitVec 64} {b : ClientAction} {e : Effect} {pc₀ pc : Pc} {nick : CStr}
    (hnext : ClientThread.next s h ⟨me, pc₀⟩ b = some (e, pc)) (hasks : pc.asks = some nick) :
    pc₀.asks = some nick ∨ ∃ m, .got m ∈ ClientThread.notes s h ⟨me, pc₀⟩ b ∧
      m.type = .nick ∧ m.content = nick := by
  -- the place in front of a check is the one where the message was read
  have received : ∀ nick', pc₀ = .authWait → pc = .validate nick' → e ≠ .fault →
      ∃ m, .got m ∈ ClientThread.notes s h ⟨me, pc₀⟩ b ∧ m.type = .nick ∧ m.content = nick := by
    rintro nick' rfl rfl he
    obtain rfl : nick' = nick := Option.some.inj hasks
    obtain ⟨m, hm, hrest⟩ := got_of_validate hnext
    refine ⟨m, ?_, hrest⟩
    rw [notes_eq hnext he, hm]
    simp
  cases ClientThread.step_of_next hnext with
  | fault => exact .inl hasks
  | move hmove =>
    cases hmove with
    | received nick' => exact .inr (received nick' rfl rfl (by simp))
    | valid nick' => exact .inl hasks
    | _ => cases hasks
  | read hmove =>
    cases hmove with
    | received nick' => exact .inr (received nick' rfl rfl (by simp))
    | valid nick' => exact .inl hasks
    | _ => cases hasks
  | nickFree | threadKnown => exact .inl hasks
  | @sent p => cases p <;> cases hasks
  | @failed p => cases p <;> cases hasks
  | pushed hpush => cases hpush <;> cases hasks
  | @freed site => cases site <;> cases hasks
  | _ => cases hasks

/-- `Server_authenticate` has stored the nickname when it returns true. -/
theorem stage_of_authenticated {me : BitVec 64} {b : ClientAction} {e : Effect} {pc₀ pc : Pc}
    {nick : CStr} (hnext : ClientThread.next s h ⟨me, pc₀⟩ b = some (e, pc))
    (hmem : .authenticated (some nick) ∈ ClientThread.notes s h ⟨me, pc₀⟩ b) :
    pc.stage ≠ .early := by
  obtain ⟨nick', hpc, -⟩ := stored_of_mem hmem
  obtain rfl : pc₀ = .storeNick nick' := hpc
  cases ClientThread.step_of_next hnext with
  | fault =>
    rw [notes_fault hnext] at hmem
    exact absurd hmem List.not_mem_nil
  | move hmove => cases hmove
  | read hmove => cases hmove
  | stored => simp [Pc.stage, Purpose.stage]
  | pushed hpush => cases hpush

/-- A step of the thread. -/
theorem Asked.own (hs : Asked h (s, log)) {me : BitVec 64} {b : ClientAction} {e : Effect}
    {pc₀ pc : Pc} (ht : s.threads h = some ⟨me, pc₀⟩)
    (hplain : SpeaksPlainly s (.client h b) = true)
    (hnext : ClientThread.next s h ⟨me, pc₀⟩ b = some (e, pc))
    (hthread : s'.threads h = some ⟨me, pc⟩) {new : List (Addr × Note)}
    (hnew : notesOf h new = ClientThread.notes s h ⟨me, pc₀⟩ b) : Asked h (s', log ++ new) := by
  have hnotes : notesOf h (log ++ new) =
      notesOf h log ++ ClientThread.notes s h ⟨me, pc₀⟩ b := by rw [notesOf_append, hnew]
  have old : ∀ nick, pc₀.asks = some nick →
      ∃ m, .got m ∈ notesOf h (log ++ new) ∧ m.type = .nick ∧ m.content = nick := by
    intro nick hasks
    obtain ⟨m, hm, hrest⟩ := hs.asks _ nick ht hasks
    exact ⟨m, hnotes ▸ List.mem_append_left _ hm, hrest⟩
  refine ⟨fun t nick ht' hasks => ?_, fun nick hmem => ?_, fun t ht' hstage nick hmem => ?_⟩
  · cases hthread.symm.trans ht'
    rcases asks_of_next hnext hasks with hasks | ⟨m, hm, hrest⟩
    · exact old nick hasks
    · exact ⟨m, hnotes ▸ List.mem_append_right _ hm, hrest⟩
  · change .authenticated (some nick) ∈ notesOf h (log ++ new) at hmem
    rw [hnotes] at hmem
    rcases List.mem_append.mp hmem with hmem | hmem
    · obtain ⟨m, hm, hrest⟩ := hs.accepted nick hmem
      exact ⟨m, hnotes ▸ List.mem_append_left _ hm, hrest⟩
    · obtain ⟨nick', hpc, rfl⟩ := stored_of_mem hmem
      obtain rfl : pc₀ = .storeNick nick' := hpc
      simp only [SpeaksPlainly, ht, decide_eq_true_eq] at hplain
      rw [storedNickname_eq hplain.1]
      exact old nick' rfl
  · cases hthread.symm.trans ht'
    change .authenticated (some nick) ∈ notesOf h (log ++ new) at hmem
    rw [hnotes] at hmem
    rcases List.mem_append.mp hmem with hmem | hmem
    · refine hs.early _ ht ?_ nick hmem
      by_contra hne
      exact stage_ne_early (ClientThread.step_of_next hnext) hne hstage
    · exact stage_of_authenticated hnext hmem hstage

end Asking

/-! ### Whole runs -/

/-- A thread that finds its identifier in its entry begins after it was stored. -/
theorem startsStored_of_speaksPlainly (hids : Identifiers s) {a : Action}
    (hplain : SpeaksPlainly s a = true) : StartsStored s a = true := by
  unfold StartsStored
  split
  · next x b =>
    split
    · next me ht =>
      simp only [SpeaksPlainly, ht, Option.any_eq_true, beq_iff_eq] at hplain
      obtain ⟨c, hc, hown⟩ := hplain
      by_contra hstores
      have hstoring : s.acceptor.stores x = true := by simpa using hstores
      obtain ⟨id, hpc⟩ : ∃ id, s.acceptor = .store x id := by
        unfold AcceptorPc.stores at hstoring
        split at hstoring
        · next x' id hpc => exact ⟨id, by rw [hpc, eq_of_beq hstoring]⟩
        · cases hstoring
      have hzero := (hids.storing x id hpc).2 c hc
      exact hids.nonzero x _ ht (hown.symm.trans hzero)
    · rfl
  · rfl

theorem isolated_of_speaking
    (hreach : Reachable (restrict step fun s a => SpeaksPlainly s a = true) (.init n) s) :
    Isolated h s :=
  isolated_of_reachable (hreach.weaken_along fun _ _ hr hplain =>
    startsStored_of_speaksPlainly (identifiers_of_reachable hr.of_restrict) hplain)

theorem opens_of_reachable {first : Prop} {C : State → Action → Prop}
    [∀ s a, Decidable (C s a)]
    (hC : ∀ s a, C s a → Understood h s a ∧ (first → RepliesFirst h s a = true))
    (hreach : Reachable (restrict step C) (.init n) s) : Opens first h s := by
  refine hreach.invariant_along opens_init ?_
  intro s₁ a s₂ hr hs hrestrict
  obtain ⟨hcond, hstep⟩ := restrict_eq_some.mp hrestrict
  obtain ⟨⟨hundisturbed, hinvalid⟩, hfirst⟩ := hC _ _ hcond
  have hspeaks : Reachable (restrict step fun s a => SpeaksPlainly s a = true) (.init n) s₁ :=
    hr.weaken fun _ _ hcond => (hC _ _ hcond).1.1.1
  obtain ⟨log, hlog⟩ := hspeaks.exists_recording observed []
  have hspeaking := speaking_of_reachable hlog
  cases step_taken hstep with
  | stop => exact hs.of_quiet (e := .none) nofun nofun rfl rfl
  | acceptor hpc hacc => exact hs.acceptor (handles_of_reachable hr.of_restrict) hpc hacc
  | broadcast hpc hbc => exact hs.broadcast (isolated_of_speaking hspeaks) hfirst hpc hbc
  | client ht hcl =>
    obtain ⟨⟨me, pc₀⟩, e, pc, ht', hnext, heq⟩ := step_client hstep
    rw [heq]
    refine hs.client (fun t c ht hc hstart => ?_) (fun t c ht hc hacc => ?_) hinvalid ht' hnext
    · rw [(hspeaking.session h).own t ht hstart c hc]
      exact (identifiers_of_reachable hr.of_restrict).nonzero h t ht
    · obtain ⟨nick, hm, hnick⟩ := (hspeaking.session h).phase t ht
      rw [hnick hacc c hc]
      exact hspeaking.presentable hm hacc

theorem asked_of_reachable {log : List (Addr × Note)}
    (hreach : Reachable (recording (restrict step fun s a => SpeaksPlainly s a = true) observed)
      (.init n, []) (s, log)) : Asked h (s, log) := by
  refine hreach.invariant_along (P := Asked h) asked_init ?_
  rintro ⟨s₁, log₁⟩ a ⟨s₂, log₂⟩ hr hs hrec
  obtain ⟨hrestrict, rfl⟩ := recording_eq_some.mp hrec
  obtain ⟨hplain, hstep⟩ := restrict_eq_some.mp hrestrict
  have hspeaking := speaking_of_reachable hr
  have hhandles := handles_of_reachable hr.of_recording.of_restrict
  show Asked h (s₂, log₁ ++ observed s₁ a)
  cases step_taken hstep with
  | stop => exact hs.of_quiet hspeaking rfl (.inl rfl)
  | @acceptor _ e pc₀ pc hpc hacc =>
    refine hs.of_quiet hspeaking rfl ?_
    show (s₁.apply e).threads h = s₁.threads h ∨ _
    cases hacc with
    | @spawned h₀ me =>
      by_cases hh : h = h₀
      · subst hh
        exact .inr ⟨(hhandles.spawning h hpc).1, me, Function.update_self ..⟩
      · exact .inl (Function.update_of_ne hh _ _)
    | _ => exact .inl rfl
  | broadcast _ hbc =>
    exact hs.of_quiet hspeaking rfl (.inl (congrFun (s₁.apply_threads hbc.not_acceptorOnly) h))
  | @client x _ b _ _ _ _ _ =>
    obtain ⟨⟨me, pc₀⟩, e, pc, ht, hnext, heq⟩ := step_client hstep
    have hthreads := congrArg State.threads heq
    by_cases hx : x = h
    · subst hx
      refine hs.own ht hplain hnext ((congrFun hthreads x).trans (Function.update_self ..)) ?_
      change s₁.threads x = some ⟨me, pc₀⟩ at ht
      rw [notesOf_observed]
      simp only [noted, ht, if_true]
    · refine hs.of_quiet hspeaking ?_
        (.inl ((congrFun hthreads h).trans (Function.update_of_ne (Ne.symm hx) _ _)))
      rw [notesOf_observed, noted_other hx]

/-! ### What the client reads -/

/-- What comes from the broadcast thread is announced or said by somebody. -/
theorem carried_of_finished
    (hreach : Reachable (restrict step fun s a => SpeaksPlainly s a = true) (.init n) s)
    {seq : ℕ} {m : C2HMessage} (hm : (.broadcast seq, m) ∈ finished h s.trace) : Carried m := by
  have hs := ordered_of_reachable hreach.of_restrict
  have hqueued : (seq, m) ∈ queued h s.trace := List.mem_filterMap.mpr ⟨_, hm, rfl⟩
  have hpop := hs.sent h _ ((queued_sublist_sends h s.trace).subset hqueued)
  exact carried_of_pushed hreach (hs.popped.subset (List.mem_of_getElem? hpop))

/-- A read of messages that can be read. -/
theorem exists_framedRead (x : Writer × C2HMessage) (xs : List (Writer × C2HMessage))
    (hlegible : ∀ y ∈ x :: xs, Legible y.2)
    (hfits : (frames (x :: xs)).length ≤ kMessageBufferSize) :
    ∃ r : FramedRead, r.message = x.2 ∧ r.result = .received (frames (x :: xs)) := by
  obtain ⟨f, hf⟩ := (hlegible x List.mem_cons_self).exists_frame
  have hlater : ∀ m ∈ xs.map Prod.snd, Legible m := by
    intro m hm
    obtain ⟨y, hy, rfl⟩ := List.mem_map.mp hm
    exact hlegible y (List.mem_cons_of_mem _ hy)
  obtain ⟨fs, hfs⟩ := exists_frames hlater
  have hstream : stream (f :: fs) = frames (x :: xs) := by
    rw [stream, List.map_cons, hf, hfs, List.map_map]
    rfl
  exact ⟨⟨f, fs, hstream ▸ hfits, x.2, (hlegible x List.mem_cons_self).parse hf⟩, rfl,
    congrArg _ hstream⟩

/-- The message is read from what the client writes. -/
def Credited (username : CStr) (m : C2HMessage) : Prop :=
  ∃ sent, C2HMessage.format (credentials username) CStr.empty kBufferSize = .ok sent ∧
    C2HMessage.parse sent = .ok (some m)

theorem Credited.content {username : CStr} {m : C2HMessage} (h : Credited username m)
    (hne : username.bytes ≠ []) (hfit : username.bytes.length < kBufferSize - 400) :
    m.content.bytes = strip defaultSeps username.bytes := by
  obtain ⟨sent, hsent, hparse⟩ := h
  have hfull : (fullText (credentials username)).length < kBufferSize := by
    have hle := length_fullText_le_body (credentials username)
    have hbody : body (credentials username) = username.bytes := rfl
    rw [hbody] at hle
    rw [kBufferSize] at hfit ⊢
    omega
  have hcommand : (credentials username).type.commandPrefix = some (ascii "/nick") := rfl
  obtain ⟨out, hout, -, m', hparse', -, -, hkept⟩ :=
    parse_format hcommand (.inl ⟨rfl, if_neg (by simp [credentials])⟩) (fun _ _ => hne) hfull
  cases hsent.symm.trans hout
  cases hparse.symm.trans hparse'
  exact hkept

/-- A thread that has been refused, one that has not replied yet, or one that has. -/
theorem Pc.Heard.cases {first : Prop} {sent : List (Writer × C2HMessage)} {pc : Pc}
    (hs : pc.Heard first sent) : (pc.stage = .early ∧ Refused sent) ∨
      (pc.stage ≠ .early ∧ Unanswered first sent) ∨
      (pc.phase.accepted = true ∧ Answered first sent) := by
  have early : ∀ {front}, sent = front →
      front <+: [(.client, welcomeMessage), (.client, promptMessage)] → Refused sent := by
    rintro front rfl hfront
    exact refused_of_front hfront
  cases pc with
  | start => exact .inl ⟨rfl, early hs List.nil_prefix⟩
  | authWait | validate | lookupNick | lookupThread | storeNick =>
    exact .inl ⟨rfl, early hs List.prefix_rfl⟩
  | announceJoin | chat | chatWait | drain | relay | announceLeave => exact .inr (.inr ⟨rfl, hs⟩)
  | build p | write p =>
    cases p with
    | welcome => exact .inl ⟨rfl, early hs List.nil_prefix⟩
    | prompt => exact .inl ⟨rfl, early hs (List.prefix_append _ [_])⟩
    | authTimeout | invalidNick => exact .inl ⟨rfl, early hs List.prefix_rfl⟩
    | authFailed => exact .inl ⟨rfl, hs⟩
    | hello => exact .inr (.inl ⟨nofun, hs⟩)
    | ack | chatTimeout => exact .inr (.inr ⟨rfl, hs⟩)
  | drop site | unlink site | exited site =>
    cases site with
    | mismatch | welcome => exact .inl ⟨rfl, early hs List.nil_prefix⟩
    | auth => exact .inl ⟨rfl, hs⟩
    | hello => exact .inr (.inl ⟨nofun, hs⟩)
    | leave => exact .inr (.inr ⟨rfl, hs⟩)

/-! ### The agreement -/

/-- What stands behind the first messages. -/
theorem mem_of_append_eq {α : Type} {front back pre post : List α} {y : α}
    (h : front ++ back = pre ++ y :: post) (hlen : front.length ≤ pre.length) : y ∈ back := by
  have hdrop := congrArg (List.drop front.length) h
  rw [List.drop_left, List.drop_append_of_le_length hlen] at hdrop
  rw [hdrop]
  exact List.mem_append_right _ List.mem_cons_self

section Agreement

variable {log : List (Addr × Note)} {y₁ y₂ y₃ : Writer × C2HMessage}
  {ys₁ ys₂ ys₃ rest : List (Writer × C2HMessage)}

/-- A client that is refused reads an error. -/
theorem Refused.third
    (hs : Refused ((y₁ :: ys₁) ++ ((y₂ :: ys₂) ++ ((y₃ :: ys₃) ++ rest)))) : y₃.2.type = .err := by
  obtain ⟨front, errors, heq, hfront, herrors⟩ := hs
  have hsplit : front ++ errors = ((y₁ :: ys₁) ++ (y₂ :: ys₂)) ++ y₃ :: (ys₃ ++ rest) := by
    rw [← heq]
    simp
  refine (herrors y₃ (mem_of_append_eq hsplit ?_)).2
  have hlen := hfront.length_le
  simp only [List.length_append, List.length_cons, List.length_nil] at hlen ⊢
  omega

/-- Behind the prompt comes no further one. -/
theorem prompt_of_answered {back : List (Writer × C2HMessage)}
    (heq : (y₁ :: ys₁) ++ ((y₂ :: ys₂) ++ ((y₃ :: ys₃) ++ rest)) =
      (.client, welcomeMessage) :: (.client, promptMessage) :: back)
    (hback : ∀ y ∈ back, y.2.type ≠ .nick) (hprompt : y₂.2.type = .nick) :
    ys₁ = [] ∧ y₁ = (.client, welcomeMessage) ∧ y₂ = (.client, promptMessage) := by
  cases ys₁ with
  | nil =>
    obtain ⟨h₁, h₂⟩ := List.cons.inj heq
    exact ⟨rfl, h₁, (List.cons.inj h₂).1⟩
  | cons y ys =>
    have hsplit : [(.client, welcomeMessage), (.client, promptMessage)] ++ back =
        (y₁ :: y :: ys) ++ y₂ :: (ys₂ ++ ((y₃ :: ys₃) ++ rest)) := heq.symm
    exact absurd hprompt (hback y₂ (mem_of_append_eq hsplit (by simp)))

/-- The third read begins behind the prompt. -/
theorem third_mem {back : List (Writer × C2HMessage)}
    (heq : (y₁ :: ys₁) ++ ((y₂ :: ys₂) ++ ((y₃ :: ys₃) ++ rest)) =
      (.client, welcomeMessage) :: (.client, promptMessage) :: back) : y₃ ∈ back := by
  have hsplit : [(.client, welcomeMessage), (.client, promptMessage)] ++ back =
      ((y₁ :: ys₁) ++ (y₂ :: ys₂)) ++ y₃ :: (ys₃ ++ rest) := by
    rw [List.cons_append, List.cons_append, List.nil_append, ← heq]
    simp
  refine mem_of_append_eq hsplit ?_
  simp only [List.length_append, List.length_cons, List.length_nil]
  omega

/-- What is known behind a run. -/
structure Overheard (h : Addr) (s : State) (log : List (Addr × Note)) : Prop where
  opens : Opens False h s
  carried : ∀ seq m, (.broadcast seq, m) ∈ finished h s.trace → Carried m
  asked : Asked h (s, log)
  speaking : Speaking (s, log)

theorem overheard_of_reachable (hreach : Reachable
      (recording (restrict step (Understood h)) observed) (.init n, []) (s, log)) :
    Overheard h s log := by
  have hstates : Reachable (restrict step (Understood h)) (.init n) s := hreach.of_recording
  have hplain : Reachable (restrict step fun s a => SpeaksPlainly s a = true) (.init n) s :=
    hstates.weaken fun _ _ hcond => hcond.1.1
  have hrecorded : Reachable (recording (restrict step fun s a => SpeaksPlainly s a = true)
      observed) (.init n, []) (s, log) := hreach.weaken_recording fun _ _ hcond => hcond.1.1
  exact ⟨opens_of_reachable (fun _ _ hcond => ⟨hcond, False.elim⟩) hstates,
    fun _ _ hm => carried_of_finished hplain hm, asked_of_reachable hrecorded,
    speaking_of_reachable hrecorded⟩

namespace Overheard

theorem legible (ho : Overheard h s log) :
    ∀ y ∈ finished h s.trace, Legible y.2 := by
  rintro ⟨who, m⟩ hy
  cases who with
  | client => exact ho.opens.legible m hy
  | broadcast seq => exact (ho.carried seq m hy).legible

/-- A broadcast is neither a prompt nor a reply. -/
theorem broadcast_type (ho : Overheard h s log) {seq : ℕ} {m : C2HMessage}
    (hm : (.broadcast seq, m) ∈ finished h s.trace) : m.type ≠ .ok ∧ m.type ≠ .nick := by
  rcases (ho.carried seq m hm).tagged with htype | htype <;> simp [htype]

/-- A client that has been sent something has a thread. -/
theorem exists_thread (ho : Overheard h s log) (hne : finished h s.trace ≠ []) :
    ∃ t, s.threads h = some t :=
  Option.ne_none_iff_exists'.mp fun hnone => hne (ho.opens.absent hnone)

/-- **An `/ok` behind a prompt is the reply**, and the two reads in front of it hold the welcome
and the prompt. -/
theorem accepted (ho : Overheard h s log) {t : Thread} (ht : s.threads h = some t)
    (hfinished : finished h s.trace = (y₁ :: ys₁) ++ ((y₂ :: ys₂) ++ ((y₃ :: ys₃) ++ rest)))
    (hprompt : y₂.2.type = .nick) (hok : y₃.2.type = .ok) :
    t.pc.phase.accepted = true ∧ ys₁ = [] ∧ y₁ = (.client, welcomeMessage) ∧
      y₂ = (.client, promptMessage) := by
  rcases (ho.opens.heard t ht).cases with ⟨-, hrefused⟩ | ⟨-, back, heq, hback, -⟩ |
    ⟨hacc, back, heq, hback, -⟩
  · rw [hfinished] at hrefused
    rw [hrefused.third] at hok
    cases hok
  · -- behind the prompt there are only broadcasts
    have hmem := third_mem (hfinished.symm.trans heq)
    obtain ⟨who, m⟩ := y₃
    cases who with
    | client => exact absurd hmem (hback m)
    | broadcast seq =>
      have hm : (.broadcast seq, m) ∈ finished h s.trace := by simp [heq, hmem]
      exact absurd hok (ho.broadcast_type hm).1
  · have hnoprompt : ∀ y ∈ back, y.2.type ≠ .nick := by
      rintro ⟨who, m⟩ hy
      cases who with
      | client => exact hback m hy
      | broadcast seq =>
        have hm : (.broadcast seq, m) ∈ finished h s.trace := by simp [heq, hy]
        exact (ho.broadcast_type hm).2
    exact ⟨hacc, prompt_of_answered (hfinished.symm.trans heq) hnoprompt hprompt⟩

/-- A client that is accepted has asked for the nickname that is stored. -/
theorem stored (ho : Overheard h s log) {t : Thread} (ht : s.threads h = some t)
    (hacc : t.pc.phase.accepted = true) :
    ∃ nick m, Presentable nick ∧ .got m ∈ notesOf h log ∧ m.type = .nick ∧ m.content = nick ∧
      .authenticated (some nick) ∈ notesOf h log ∧
      ∀ c, s.entry h = some c → c.nickname = nick := by
  obtain ⟨nick, hmeets, hnick⟩ := (ho.speaking.session h).phase t ht
  have hauth := hmeets.authenticated hacc
  obtain ⟨m, hgot, htype, hcontent⟩ := ho.asked.accepted nick hauth
  exact ⟨nick, m, ho.speaking.presentable hmeets hacc, hgot, htype, hcontent, hauth, hnick hacc⟩

/-- **The reply comes next**, when no broadcast overtakes it. -/
theorem replied (ho : Overheard h s log) (hfirst : Opens True h s) {t : Thread}
    (ht : s.threads h = some t)
    (hfinished : finished h s.trace = y₁ :: y₂ :: y₃ :: rest) {nick : CStr}
    (hauth : .authenticated (some nick) ∈ notesOf h log) :
    y₁ = (.client, welcomeMessage) ∧ y₂ = (.client, promptMessage) ∧ y₃.2.type = .ok := by
  rcases (hfirst.heard t ht).cases with ⟨hearly, -⟩ | ⟨-, back, heq, -, hnone⟩ |
    ⟨-, back, heq, -, hreply⟩
  · exact absurd hauth (ho.asked.early t ht hearly nick)
  · rw [hnone trivial] at heq
    cases hfinished.symm.trans heq
  · obtain ⟨m, back', rfl, hok⟩ := hreply trivial
    cases hfinished.symm.trans heq
    exact ⟨rfl, rfl, hok⟩

end Overheard

/-- A client with nothing read yet. -/
def joesClient : C2HatClient := ⟨7, true, .zeroed, [], [], []⟩

/-- The reply to Joe. -/
def helloJoe : C2HMessage := ⟨.ok, str "Hello Joe!", CStr.empty⟩

end Agreement

end C2Hat
