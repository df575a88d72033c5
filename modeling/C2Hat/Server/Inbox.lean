import C2Hat.Draining
import C2Hat.Server.Threads

/-!
# The messages of one read

The inner loop of `Server_handleClient` takes the messages of a client out of its buffer
before it reads again.  It goes on as long as there is a message and no request to quit,
and looks at the pointer to the message for that; but the branch that relays a message
frees it and clears the pointer.  So the loop ends with the first message that is
relayed, and the frames behind it are lost with the next read.

## Main definitions

* `Server.handleMessages` — the loop, given which acknowledgements can be sent.
* `Server.HandlesAll` — every frame up to the first request to quit is processed.

## Main results

* `takeMessage_eq` — the steps of the client threads are the rounds of the loop.
* `handlesAll_iff` — **every frame of a read is processed exactly when only the last one
  may be a chat message.**
* `loops_leave_nothing_iff` — **a loop leaves recognised frames behind a `NULL` exactly
  when there are some behind a frame that is not recognised.**
-/

namespace C2Hat

open Clib

/-- A message that is acknowledged and relayed. -/
def C2HMessage.isChat (m : C2HMessage) : Bool :=
  decide (m.type = .msg) && decide (0 < m.content.bytes.length)

/-- The body of the loop: whether there still is a message, and whether the client quits.
`acked` says whether the acknowledgement can be sent, when one is. -/
def Server.body (acked : Bool) (message : C2HMessage) : Bool × Bool :=
  if message.type = .quit then (false, true)
  else if message.isChat then
    -- without an acknowledgement the message is not freed
    if acked then (false, false) else (true, false)
  else (true, false)

/-- The condition of the loop fails behind the body. -/
def Server.ends (acks : ℕ → Bool) (n : ℕ) (message : C2HMessage) : Bool :=
  let (there, quit) := Server.body (acks n) message
  !(there && !quit)

/-- The inner loop of `Server_handleClient`; `acks` says in which rounds an
acknowledgement can be sent. -/
def Server.handleMessages (acks : ℕ → Bool) :
    ℕ → MessageBuffer → Except Fault (Option (Drained MessageBuffer)) :=
  getLoop (Server.ends acks)

/-- The messages that are relayed, of those the loop takes out. -/
def Server.relayed : (ℕ → Bool) → List (CStr × C2HMessage) → List C2HMessage
  | _, [] => []
  | acks, r :: taken =>
    let rest := Server.relayed (fun n => acks (n + 1)) taken
    if r.2.isChat && acks 0 then r.2 :: rest else rest

/-! ### The threads -/

namespace ClientThread

/-- Where a thread goes on with a message. -/
def pcFor (message : C2HMessage) : Pc :=
  if message.type = .quit then .announceLeave
  else if message.isChat then .build (.ack message.content) else .drain

/-- **The steps of the client threads are the rounds of the loop**: a message is taken
out of the buffer in the same way. -/
theorem takeMessage_eq (c : Client) (h : Addr) :
    takeMessage c h =
      match C2HMessage.getFrame c.buffer with
      | .error _ => some (.fault, .drain)
      | .ok (none, buffer) => some (.setBuffer h buffer, chatAgain c)
      | .ok (some r, buffer) => some (.setBuffer h buffer, pcFor r.2) := by
  rw [takeMessage, C2HMessage.get]
  cases C2HMessage.getFrame c.buffer with
  | error e => rfl
  | ok o =>
    obtain ⟨r, buffer⟩ := o
    cases r with
    | none => rfl
    | some r =>
      simp only [Except.map, Option.map, pcFor, C2HMessage.isChat, Bool.and_eq_true,
        decide_eq_true_eq]
      split_ifs <;> rfl

/-- Once the acknowledgement has been sent, or not, the thread is back at the loop exactly
when the loop goes on. -/
theorem ends_eq_false_iff (acks : ℕ → Bool) (n : ℕ) (m : C2HMessage) :
    Server.ends acks n m = false ↔
      pcFor m = .drain ∨
      pcFor m = .build (.ack m.content) ∧ afterSend (acks n) (.ack m.content) = .drain := by
  rw [Server.ends, Server.body, pcFor]
  split_ifs with hquit hchat hack <;> simp [afterSend, *]

end ClientThread

/-! ### The frames of a read -/

/-- The frames up to the first request to quit, that one included. -/
def upToQuit : List CStr → List CStr
  | [] => []
  | frame :: rest =>
    if (Message.getType frame.bytes).1 = .quit then [frame] else frame :: upToQuit rest

/-- The frames of chat messages with a content. -/
def ChatFrame (frame : CStr) : Prop :=
  ∃ m, C2HMessage.parse frame = .ok (some m) ∧ m.isChat = true

/-- Whatever can be sent, the loop processes the frames of a buffer up to the first
request to quit; and when all acknowledgements can be sent, every chat message among them
is relayed. -/
def Server.HandlesAll (b : MessageBuffer) : Prop :=
  ∀ acks, ∃ d, Server.handleMessages acks drainFuel b = .ok (some d) ∧
    d.taken.map Prod.fst = upToQuit (framesOf b.view) ∧
    ((∀ n, acks n = true) →
      Server.relayed acks d.taken = (d.taken.map Prod.snd).filter C2HMessage.isChat)

theorem relayed_of_acked : ∀ {acks : ℕ → Bool} {taken : List (CStr × C2HMessage)},
    (∀ n, acks n = true) →
      Server.relayed acks taken = (taken.map Prod.snd).filter C2HMessage.isChat
  | _, [], _ => rfl
  | acks, r :: taken, hacks => by
    rw [Server.relayed, hacks 0, Bool.and_true, List.map_cons, List.filter_cons,
      relayed_of_acked fun n => hacks (n + 1)]

section Rounds

variable {acks : ℕ → Bool} {frame : CStr} {rest : List CStr} {m : C2HMessage}

theorem takeFrames_ends (hparse : C2HMessage.parse frame = .ok (some m))
    (hends : Server.ends acks 0 m = true) :
    takeFrames (Server.ends acks) (frame :: rest) = .ok ⟨[(frame, m)], false, rest⟩ := by
  rw [takeFrames, hparse]
  simp only [Except.bind, hends, if_true]

theorem takeFrames_goes_on (hparse : C2HMessage.parse frame = .ok (some m))
    (hends : Server.ends acks 0 m = false) :
    takeFrames (Server.ends acks) (frame :: rest) =
      (takeFrames (Server.ends fun n => acks (n + 1)) rest).map (Drained.cons (frame, m)) := by
  rw [takeFrames, hparse]
  simp only [Except.bind, hends, Bool.false_eq_true, if_false]
  rfl

theorem ends_of_quit (hquit : m.type = .quit) (n : ℕ) : Server.ends acks n m = true := by
  simp [Server.ends, Server.body, hquit]

theorem ends_of_chat (hquit : m.type ≠ .quit) (hchat : m.isChat = true) (n : ℕ) :
    Server.ends acks n m = acks n := by
  rw [Server.ends, Server.body, if_neg hquit, if_pos hchat]
  cases acks n <;> rfl

theorem ends_of_other (hquit : m.type ≠ .quit) (hchat : ¬ m.isChat = true) (n : ℕ) :
    Server.ends acks n m = false := by
  rw [Server.ends, Server.body, if_neg hquit, if_neg hchat]
  rfl

end Rounds

/-- The loop on a list of frames processes all that it should. -/
def TakesAll (acks : ℕ → Bool) (frames : List CStr) : Prop :=
  ∃ d, takeFrames (Server.ends acks) frames = .ok d ∧ d.taken.map Prod.fst = upToQuit frames

/-- The frames up to the first request to quit are decoded without a fault, and only the
last of them may be a chat message. -/
def ChatLast (frames : List CStr) : Prop :=
  (∀ frame ∈ upToQuit frames, Decodable frame.bytes) ∧
    ∀ frame ∈ (upToQuit frames).dropLast, ¬ ChatFrame frame

section Cons

variable {acks : ℕ → Bool} {frame : CStr} {rest : List CStr} {m : C2HMessage}

theorem upToQuit_of_quit (hparse : C2HMessage.parse frame = .ok (some m)) (hquit : m.type = .quit) :
    upToQuit (frame :: rest) = [frame] := by
  rw [upToQuit, if_pos (type_of_parse hparse ▸ hquit)]

theorem upToQuit_of_not_quit (hparse : C2HMessage.parse frame = .ok (some m))
    (hquit : m.type ≠ .quit) : upToQuit (frame :: rest) = frame :: upToQuit rest := by
  rw [upToQuit, if_neg (type_of_parse hparse ▸ hquit)]

theorem mem_upToQuit (frame : CStr) (rest : List CStr) : frame ∈ upToQuit (frame :: rest) := by
  rw [upToQuit]
  split <;> exact List.mem_cons_self ..

/-- A message that does not end the loop is taken along. -/
theorem takesAll_cons_iff (hparse : C2HMessage.parse frame = .ok (some m))
    (hquit : m.type ≠ .quit) (hends : Server.ends acks 0 m = false) :
    TakesAll acks (frame :: rest) ↔ TakesAll (fun n => acks (n + 1)) rest := by
  rw [TakesAll, TakesAll, takeFrames_goes_on hparse hends, upToQuit_of_not_quit hparse hquit]
  constructor
  · rintro ⟨d, hd, htaken⟩
    obtain ⟨d', hd', rfl⟩ := map_eq_ok.mp hd
    exact ⟨d', hd', (List.cons.inj htaken).2⟩
  · rintro ⟨d, hd, htaken⟩
    rw [hd]
    exact ⟨d.cons (frame, m), rfl, congrArg (frame :: ·) htaken⟩

theorem chatLast_cons_iff (hparse : C2HMessage.parse frame = .ok (some m))
    (hdecodable : Decodable frame.bytes) (hquit : m.type ≠ .quit) :
    ChatLast (frame :: rest) ↔ (m.isChat = true → rest = []) ∧ ChatLast rest := by
  have hchat : ChatFrame frame ↔ m.isChat = true := by
    constructor
    · rintro ⟨m', hm', hchat⟩
      rw [hparse] at hm'
      cases hm'
      exact hchat
    · intro hchat
      exact ⟨m, hparse, hchat⟩
  rw [ChatLast, ChatLast, upToQuit_of_not_quit hparse hquit, List.forall_mem_cons]
  cases rest with
  | nil => simpa [upToQuit] using hdecodable
  | cons next rest =>
    have hne : upToQuit (next :: rest) ≠ [] := List.ne_nil_of_mem (mem_upToQuit next rest)
    rw [List.dropLast_cons_of_ne_nil hne, List.forall_mem_cons, hchat]
    constructor
    · rintro ⟨⟨-, hrest⟩, hnot, hlast⟩
      exact ⟨fun h => absurd h hnot, hrest, hlast⟩
    · rintro ⟨hnot, hrest, hlast⟩
      exact ⟨⟨hdecodable, hrest⟩, fun h => List.cons_ne_nil _ _ (hnot h), hlast⟩

end Cons

/-- The loop on a list of frames ends early exactly with a chat message that is not the
last. -/
theorem takesAll_iff {frames : List CStr} (hrec : ∀ frame ∈ frames, Recognised frame) :
    (∀ acks, TakesAll acks frames) ↔ ChatLast frames := by
  induction frames with
  | nil => exact iff_of_true (fun _ => ⟨_, rfl, rfl⟩) ⟨by simp [upToQuit], by simp [upToQuit]⟩
  | cons frame rest ih =>
    have hfirst := hrec frame (List.mem_cons_self ..)
    specialize ih fun f hf => hrec f (List.mem_cons_of_mem _ hf)
    rcases parse_cases frame with ⟨hnot, -⟩ | ⟨-, hdecodable, m, hparse⟩ |
      ⟨-, hdecodable, e, hparse⟩
    · exact absurd hfirst hnot
    · by_cases hquit : m.type = .quit
      · -- the request to quit is the last frame
        have hup := @upToQuit_of_quit frame rest m hparse hquit
        refine iff_of_true (fun acks => ?_) ?_
        · exact ⟨_, takeFrames_ends hparse (ends_of_quit hquit 0), hup.symm⟩
        · rw [ChatLast, hup]
          exact ⟨by simpa using hdecodable, by simp⟩
      · rw [chatLast_cons_iff hparse hdecodable hquit, ← ih]
        have hup := @upToQuit_of_not_quit frame rest m hparse hquit
        constructor
        · intro htakes
          refine ⟨fun hchat => ?_, fun acks => ?_⟩
          · -- once the message has been relayed, the next one is not looked at
            obtain ⟨d, hd, htaken⟩ := htakes fun _ => true
            rw [takeFrames_ends hparse (ends_of_chat hquit hchat 0)] at hd
            cases hd
            rw [hup] at htaken
            cases rest with
            | nil => rfl
            | cons next rest =>
              exact absurd (List.cons.inj htaken).2.symm (List.ne_nil_of_mem (mem_upToQuit next rest))
          · -- a loop whose first acknowledgement is not sent goes on
            have hends : Server.ends (fun n => n.casesOn false acks) 0 m = false := by
              by_cases hchat : m.isChat = true
              · exact ends_of_chat hquit hchat 0
              · exact ends_of_other hquit hchat 0
            exact (takesAll_cons_iff hparse hquit hends).mp (htakes _)
        · rintro ⟨hlast, htakes⟩ acks
          cases hends : Server.ends acks 0 m with
          | true =>
            have hchat : m.isChat = true := by
              by_contra hchat
              rw [ends_of_other hquit hchat] at hends
              cases hends
            refine ⟨_, takeFrames_ends hparse hends, ?_⟩
            rw [hup, hlast hchat]
            rfl
          | false => exact (takesAll_cons_iff hparse hquit hends).mpr (htakes _)
    · refine iff_of_false (fun htakes => ?_) fun hlast => ?_
      · obtain ⟨d, hd, -⟩ := htakes fun _ => true
        rw [takeFrames, hparse] at hd
        cases hd
      · exact hdecodable (hlast.1 frame (mem_upToQuit frame rest))

/-- **Every frame of a read is processed exactly when only the last one may be a chat
message**, of those up to the first request to quit, and none leads to a fault. -/
theorem handlesAll_iff {b : MessageBuffer} (h : Terminated b.view)
    (hrec : ∀ frame ∈ framesOf b.view, Recognised frame) :
    Server.HandlesAll b ↔ ChatLast (framesOf b.view) := by
  rw [← takesAll_iff hrec]
  refine forall_congr' fun acks => ?_
  obtain ⟨r, hloop, htake⟩ := @getLoop_spec drainFuel (Server.ends acks) b h (length_framesOf_lt b)
  rw [Server.handleMessages, hloop, TakesAll, htake]
  constructor
  · rintro ⟨d, hd, htaken, -⟩
    obtain ⟨d', rfl, heq⟩ := map_eq_ok.mp hd
    obtain rfl := Option.some.inj heq
    exact ⟨_, rfl, htaken⟩
  · rintro ⟨d, hd, htaken⟩
    obtain ⟨d', rfl, rfl⟩ := map_eq_ok.mp hd
    exact ⟨d', rfl, htaken, relayed_of_acked⟩

/-- A buffer after a read of two frames. -/
def received (f g : CStr) : MessageBuffer :=
  { MessageBuffer.zeroed.write 0 (f.bytes ++ 0 :: (g.bytes ++ [0])) with start := some 0 }

section Received

variable {f g : CStr}

theorem view_received (hfit : f.bytes.length + g.bytes.length + 2 ≤ kMessageBufferSize) :
    (received f g).view = f.bytes ++ 0 :: (g.bytes ++ 0 :: List.replicate
      (kMessageBufferSize - (f.bytes.length + g.bytes.length + 2)) 0) := by
  have hlen : (f.bytes ++ 0 :: (g.bytes ++ [0])).length = f.bytes.length + g.bytes.length + 2 := by
    simp only [List.length_append, List.length_cons, List.length_nil]
    omega
  have hdata := @MessageBuffer.drop_data_write .zeroed 0 (f.bytes ++ 0 :: (g.bytes ++ [0])) rfl
    (by rw [hlen, Nat.zero_add]; exact hfit)
  rw [hlen, Nat.sub_zero, List.append_assoc, List.cons_append, List.append_assoc] at hdata
  exact hdata

theorem framesOf_received (hf : f.bytes.head? = some slash) (hg : g.bytes.head? = some slash)
    (hfit : f.bytes.length + g.bytes.length + 2 ≤ kMessageBufferSize) :
    framesOf (received f g).view = [f, g] := by
  rw [view_received hfit, framesOf_pair hf hg]

theorem terminated_received
    (hfit : f.bytes.length + g.bytes.length + 2 ≤ kMessageBufferSize) :
    Terminated (received f g).view := by
  rw [view_received hfit, List.append_cons, ← List.append_assoc]
  exact terminated_append_zeros _ _

end Received

/-- A nickname, which is ignored, and a chat message. -/
theorem handlesAll_nick_chat :
    framesOf (received (str "/nick Joe") (str "/msg hi")).view = [str "/nick Joe", str "/msg hi"] ∧
    Server.HandlesAll (received (str "/nick Joe") (str "/msg hi")) := by
  have hfit : (str "/nick Joe").bytes.length + (str "/msg hi").bytes.length + 2 ≤
      kMessageBufferSize := by decide
  have hframes := framesOf_received (f := str "/nick Joe") (g := str "/msg hi") (by decide)
    (by decide) hfit
  have hnick : C2HMessage.parse (str "/nick Joe") = .ok (some ⟨.nick, str "Joe", CStr.empty⟩) := by
    decide +kernel
  have hchat : C2HMessage.parse (str "/msg hi") = .ok (some ⟨.msg, str "hi", CStr.empty⟩) := by
    decide +kernel
  refine ⟨hframes, (handlesAll_iff (terminated_received hfit) ?_).mpr ?_⟩
  · rw [hframes, List.forall_mem_cons, List.forall_mem_singleton]
    exact ⟨(decodable_of_parse hnick).1, (decodable_of_parse hchat).1⟩
  · rw [hframes, chatLast_cons_iff hnick (decodable_of_parse hnick).2 (by decide),
      chatLast_cons_iff hchat (decodable_of_parse hchat).2 (by decide)]
    exact ⟨by decide, fun _ => rfl, by simp [ChatLast, upToQuit]⟩

/-- Two chat messages in one read: the second is left in the buffer, and lost with the
next read. -/
theorem not_handlesAll_two :
    framesOf (received (str "/msg a") (str "/msg b")).view = [str "/msg a", str "/msg b"] ∧
    (Server.handleMessages (fun _ => true) drainFuel (received (str "/msg a") (str "/msg b"))).map
      (Option.map fun d => (d.taken, d.null, d.rest.start)) =
        .ok (some ([(str "/msg a", ⟨.msg, str "a", CStr.empty⟩)], false, some 7)) ∧
    receivePrepare { received (str "/msg a") (str "/msg b") with start := some 7 } =
      .ok ({ MessageBuffer.zeroed with start := some 0 }, kMessageBufferSize) ∧
    ¬ Server.HandlesAll (received (str "/msg a") (str "/msg b")) := by
  have hframes := framesOf_received (f := str "/msg a") (g := str "/msg b") (by decide)
    (by decide) (by decide)
  have hrun : (Server.handleMessages (fun _ => true) drainFuel
      (received (str "/msg a") (str "/msg b"))).map
        (Option.map fun d => (d.taken, d.null, d.rest.start)) =
          .ok (some ([(str "/msg a", ⟨.msg, str "a", CStr.empty⟩)], false, some 7)) := by
    decide +kernel
  refine ⟨hframes, hrun, by decide +kernel, fun hall => ?_⟩
  obtain ⟨d, hd, htaken, -⟩ := hall fun _ => true
  rw [hd] at hrun
  have hone : d.taken = [(str "/msg a", ⟨.msg, str "a", CStr.empty⟩)] :=
    congrArg Prod.fst (Option.some.inj (Except.ok.inj hrun))
  rw [hframes, hone] at htaken
  exact absurd (congrArg List.length htaken) (by decide +kernel)

/-! ### Frames that are not recognised -/

/-- **A loop leaves recognised frames behind a `NULL` exactly when there are some behind a
frame that is not recognised**; and a single `NULL` hides some exactly when the frame it
was returned for does. -/
theorem loops_leave_nothing_iff (b : MessageBuffer) :
    (NullMeansExhausted b ↔ ¬ HidesFrame b) ∧
    (Terminated b.view →
      ((LeavesNothing never b ∧ ∀ acks, LeavesNothing (Server.ends acks) b) ↔
        ¬ HidesLater b)) := by
  refine ⟨nullMeansExhausted_iff b, fun h => ?_⟩
  constructor
  · rintro ⟨hleaves, -⟩ hhides
    exact not_leavesNothing h hhides hleaves
  · intro hhides
    exact ⟨leavesNothing h hhides never, fun acks => leavesNothing h hhides _⟩

/-- Nothing is hidden when the frame that is not recognised is the last. -/
theorem loops_leave_nothing_last :
    framesOf (received (str "/msg hi") (str "/foo")).view = [str "/msg hi", str "/foo"] ∧
    NullMeansExhausted (received (str "/msg hi") (str "/foo")) ∧
    LeavesNothing never (received (str "/msg hi") (str "/foo")) := by
  have hfit : (str "/msg hi").bytes.length + (str "/foo").bytes.length + 2 ≤
      kMessageBufferSize := by decide
  have hframes := framesOf_received (f := str "/msg hi") (g := str "/foo") (by decide)
    (by decide) hfit
  have hrec : Recognised (str "/msg hi") := by decide +kernel
  obtain ⟨hcall, hloop⟩ := loops_leave_nothing_iff (received (str "/msg hi") (str "/foo"))
  refine ⟨hframes, hcall.mpr ?_, ((hloop (terminated_received hfit)).mpr ?_).1⟩
  · rintro ⟨frame, rest, hsplit, hunknown, -⟩
    rw [hframes] at hsplit
    exact hunknown ((List.cons.inj hsplit).1 ▸ hrec)
  · rintro ⟨before, unknown, rest, hsplit, -, hunknown, hidden, hmem, -⟩
    rw [hframes] at hsplit
    cases before with
    | nil => exact hunknown ((List.cons.inj hsplit).1 ▸ hrec)
    | cons first before =>
      -- nothing is behind the second frame
      have hlen := congrArg List.length hsplit
      have hpos := List.length_pos_of_mem hmem
      simp only [List.length_cons, List.length_nil, List.length_append] at hlen
      omega

/-- A message behind a frame that is not recognised: the loops end at the `NULL` that is
returned for the latter, and the next read clears the buffer. -/
theorem not_loops_leave_nothing :
    framesOf (received (str "/foo") (str "/msg hi")).view = [str "/foo", str "/msg hi"] ∧
    C2HMessage.get (received (str "/foo") (str "/msg hi")) =
      .ok (none, { received (str "/foo") (str "/msg hi") with start := some 5 }) ∧
    receivePrepare { received (str "/foo") (str "/msg hi") with start := some 5 } =
      .ok ({ MessageBuffer.zeroed with start := some 0 }, kMessageBufferSize) ∧
    ¬ NullMeansExhausted (received (str "/foo") (str "/msg hi")) ∧
    ¬ LeavesNothing never (received (str "/foo") (str "/msg hi")) := by
  have hfit : (str "/foo").bytes.length + (str "/msg hi").bytes.length + 2 ≤
      kMessageBufferSize := by decide
  have hframes := framesOf_received (f := str "/foo") (g := str "/msg hi") (by decide)
    (by decide) hfit
  have hunknown : ¬ Recognised (str "/foo") := by decide +kernel
  have hrec : Recognised (str "/msg hi") := by decide +kernel
  refine ⟨hframes, by decide +kernel, by decide +kernel, ?_, ?_⟩
  · rw [nullMeansExhausted_iff, not_not]
    exact ⟨_, _, hframes, hunknown, _, List.mem_singleton_self _, hrec⟩
  · exact not_leavesNothing (terminated_received hfit)
      ⟨[], _, _, hframes, by simp, hunknown, _, List.mem_singleton_self _, hrec⟩

end C2Hat
