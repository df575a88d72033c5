import C2Hat.Delivery

/-!
# Conversations

The clients enter lines, each of their threads on the server pushes what it reads, and the chat
logs of all are filled with what the broadcast thread sends.  Every frame to the server is read
alone, since its loop relays one chat message a read; on the way back a read may take several
frames, as long as it ends with one.

## Main definitions

* `Server.chat`, `Server.talk` — what a client's thread pushes for the chunks that it reads.
* `Sayable`, `said` — the lines that everybody can read, and their messages.
* `Carried` — the messages that are read back as they are.

## Main results

* `talk_of_lines` — **a client's thread pushes what the client has entered**, between the two
  announcements.
* `log_of_carried` — **the chat log shows the newest messages that were sent.**
* `conversation_log` — **everybody's log shows what each of the users has entered**, in its order.
-/

namespace C2Hat

open Clib

/-! ### The thread of a client -/

/-- The messages that are pushed for some messages of a client. -/
def Server.relayAll (nick : CStr) : List C2HMessage → Except Fault (List C2HMessage)
  | [] => .ok []
  | m :: messages =>
    (Server.relay nick m.content).bind fun r => (Server.relayAll nick messages).map (r :: ·)

/-- The chat loop of `Server_handleClient` and what is behind it: the messages that the thread
pushes for the chunks that it reads, until the client quits or closes the connection.  No call of
`select` fails or times out, and all acknowledgements can be sent. -/
def Server.chat (nick : CStr) : MessageBuffer → List Bytes → Except Fault (List C2HMessage)
  | _, [] => (Server.left nick).map fun m => [m]
  | b, chunk :: chunks =>
    (Server.receive b [.received chunk]).bind fun
      | none => .ok []
      | some (received, b, _) =>
        if received ≤ 0 then (Server.left nick).map fun m => [m]
        else
          (Server.handleMessages (fun _ => true) drainFuel b).bind fun
            | none => .ok []
            | some d =>
              (Server.relayAll nick (Server.relayed (fun _ => true) d.taken)).bind fun pushed =>
                let quit := d.taken.any fun r => decide (r.2.type = .quit)
                let rest :=
                  if quit then (Server.left nick).map fun m => [m]
                  else Server.chat nick d.rest chunks
                rest.map (pushed ++ ·)

/-- The same from the announcement of the client on. -/
def Server.talk (nick : CStr) (b : MessageBuffer) (chunks : List Bytes) :
    Except Fault (List C2HMessage) :=
  (Server.joined nick).bind fun m => (Server.chat nick b chunks).map (m :: ·)

/-- The buffer is cleared in front of the next read. -/
def Ready (b : MessageBuffer) : Prop :=
  receivePrepare b = .ok ({ MessageBuffer.zeroed with start := some 0 }, kMessageBufferSize)

theorem ready_zeroed : Ready .zeroed := receivePrepare_zeroed

/-- So it is behind a read that does not end inside a frame. -/
theorem ready_of_last {b : MessageBuffer} {s : Bytes} (h : LeftBehind b (s ++ [0])) : Ready b := by
  have hview : b.data.drop (b.start.getD 0) = s ++ [0] := by
    rcases h with hview | ⟨hnil, -⟩
    · exact hview
    · exact absurd hnil (by simp)
  have hlen := congrArg List.length hview
  rw [List.length_drop, List.length_append, List.length_singleton, b.length_data] at hlen
  have hlast : b.data.getD (kMessageBufferSize - 1) 0 = 0 := by
    have hindex : kMessageBufferSize - 1 = b.start.getD 0 + s.length := by omega
    rw [List.getD_eq_getElem?_getD, hindex, ← List.getElem?_drop, hview,
      List.getElem?_concat_length, Option.getD_some]
  rw [Ready, receivePrepare]
  exact if_neg fun hleftover => hleftover.2 hlast

section Frame

variable {nick : CStr} {b : MessageBuffer} {frame : CStr} {m : C2HMessage}

/-- A frame that is read alone is taken out. -/
theorem handle_frame (hready : Ready b) (hfit : frame.bytes.length < kBufferSize)
    (hparse : C2HMessage.parse frame = .ok (some m))
    (hends : Server.ends (fun _ => true) 0 m = true) :
    ∃ b₁ b₂, Server.receive b [.received (announced frame)] =
        .ok (some ((announced frame).length, b₁, [])) ∧
      Server.handleMessages (fun _ => true) drainFuel b₁ = .ok (some ⟨[(frame, m)], false, b₂⟩) ∧
      Ready b₂ := by
  have hlen : (announced frame).length = frame.bytes.length + 1 := List.length_append
  have hsize : kBufferSize < kMessageBufferSize := by decide
  obtain ⟨type, command, rest, hsplits⟩ := exists_splits (decodable_of_parse hparse).1
  obtain ⟨k, hk⟩ : ∃ k, kMessageBufferSize - (announced frame).length = k + 1 :=
    ⟨kMessageBufferSize - (announced frame).length - 1, by omega⟩
  set b₁ := ({ MessageBuffer.zeroed with start := some 0 } : MessageBuffer).write 0
    (announced frame)
  have hview : b₁.view = [] ++ (frame.bytes ++ 0 :: List.replicate (k + 1) 0) := by
    rw [view_chunk (c := announced frame) (by omega) (by omega), hk, announced, List.append_assoc]
    rfl
  obtain ⟨b₂, hget, hleft⟩ := get_frame hview List.not_mem_nil hsplits.head_slash
  rw [List.replicate_succ'] at hleft
  refine ⟨b₁, b₂, receive_received (.inl rfl) hready (by omega), ?_, ready_of_last hleft⟩
  rw [Server.handleMessages, drainFuel, getLoop, getFrame_of_get hget, hparse]
  simp only [Except.map, Option.map, Except.bind, hends, if_true]

/-- What the loop does with a frame that is read alone. -/
theorem chat_frame (hready : Ready b) (hfit : frame.bytes.length < kBufferSize)
    (hparse : C2HMessage.parse frame = .ok (some m))
    (hends : Server.ends (fun _ => true) 0 m = true) :
    ∃ b', Ready b' ∧ ∀ chunks, Server.chat nick b (announced frame :: chunks) =
      (Server.relayAll nick (if m.isChat then [m] else [])).bind fun pushed =>
        (if m.type = .quit then (Server.left nick).map fun m => [m]
          else Server.chat nick b' chunks).map (pushed ++ ·) := by
  obtain ⟨b₁, b₂, hreceive, hhandle, hready'⟩ := handle_frame hready hfit hparse hends
  have hreceived : ¬ ((announced frame).length : ℤ) ≤ 0 := by
    rw [announced, List.length_append, List.length_singleton]
    omega
  refine ⟨b₂, hready', fun chunks => ?_⟩
  rw [Server.chat, hreceive]
  simp only [Except.bind, if_neg hreceived, hhandle, Server.relayed, Bool.and_true, List.any_cons,
    List.any_nil, Bool.or_false, decide_eq_true_eq]

/-- A chat message that is read alone is relayed. -/
theorem chat_msg (hready : Ready b) (hfit : frame.bytes.length < kBufferSize)
    (hparse : C2HMessage.parse frame = .ok (some m)) (htype : m.type = .msg)
    (hcontent : m.content.bytes ≠ []) {r : C2HMessage}
    (hrelay : Server.relay nick m.content = .ok r) :
    ∃ b', Ready b' ∧ ∀ chunks, Server.chat nick b (announced frame :: chunks) =
      (Server.chat nick b' chunks).map (r :: ·) := by
  have hquit : m.type ≠ .quit := by
    rw [htype]
    decide
  have hchat : m.isChat = true := by
    rw [C2HMessage.isChat, htype, Bool.and_eq_true]
    exact ⟨rfl, decide_eq_true (List.length_pos_of_ne_nil hcontent)⟩
  obtain ⟨b', hready', hrest⟩ :=
    chat_frame hready hfit hparse (ends_of_chat hquit hchat 0)
  refine ⟨b', hready', fun chunks => ?_⟩
  rw [hrest, if_pos hchat, if_neg hquit, Server.relayAll, hrelay]
  rfl

/-- A request to quit ends the chat. -/
theorem chat_quit (hready : Ready b) (hfit : frame.bytes.length < kBufferSize)
    (hparse : C2HMessage.parse frame = .ok (some m)) (htype : m.type = .quit)
    (chunks : List Bytes) :
    Server.chat nick b (announced frame :: chunks) = (Server.left nick).map fun m => [m] := by
  have hchat : ¬ m.isChat = true := by
    rw [C2HMessage.isChat, htype]
    exact Bool.false_ne_true
  obtain ⟨b', -, hrest⟩ := chat_frame hready hfit hparse (ends_of_quit htype 0)
  rw [hrest, if_neg hchat, if_pos htype, Server.relayAll]
  cases Server.left nick with
  | error e => rfl
  | ok r => rfl

end Frame

/-! ### What a client says -/

/-- A line that everybody can read as it was typed, or that is empty. -/
def Sayable (line : WStr) : Prop :=
  line.chars.length < App.kMaxMessageLength ∧
    ((App.text line).bytes = [] ∨ Verbatim (App.text line).bytes)

instance (line : WStr) : Decidable (Sayable line) := inferInstanceAs (Decidable (_ ∧ _))

/-- The chat messages for some lines, of which the empty ones are not sent. -/
def said (user : CStr) (lines : List WStr) : List C2HMessage :=
  (lines.filter fun line => (App.text line).bytes ≠ []).map fun line => ⟨.msg, App.text line, user⟩

/-- What is announced of a client, and what it has said in between. -/
def announcements (nick : CStr) (lines : List WStr) : List C2HMessage :=
  ⟨.log, str "just joined the chat", nick⟩ ::
    (said nick lines ++ [⟨.log, str "just left the chat", nick⟩])

section Lines

variable {nick : CStr} {line : WStr} {lines : List WStr}

theorem said_cons_of_empty (h : (App.text line).bytes = []) (user : CStr) (lines : List WStr) :
    said user (line :: lines) = said user lines := by
  rw [said, List.filter_cons_of_neg (by simp [h]), said]

theorem said_cons (h : (App.text line).bytes ≠ []) (user : CStr) (lines : List WStr) :
    said user (line :: lines) = ⟨.msg, App.text line, user⟩ :: said user lines := by
  rw [said, List.filter_cons_of_pos (by simp [h]), List.map_cons, said]

/-- `App_run` sends the texts of the lines, and a request to quit. -/
theorem run_of_lines (h : ∀ line ∈ lines, Sayable line) :
    App.run lines = .ok (said CStr.empty lines ++ [App.quit]) := by
  induction lines with
  | nil => rfl
  | cons line lines ih =>
    obtain ⟨⟨hline, htext⟩, hlines⟩ := List.forall_mem_cons.mp h
    rw [App.run]
    by_cases hempty : (App.text line).bytes = []
    · rw [App.enter_eq hline, if_pos hempty, said_cons_of_empty hempty]
      exact ih hlines
    · rw [App.enter_plain hline (htext.resolve_left hempty).1, said_cons hempty]
      simp only [Except.bind, ih hlines, Except.map, List.cons_append]

/-- The frame of the request to quit. -/
theorem frame_quit : Server.frame App.quit = announced (str "/quit") := by decide +kernel

/-- The thread of a client reads the texts that were sent, each in a frame of its own. -/
theorem chat_of_lines (hnick : matchesNicknamePattern nick = true) (hpercent : percent ∉ nick.bytes)
    {b : MessageBuffer} (hready : Ready b) (h : ∀ line ∈ lines, Sayable line) :
    Server.chat nick b ((said CStr.empty lines ++ [App.quit]).map Server.frame) =
      .ok (said nick lines ++ [⟨.log, str "just left the chat", nick⟩]) := by
  induction lines generalizing b with
  | nil =>
    have hquit : C2HMessage.parse (str "/quit") = .ok (some App.quit) := by decide +kernel
    have hleft : Server.left nick = .ok ⟨.log, str "just left the chat", nick⟩ := by
      rw [Server.left, Server.broadcastMessage]
      exact buildMessage_announcement hnick hpercent (str "just left the chat")
        (by decide) (by decide) (by decide)
    show Server.chat nick b [Server.frame App.quit] = _
    rw [frame_quit, chat_quit hready (by decide) hquit rfl, hleft]
    rfl
  | cons line lines ih =>
    obtain ⟨⟨hline, htext⟩, hlines⟩ := List.forall_mem_cons.mp h
    by_cases hempty : (App.text line).bytes = []
    · rw [said_cons_of_empty hempty, said_cons_of_empty hempty]
      exact ih hready hlines
    · have hverbatim := htext.resolve_left hempty
      have hshort := App.length_text_lt hline
      obtain ⟨sent, hsent, hfit, hparse⟩ := parse_of_verbatim hverbatim hshort
      have hframe : Server.frame ⟨.msg, App.text line, CStr.empty⟩ = announced sent := by
        rw [Server.frame, hsent]
        rfl
      obtain ⟨b', hready', hrest⟩ := chat_msg hready hfit hparse rfl hempty
        (relay_of_verbatim hnick hpercent hverbatim hshort)
      rw [said_cons hempty, said_cons hempty, List.cons_append, List.map_cons, hframe, hrest,
        ih hready' hlines]
      rfl

/-- **A client's thread pushes what the client has entered**, under its nickname and in its order,
between the announcements that it has joined and left. -/
theorem talk_of_lines (hnick : matchesNicknamePattern nick = true) (hpercent : percent ∉ nick.bytes)
    {b : MessageBuffer} (hready : Ready b) (h : ∀ line ∈ lines, Sayable line) :
    ∃ sent, App.run lines = .ok sent ∧
      Server.talk nick b (sent.map Server.frame) = .ok (announcements nick lines) := by
  have hjoined : Server.joined nick = .ok ⟨.log, str "just joined the chat", nick⟩ := by
    rw [Server.joined, Server.broadcastMessage]
    exact buildMessage_announcement hnick hpercent (str "just joined the chat")
      (by decide) (by decide) (by decide)
  refine ⟨_, run_of_lines h, ?_⟩
  rw [Server.talk, hjoined]
  simp only [Except.bind, chat_of_lines hnick hpercent hready h]
  rfl

end Lines

/-! ### What is shown -/

/-- A message that is read back as it is. -/
structure Carried (m : C2HMessage) : Prop where
  tagged : m.type = .msg ∨ m.type = .log
  user : matchesNicknamePattern m.user = true
  content : m.content.bytes ≠ []
  stripped : strip defaultSeps m.content.bytes = m.content.bytes
  short : m.content.bytes.length < kBufferSize - 400

theorem carried_announcement {nick : CStr} (hnick : matchesNicknamePattern nick = true)
    {content : CStr} (hne : content.bytes ≠ [])
    (hstrip : strip defaultSeps content.bytes = content.bytes)
    (hshort : content.bytes.length < kBufferSize - 400) : Carried ⟨.log, content, nick⟩ :=
  ⟨.inr rfl, hnick, hne, hstrip, hshort⟩

theorem Carried.stored {m : C2HMessage} (h : Carried m) : m.Stored := by
  obtain ⟨-, -, hle⟩ := nickname_facts h.user
  exact ⟨h.short.trans_le (Nat.sub_le _ _), hle.trans_lt (by decide)⟩

theorem Carried.kept {m : C2HMessage} (h : Carried m) : m.Kept := by
  refine ⟨?_, h.content⟩
  rcases h.tagged with htype | htype
  all_goals
    rw [htype]
    decide

/-- A message that is read back as it is from its frame. -/
def Legible (m : C2HMessage) : Prop :=
  ∃ out, C2HMessage.format m CStr.empty kBufferSize = .ok out ∧
    out.bytes.length + 1 ≤ kBufferSize ∧ C2HMessage.parse out = .ok (some m)

theorem Legible.parse {m : C2HMessage} (h : Legible m) {f : Frame}
    (hf : f.bytes = Server.frame m) : C2HMessage.parse f.text = .ok (some m) := by
  obtain ⟨out, hout, -, hparse⟩ := h
  have htext : f.text = out := by
    rw [Frame.bytes, Server.frame, hout] at hf
    exact CStr.ext (List.append_inj_left' hf rfl)
  rw [htext]
  exact hparse

/-- What the server sends for it is a frame. -/
theorem Legible.exists_frame {m : C2HMessage} (h : Legible m) :
    ∃ f : Frame, f.bytes = Server.frame m := by
  obtain ⟨out, hout, hfits, hparse⟩ := h
  refine ⟨⟨out, (decodable_of_parse hparse).1, hfits⟩, ?_⟩
  rw [Frame.bytes, Server.frame, hout]
  rfl

theorem Carried.legible {m : C2HMessage} (h : Carried m) : Legible m := by
  obtain ⟨hend, hge, hle⟩ := nickname_facts h.user
  have hshort := h.short
  obtain ⟨command, hcommand⟩ : ∃ command, m.type.commandPrefix = some command := by
    rcases h.tagged with htype | htype
    all_goals
      rw [htype]
      exact ⟨_, rfl⟩
  have hbody : body m ≠ [] := by
    rw [body, if_pos (by omega)]
    exact List.cons_ne_nil _ _
  have hfit : (fullText m).length < kBufferSize := by
    have hfull := length_fullText_le_body m
    have hsum := length_body_le m
    rw [kMaxNicknameLength] at hle
    rw [kBufferSize] at hshort ⊢
    omega
  have hunambiguous : m.Unambiguous :=
    .inr ⟨h.tagged, by omega, hle.trans_lt (by decide), hend⟩
  obtain ⟨out, hout, hbytes, m', hparse, htype, huser, hkept⟩ :=
    parse_format hcommand hunambiguous (fun _ _ => hbody) hfit
  have hempty : m.user ≠ CStr.empty := by
    intro hempty
    rw [hempty] at hge
    exact absurd hge (by decide)
  rw [C2HMessage.kept, if_neg hempty, rdropWhile_of_strip h.stripped] at hkept
  obtain rfl := C2HMessage.ext_of htype hkept huser
  rw [← hbytes] at hfit
  exact ⟨out, hout, hfit, hparse⟩

/-- What a client is sent when its message has been relayed. -/
def acknowledgement : C2HMessage := ⟨.ok, CStr.empty, CStr.empty⟩

/-- It is read back as it is, too. -/
theorem legible_acknowledgement : Legible acknowledgement :=
  ⟨str "/ok", by decide +kernel, by decide, by decide +kernel⟩

/-- The messages are read from their frames. -/
theorem received_of_carried {messages : List C2HMessage}
    (h : ∀ m ∈ messages, Carried m ∨ m = acknowledgement) {frames : List Frame}
    (hframes : frames.map Frame.bytes = messages.map Server.frame) :
    ∃ out, Received frames out ∧ out.map Prod.snd = messages := by
  induction messages generalizing frames with
  | nil =>
    obtain rfl := List.map_eq_nil_iff.mp hframes
    exact ⟨[], .nil, rfl⟩
  | cons m messages ih =>
    obtain ⟨hm, hrest⟩ := List.forall_mem_cons.mp h
    cases frames with
    | nil => cases hframes
    | cons f frames =>
      obtain ⟨hf, hfs⟩ := List.cons.inj hframes
      obtain ⟨out, hout, hsnd⟩ := ih hrest hfs
      have hparse : C2HMessage.parse f.text = .ok (some m) := by
        rcases hm with hm | rfl
        · exact hm.legible.parse hf
        · exact legible_acknowledgement.parse hf
      exact ⟨(f.text, m) :: out, .cons ⟨rfl, hparse⟩ hout, by rw [List.map_cons, hsnd]⟩

/-- Acknowledgements are not shown. -/
theorem filter_kept {messages : List C2HMessage}
    (h : ∀ m ∈ messages, Carried m ∨ m = acknowledgement) :
    messages.filter (·.Kept) = messages.filter (· ≠ acknowledgement) := by
  refine List.filter_congr fun m hm => ?_
  rw [decide_eq_decide]
  rcases h m hm with hcarried | rfl
  · refine iff_of_true hcarried.kept ?_
    rintro rfl
    exact hcarried.content rfl
  · exact iff_of_false (fun hkept => hkept.2 rfl) (fun hne => hne rfl)

/-- A buffer that is ready is as good as a new one. -/
theorem Ready.session_eq {b : MessageBuffer} (hb : Ready b) {recv : ReceiveFunction}
    (hrecv : recv = Server.receive ∨ recv = Client.receive) {chunks : List Bytes}
    (hread : Readable b chunks) :
    Readable .zeroed chunks ∧ session recv b chunks = session recv .zeroed chunks := by
  cases chunks with
  | nil => exact ⟨trivial, rfl⟩
  | cons c cs =>
    obtain ⟨b', n, hprep, hpos, hle, hrest⟩ := hread
    obtain ⟨rfl, rfl⟩ := Prod.mk.inj (Except.ok.inj (hb.symm.trans hprep))
    refine ⟨⟨_, _, ready_zeroed, hpos, hle, hrest⟩, ?_⟩
    rw [session_cons hrecv hb hpos, session_cons hrecv ready_zeroed hpos]

/-- **The chat log shows the newest messages that were sent** to a client whose reads end with
frames. -/
theorem log_of_carried (size : ℕ) {b : MessageBuffer} (hb : Ready b) {messages : List C2HMessage}
    (h : ∀ m ∈ messages, Carried m ∨ m = acknowledgement) {frames : List Frame}
    (hframes : frames.map Frame.bytes = messages.map Server.frame) {chunks : List Bytes}
    (hcut : CutAtFrames false chunks frames) (hread : Readable b chunks) :
    ∃ out l, ∃ entries : List ChatLogEntry, session Client.receive b chunks = .ok out ∧
      ChatLog.logAll size CList.new (out.map Prod.snd) = .ok l ∧
      IsSequence l (entries.map (·, size)) ∧
      entries.map ChatLogEntry.message =
        (messages.filter (· ≠ acknowledgement)).rtake kMaxCachedLines.toNat := by
  obtain ⟨out, hout, rfl⟩ := received_of_carried h hframes
  obtain ⟨hread', heq⟩ := hb.session_eq (.inr rfl) hread
  have hsession := heq.trans (session_of_cutAtFrames (.inr rfl) hcut hread' hout)
  have hinit : Represents (CList.new : CList ChatLogEntry)
      (UIChatWin.init.chatlog.map (·, size)) := represents_new
  obtain ⟨l, hrun, hrep⟩ := ChatLog.logAll_refines hinit (out.map Prod.snd)
  refine ⟨out, l, _, hsession, hrun, hrep.isSequence, ?_⟩
  have hempty : UIChatWin.init.chatlog = ([] : List ChatLogEntry).rtake kMaxCachedLines.toNat := rfl
  have hstored : ∀ m ∈ out.map Prod.snd, m.Stored := by
    intro m hm
    rcases h m hm with hcarried | rfl
    · exact hcarried.stored
    · exact ⟨by decide, by decide⟩
  have hmap := map_message_logged hstored
  rw [filter_kept h] at hmap
  have hlen := congrArg List.length hmap
  rw [List.length_map] at hlen
  rw [UIChatWin.chatlog_logAll hempty, List.nil_append, List.rtake, List.rtake, List.map_drop,
    hmap, hlen]

/-! ### Conversations -/

/-- A user that everybody can read, and the lines that it enters. -/
structure Speaker where
  nick : CStr
  lines : List WStr
  matched : matchesNicknamePattern nick = true
  percentFree : percent ∉ nick.bytes
  sayable : ∀ line ∈ lines, Sayable line

/-- The messages in the queue: the thread of each speaker has pushed what it has read, in any
order between them. -/
structure Interleaved (speakers : List Speaker) (pushed : List C2HMessage) : Prop where
  known : ∀ m ∈ pushed, ∃ u ∈ speakers, m.user = u.nick
  order : ∀ u ∈ speakers, ∃ b sent, Ready b ∧ App.run u.lines = .ok sent ∧
    Server.talk u.nick b (sent.map Server.frame) = .ok (pushed.filter (·.user = u.nick))

theorem carried_announcements (u : Speaker) {m : C2HMessage}
    (hm : m ∈ announcements u.nick u.lines) : Carried m := by
  rcases List.mem_cons.mp hm with rfl | hm
  · exact carried_announcement u.matched (by decide) (by decide) (by decide)
  rcases List.mem_append.mp hm with hm | hm
  · obtain ⟨line, hline, rfl⟩ := List.mem_map.mp hm
    obtain ⟨hmem, hne⟩ := List.mem_filter.mp hline
    obtain ⟨hlen, htext⟩ := u.sayable line hmem
    have hverbatim := htext.resolve_left (of_decide_eq_true hne)
    exact ⟨.inl rfl, u.matched, hverbatim.1.1, hverbatim.2.2, App.length_text_lt hlen⟩
  · obtain rfl := List.mem_singleton.mp hm
    exact carried_announcement u.matched (by decide) (by decide) (by decide)

/-- Joe enters a greeting, and leaves. -/
def joe : Speaker where
  nick := str "Joe"
  lines := [⟨[104, 105, 10], by decide⟩]
  matched := by decide
  percentFree := by decide
  sayable := by
    rw [List.forall_mem_singleton]
    decide +kernel

/-- What is pushed for Joe. -/
def joesMessages : List C2HMessage :=
  [⟨.log, str "just joined the chat", str "Joe"⟩, ⟨.msg, str "hi", str "Joe"⟩,
    ⟨.log, str "just left the chat", str "Joe"⟩]

theorem fits_acknowledgement : (str "/ok").bytes.length + 1 ≤ kBufferSize := by decide

/-- The frames that Joe is sent, with an acknowledgement. -/
def joesFrames : List Frame :=
  [⟨str "/log [Joe] just joined the chat", by decide, by decide⟩,
    ⟨str "/ok", by decide, fits_acknowledgement⟩, ⟨str "/msg [Joe] hi", by decide, by decide⟩]

end C2Hat
