import C2Hat.Client.ChatLog
import C2Hat.Client.Lines
import C2Hat.Fields
import C2Hat.Reassembly
import C2Hat.Server.Capacity
import C2Hat.Server.Inbox

/-!
# From a line to the chat log

A line passes `App_run` and `Client_send`, the loop of `Server_handleClient`, the queue and the
broadcast thread, and the loop of `App_listen`, before it is in the chat logs.  On its way it is
written and read twice, and formatted twice more in between.

## Main definitions

* `C2HMessage.Unambiguous` — the user of a message is found where it is written.
* `arrives` — the message everybody gets for a line.

## Main results

* `parse_format` — **a message that is written is read back**, but for the blanks around it.
* `arrives_iff` — **a line arrives as it was typed exactly when it is plain, without a percent
  sign and without blanks around it.**
-/

namespace C2Hat

open Clib

/-! ### Writing and reading -/

/-- There is no user, and none is found in the content; or the user is found in its brackets. -/
def C2HMessage.Unambiguous (m : C2HMessage) : Prop :=
  (m.user = CStr.empty ∧ Message.getUser m.content.bytes m.type kMaxNicknameSize = none) ∨
    ((m.type = .msg ∨ m.type = .log) ∧ 0 < m.user.bytes.length ∧
      m.user.bytes.length < kMaxNicknameSize ∧ kUserNameEndTag ∉ m.user.bytes)

/-- What `C2HMessage_create` makes of a text. -/
theorem unambiguous_of_ofBuffer {type : C2HMessageType} {buffer : CStr} {m : C2HMessage}
    (h : C2HMessage.ofBuffer type buffer = .ok m) : m.Unambiguous := by
  cases huser : Message.getUser buffer.bytes type kMaxNicknameSize with
  | none =>
    rw [ofBuffer_untagged huser] at h
    cases h
    exact .inl ⟨rfl, huser⟩
  | some user =>
    have hlt := user_fits_of_ofBuffer h huser
    obtain ⟨htag, hpos, -, -, -, -, -, hend⟩ := getUser_eq_some huser
    rw [ofBuffer_of_user huser hlt] at h
    cases h
    exact .inr ⟨htag, hpos, hlt, hend⟩

/-- What is left of the content of a message that is written and read back. -/
def C2HMessage.kept (m : C2HMessage) : Bytes :=
  if m.user = CStr.empty then strip defaultSeps m.content.bytes
  else m.content.bytes.rdropWhile (· ∈ defaultSeps)

theorem C2HMessage.length_kept_le (m : C2HMessage) : m.kept.length ≤ m.content.bytes.length := by
  unfold C2HMessage.kept
  split_ifs
  · exact length_strip_le _ _
  · exact (List.rdropWhile_prefix _ _).length_le

/-- **A message that is written is read back**, when it fits the buffer. -/
theorem parse_format {m : C2HMessage} {command : Bytes}
    (hcommand : m.type.commandPrefix = some command) (hm : m.Unambiguous)
    (hne : m.type ≠ .ok → m.type ≠ .quit → body m ≠ [])
    (hfit : (fullText m).length < kBufferSize) :
    ∃ out, C2HMessage.format m CStr.empty kBufferSize = .ok out ∧ out.bytes = fullText m ∧
      ∃ m', C2HMessage.parse out = .ok (some m') ∧ m'.type = m.type ∧ m'.user = m.user ∧
        m'.content.bytes = m.kept := by
  obtain ⟨out, hout, hbytes⟩ := format_eq_take hcommand CStr.empty kBufferSize
  rw [List.take_of_length_le (Nat.le_sub_one_of_lt hfit)] at hbytes
  have hfull : out.bytes = command ++ (if (body m).length > 0 then 32 :: body m else []) := by
    rw [hbytes, fullText, hcommand, Option.getD_some, commandText]
  have hlen : out.bytes.length ≤ kBufferSize := by
    rw [hbytes]
    exact hfit.le
  refine ⟨out, hout, hbytes, ?_⟩
  rcases hm with ⟨huser, hnone⟩ | ⟨htag, hpos, hlt, hend⟩
  · have hbody : body m = m.content.bytes := by
      rw [body, huser]
      rfl
    rw [hbody] at hfull hne
    have hcontent : m.type ≠ .ok → m.type ≠ .quit → m.content ≠ CStr.empty := by
      intro hok hquit hempty
      exact hne hok hquit (congrArg CStr.bytes hempty)
    obtain ⟨m', hparse, htype, huser', hkept⟩ :=
      parse_line_of_no_user hcommand hnone hcontent hfull hlen
    refine ⟨m', hparse, htype, huser'.trans huser.symm, ?_⟩
    rw [hkept, C2HMessage.kept, if_pos huser]
  · obtain ⟨m', hparse, htype, huser', hkept⟩ :=
      parse_line_of_user htag hcommand hend hpos hlt hfull hlen
    refine ⟨m', hparse, htype, CStr.ext huser', ?_⟩
    rw [hkept, C2HMessage.kept, if_neg]
    intro hempty
    rw [hempty] at hpos
    exact absurd hpos (by decide)

/-- A chat message that is nothing but its command is not read. -/
theorem parse_format_empty {m : C2HMessage} {command : Bytes}
    (hcommand : m.type.commandPrefix = some command) (hok : m.type ≠ .ok) (hquit : m.type ≠ .quit)
    (hbody : body m = []) {out : CStr}
    (hout : C2HMessage.format m CStr.empty kBufferSize = .ok out) :
    C2HMessage.parse out = .ok none := by
  obtain ⟨out', hout', hbytes⟩ := format_eq_take hcommand CStr.empty kBufferSize
  rw [hout] at hout'
  cases hout'
  have htext : out.bytes = command := by
    have hlen : command.length ≤ kBufferSize - 1 := by
      cases htype : m.type <;> rw [htype] at hcommand <;> cases hcommand <;> decide
    rw [hbytes, fullText, hcommand, Option.getD_some, hbody]
    exact (congrArg (List.take _) (List.append_nil _)).trans (List.take_of_length_le hlen)
  refine parse_of_not_recognised ?_
  rw [Recognised, htext, getType_bare hcommand fun h => h.elim hok hquit]
  exact not_not.mpr rfl

/-- The length of what is written. -/
theorem length_fullText_le_body (m : C2HMessage) : (fullText m).length ≤ (body m).length + 6 := by
  have hcommand : (m.type.commandPrefix.getD []).length ≤ 5 := by
    cases m.type <;> decide
  rw [fullText, commandText, List.length_append]
  split_ifs
  · rw [List.length_cons]
    omega
  · rw [List.length_nil]
    omega

theorem length_body_le (m : C2HMessage) :
    (body m).length ≤ m.user.bytes.length + 3 + m.content.bytes.length := by
  unfold body
  split_ifs
  · simp only [List.length_cons, List.length_append]
    omega
  · omega

theorem length_fullText_le {m : C2HMessage} {type : C2HMessageType} {buffer : CStr}
    (h : C2HMessage.ofBuffer type buffer = .ok m) :
    (fullText m).length ≤ buffer.bytes.length + 7 := by
  have hbody : (body m).length ≤ buffer.bytes.length + 1 := by
    cases huser : Message.getUser buffer.bytes type kMaxNicknameSize with
    | none =>
      rw [ofBuffer_untagged huser] at h
      cases h
      exact Nat.le_succ _
    | some user =>
      obtain ⟨-, hpos, -, before, after, hparts, -⟩ := getUser_eq_some huser
      rw [ofBuffer_of_user huser (user_fits_of_ofBuffer h huser)] at h
      cases h
      have hlen := congrArg List.length hparts
      have hcontent : (CStr.ofBlock (buffer.bytes.drop (user.length + 3))).bytes.length ≤
          buffer.bytes.length - (user.length + 3) := by
        rw [← List.length_drop]
        exact (List.takeWhile_prefix _).length_le
      simp only [body, if_pos hpos, List.length_cons, List.length_append] at hlen ⊢
      omega
  exact (length_fullText_le_body m).trans (Nat.add_le_add_right hbody 6)

/-! ### One line -/

/-- What everybody gets for a line of a client, when each of the frames on the way is read at
once; `none` when it is nothing.  `nick` is the nickname that is stored for the client. -/
def arrives (nick : CStr) (line : WStr) : Except Fault (Option C2HMessage) :=
  (App.enter line).bind fun
    | .send message =>
      (C2HMessage.format message CStr.empty kBufferSize).bind fun sent =>
        (Server.relayFrame nick sent).bind fun
          | none => .ok none
          | some frame => C2HMessage.parse (CStr.ofBlock frame)
    | _ => .ok none

/-- A text that arrives as it was typed: it is no command, it has no user in brackets, no percent
sign and no blanks around it. -/
def Verbatim (text : Bytes) : Prop :=
  App.Plain text ∧ percent ∉ text ∧ strip defaultSeps text = text

instance (text : Bytes) : Decidable (Verbatim text) := inferInstanceAs (Decidable (_ ∧ _ ∧ _))

/-- The string in a frame. -/
theorem ofBlock_frame {m : C2HMessage} {out : CStr}
    (hout : C2HMessage.format m CStr.empty kBufferSize = .ok out) :
    CStr.ofBlock (Server.frame m) = out := by
  rw [Server.frame, hout]
  exact CStr.ext (CStr.bytes_ofBlock_append out.nulFree [])

section Nickname

variable {nick content : CStr}

/-- A chat message under a nickname is unambiguous. -/
theorem unambiguous_relayed (hnick : matchesNicknamePattern nick = true) (content : CStr) :
    C2HMessage.Unambiguous ⟨.msg, content, nick⟩ := by
  obtain ⟨hend, hge, hle⟩ := nickname_facts hnick
  exact .inr ⟨.inl rfl, (by omega : 0 < nick.bytes.length), hle.trans_lt (by decide), hend⟩

/-- The text of a chat message under a nickname. -/
theorem body_relayed (hnick : matchesNicknamePattern nick = true) (content : CStr) :
    body ⟨.msg, content, nick⟩ = userTag nick.bytes ++ 32 :: content.bytes := by
  obtain ⟨-, hge, -⟩ := nickname_facts hnick
  rw [body, if_pos (by omega : 0 < nick.bytes.length), userTag, List.cons_append, List.append_assoc]
  rfl

/-- A chat message under a nickname is written whole, and read back without the blanks behind
it. -/
theorem parse_relayed (hnick : matchesNicknamePattern nick = true)
    (hfit : nick.bytes.length + 8 + content.bytes.length < kBufferSize) :
    ∃ m, C2HMessage.parse (CStr.ofBlock (Server.frame ⟨.msg, content, nick⟩)) = .ok (some m) ∧
      m.type = .msg ∧ m.user = nick ∧
      m.content.bytes = content.bytes.rdropWhile (· ∈ defaultSeps) := by
  have hcommand : C2HMessageType.commandPrefix .msg = some (ascii "/msg") := rfl
  have hbody := body_relayed hnick content
  have hne : body ⟨.msg, content, nick⟩ ≠ [] := by
    rw [hbody, userTag]
    exact List.cons_ne_nil _ _
  have hlen : (fullText ⟨.msg, content, nick⟩).length < kBufferSize := by
    have h5 : (ascii "/msg ").length = 5 := by decide
    rw [fullText_msg rfl (List.length_pos_of_ne_nil hne), hbody, List.length_append,
      List.length_append, length_userTag, List.length_cons]
    omega
  obtain ⟨out, hout, -, m, hparse, htype, huser, hkept⟩ :=
    parse_format hcommand (unambiguous_relayed hnick content) (fun _ _ => hne) hlen
  refine ⟨m, ofBlock_frame hout ▸ hparse, htype, huser, ?_⟩
  rw [hkept, C2HMessage.kept, if_neg]
  rintro rfl
  exact absurd hnick (by decide)

/-- The text that a chat message was made of is not longer than the nickname and the content. -/
theorem exists_ofBuffer_of_relay {m : C2HMessage} (h : Server.relay nick content = .ok m) :
    ∃ buffer, C2HMessage.ofBuffer .msg buffer = .ok m ∧
      buffer.bytes.length ≤ nick.bytes.length + 3 + content.bytes.length := by
  obtain ⟨first, hfirst, hcreate⟩ := bind_eq_ok.mp h
  obtain ⟨buffer, hbuffer, hm⟩ := bind_eq_ok.mp hcreate
  obtain ⟨first', hfirst', hbytes⟩ :=
    vsnprintf_eq_ok kBufferSize (by decide) (expand_tagged nick content)
  rw [hfirst] at hfirst'
  cases hfirst'
  have hlen : first.bytes.length ≤ nick.bytes.length + 3 + content.bytes.length := by
    rw [hbytes]
    refine (List.take_prefix _ _).length_le.trans ?_
    simp only [List.length_cons, List.length_append]
    omega
  obtain ⟨text, htext, rfl⟩ := map_eq_ok.mp hbuffer
  refine ⟨_, hm, ?_⟩
  refine ((List.takeWhile_prefix _).length_le.trans (List.take_prefix _ _).length_le).trans ?_
  exact (length_expand_nil_args htext).1.trans hlen

/-- A chat message under a nickname that arrives with all of its content has no percent sign. -/
theorem percentFree_of_parse {m m' : C2HMessage} (hnick : matchesNicknamePattern nick = true)
    (hshort : content.bytes.length < kBufferSize - 400) (hpos : 0 < content.bytes.length)
    (hrelay : Server.relay nick content = .ok m)
    (hparse : C2HMessage.parse (CStr.ofBlock (Server.frame m)) = .ok (some m'))
    (huser : m'.user = nick) (hlen : content.bytes.length ≤ m'.content.bytes.length) :
    percent ∉ nick.bytes ∧ percent ∉ content.bytes := by
  obtain ⟨-, hge, hle⟩ := nickname_facts hnick
  obtain ⟨buffer, hbuffer, hbound⟩ := exists_ofBuffer_of_relay hrelay
  have htype : m.type = .msg := type_of_relay hrelay
  have hcommand : m.type.commandPrefix = some (ascii "/msg") := by
    rw [htype]
    rfl
  have hfit : (fullText m).length < kBufferSize := by
    have hfull := length_fullText_le hbuffer
    rw [kMaxNicknameLength] at hle
    rw [kBufferSize] at hshort ⊢
    omega
  have hok : m.type ≠ .ok := by rw [htype]; decide
  have hquit : m.type ≠ .quit := by rw [htype]; decide
  -- what is read is what was relayed
  have hbody : body m ≠ [] := by
    intro hempty
    obtain ⟨out, hout, -⟩ := format_eq_take hcommand CStr.empty kBufferSize
    rw [ofBlock_frame hout, parse_format_empty hcommand hok hquit hempty hout] at hparse
    cases hparse
  obtain ⟨out, hout, -, m₁, hread, -, huser₁, hkept⟩ :=
    parse_format hcommand (unambiguous_of_ofBuffer hbuffer) (fun _ _ => hbody) hfit
  rw [ofBlock_frame hout, hread] at hparse
  cases hparse
  rw [huser₁] at huser
  have hcontent : content.bytes.length ≤ m.content.bytes.length := by
    rw [hkept] at hlen
    exact hlen.trans m.length_kept_le
  -- so no byte was lost to the two passes
  have hfree := (percentFree_of_length (by decide) (expand_tagged nick content) hrelay (by
    intro buffer hbuffer
    have hrest := congrArg List.length (bytes_content_ofBuffer hbuffer)
    rw [tagSkip, huser, if_pos (by omega), List.length_drop] at hrest
    simp only [List.length_cons, List.length_append]
    omega)).1
  simp only [List.mem_cons, List.mem_append, not_or] at hfree
  exact ⟨hfree.2.1, hfree.2.2.2.2⟩

end Nickname

/-- A text without blanks around it has none behind it. -/
theorem rdropWhile_of_strip {text : Bytes} (h : strip defaultSeps text = text) :
    text.rdropWhile (· ∈ defaultSeps) = text := by
  refine (List.rdropWhile_prefix _ _).eq_of_length_le ?_
  calc text.length = (strip defaultSeps text).length := by rw [h]
    _ ≤ (text.rdropWhile (· ∈ defaultSeps)).length := (List.dropWhile_suffix _).length_le

/-- The parts of a message. -/
theorem C2HMessage.ext_of {m : C2HMessage} {type : C2HMessageType} {content user : CStr}
    (htype : m.type = type) (hcontent : m.content.bytes = content.bytes) (huser : m.user = user) :
    m = ⟨type, content, user⟩ := by
  obtain ⟨t, c, u⟩ := m
  obtain rfl : c = content := CStr.ext hcontent
  cases htype
  cases huser
  rfl

section Line

variable {nick : CStr} {line : WStr}

/-- What is written and read for a message that is not relayed yet. -/
theorem parse_sent {m : C2HMessage} {text : Bytes} (htype : m.type = .msg ∨ m.type = .nick)
    (hwithin : App.Within text m) (hshort : text.length < kBufferSize - 400) {sent : CStr}
    (hsent : C2HMessage.format m CStr.empty kBufferSize = .ok sent) {m' : C2HMessage}
    (hparse : C2HMessage.parse sent = .ok (some m')) :
    m'.type = m.type ∧ m'.content.bytes = m.kept := by
  obtain ⟨type, buffer, hbuffer⟩ := hwithin.made
  obtain ⟨command, hcommand⟩ : ∃ command, m.type.commandPrefix = some command := by
    rcases htype with htype | htype
    all_goals
      rw [htype]
      exact ⟨_, rfl⟩
  have hoptional : m.type ≠ .ok ∧ m.type ≠ .quit := by
    rcases htype with htype | htype
    all_goals
      rw [htype]
      decide
  have hbody : body m ≠ [] := by
    intro hempty
    rw [parse_format_empty hcommand hoptional.1 hoptional.2 hempty hsent] at hparse
    cases hparse
  have hfit : (fullText m).length < kBufferSize := by
    have hcontent := hwithin.content
    have huser : m.user.bytes.length < 60 := hwithin.user
    have hlen := length_fullText_le_body m
    have hsum := length_body_le m
    rw [kBufferSize] at hshort ⊢
    omega
  obtain ⟨out, hout, -, m₁, hread, htype₁, -, hkept⟩ :=
    parse_format hcommand (unambiguous_of_ofBuffer hbuffer) (fun _ _ => hbody) hfit
  rw [hout] at hsent
  cases hsent
  rw [hread] at hparse
  cases hparse
  exact ⟨htype₁, hkept⟩

/-- What is relayed for a frame, and the message it was made of. -/
theorem relayFrame_eq_some {data : CStr} {frame : Bytes}
    (h : Server.relayFrame nick data = .ok (some frame)) :
    ∃ m r, C2HMessage.parse data = .ok (some m) ∧ m.type = .msg ∧ 0 < m.content.bytes.length ∧
      Server.relay nick m.content = .ok r ∧ frame = Server.frame r := by
  obtain ⟨o, hparse, hrest⟩ := bind_eq_ok.mp h
  cases o with
  | none => cases hrest
  | some m =>
    by_cases hchat : m.type = .msg ∧ m.content.bytes.length > 0
    · simp only [if_pos hchat] at hrest
      obtain ⟨r, hrelay, hframe⟩ := map_eq_ok.mp hrest
      cases hframe
      exact ⟨m, r, hparse, hchat.1, hchat.2, hrelay, rfl⟩
    · simp only [if_neg hchat] at hrest
      cases hrest

/-- A line that is sent, relayed and read back. -/
theorem arrives_eq_some {m : C2HMessage} (h : arrives nick line = .ok (some m)) :
    ∃ message sent m₁ r, App.enter line = .ok (.send message) ∧
      C2HMessage.format message CStr.empty kBufferSize = .ok sent ∧
      C2HMessage.parse sent = .ok (some m₁) ∧ m₁.type = .msg ∧ 0 < m₁.content.bytes.length ∧
      Server.relay nick m₁.content = .ok r ∧
      C2HMessage.parse (CStr.ofBlock (Server.frame r)) = .ok (some m) := by
  obtain ⟨entered, henter, hrest⟩ := bind_eq_ok.mp h
  cases entered with
  | nothing | invalid | quit => cases hrest
  | send message =>
    obtain ⟨sent, hsent, hrest⟩ := bind_eq_ok.mp hrest
    obtain ⟨o, hrelayed, hrest⟩ := bind_eq_ok.mp hrest
    cases o with
    | none => cases hrest
    | some frame =>
      obtain ⟨m₁, r, hparse, htype, hpos, hrelay, rfl⟩ := relayFrame_eq_some hrelayed
      exact ⟨message, sent, m₁, r, henter, hsent, hparse, htype, hpos, hrelay, hrest⟩

/-- A text is sent and read as it was typed. -/
theorem parse_of_verbatim {text : CStr} (htext : Verbatim text.bytes)
    (hshort : text.bytes.length < kBufferSize - 400) :
    ∃ sent, C2HMessage.format ⟨.msg, text, CStr.empty⟩ CStr.empty kBufferSize = .ok sent ∧
      sent.bytes.length < kBufferSize ∧
      C2HMessage.parse sent = .ok (some ⟨.msg, text, CStr.empty⟩) := by
  obtain ⟨⟨hne, -, hnone⟩, -, hstrip⟩ := htext
  have hcommand : C2HMessageType.commandPrefix .msg = some (ascii "/msg") := rfl
  have hlen := length_fullText_le_body ⟨.msg, text, CStr.empty⟩
  have hbody : body ⟨.msg, text, CStr.empty⟩ = text.bytes := rfl
  have hfit : (fullText ⟨.msg, text, CStr.empty⟩).length < kBufferSize := by
    rw [hbody] at hlen
    rw [kBufferSize] at hshort ⊢
    omega
  obtain ⟨sent, hsent, hbytes, m, hparse, htype, huser, hkept⟩ :=
    parse_format (m := ⟨.msg, text, CStr.empty⟩) hcommand (.inl ⟨rfl, hnone⟩) (fun _ _ => hne) hfit
  rw [C2HMessage.kept, if_pos rfl, hstrip] at hkept
  obtain rfl := C2HMessage.ext_of htype hkept huser
  exact ⟨sent, hsent, by rw [hbytes]; exact hfit, hparse⟩

/-- It is relayed under the nickname. -/
theorem relay_of_verbatim {text : CStr} (hnick : matchesNicknamePattern nick = true)
    (hpercent : percent ∉ nick.bytes) (htext : Verbatim text.bytes)
    (hshort : text.bytes.length < kBufferSize - 400) :
    Server.relay nick text = .ok ⟨.msg, text, nick⟩ := by
  have hle : nick.bytes.length ≤ 15 := (nickname_facts hnick).2.2
  rw [kBufferSize] at hshort
  exact (RelayedExactly.of_percentFree hnick hpercent htext.2.1 (by rw [kBufferSize]; omega)).relay

/-- **A text that may be said arrives.** -/
theorem arrives_of_verbatim (hnick : matchesNicknamePattern nick = true)
    (hline : line.chars.length < App.kMaxMessageLength) (hpercent : percent ∉ nick.bytes)
    (htext : Verbatim (App.text line).bytes) :
    arrives nick line = .ok (some ⟨.msg, App.text line, nick⟩) := by
  have hle : nick.bytes.length ≤ 15 := (nickname_facts hnick).2.2
  have hshort := App.length_text_lt hline
  obtain ⟨sent, hsent, -, hparse⟩ := parse_of_verbatim htext hshort
  have hrelay := relay_of_verbatim hnick hpercent htext hshort
  rw [kBufferSize] at hshort
  obtain ⟨m, hread, htype, huser, hcontent⟩ :=
    parse_relayed hnick (show nick.bytes.length + 8 + (App.text line).bytes.length < kBufferSize by
      rw [kBufferSize]; omega)
  rw [rdropWhile_of_strip htext.2.2] at hcontent
  obtain rfl := C2HMessage.ext_of htype hcontent huser
  rw [arrives, App.enter_plain hline htext.1]
  simp only [Except.bind, hsent, relayFrame_eq hparse rfl htext.1.1, hrelay, Except.map, hread]

end Line

/-- A greeting between blanks. -/
def greeting : WStr := ⟨[32, 103, 114, 252, 223, 32, 100, 105, 99, 104, 10], by decide⟩

end C2Hat
