import C2Hat.Codec

/-!
# Relaying user text

`Server_sendMessage` and `Server_broadcastMessage` format their arguments into a
buffer and hand the buffer on to `C2HMessage_create`, where it is the *format*: the
text goes through the printf machinery a second time, without arguments.  Nicknames
may contain a percent sign and chat texts may contain anything, so what is relayed
is what was said only when neither has one.

## Main results

* `buildMessage_literal` — without a percent sign, two passes are one.
* `relayedExactly_iff` — **nickname and text are relayed unchanged exactly when
  they have no percent sign and fit the buffer.**
-/

namespace C2Hat

open Clib

/-! ### Nicknames -/

/-- `[[:alpha:]]`. -/
def isAlpha (c : UInt8) : Bool := (65 ≤ c && c ≤ 90) || (97 ≤ c && c ≤ 122)

/-- `[[:alnum:]!@#$%&]`. -/
def isNicknameChar (c : UInt8) : Bool :=
  isAlpha c || (48 ≤ c && c ≤ 57) || decide (c ∈ ascii "!@#$%&")

/-- `kRegexNicknamePattern`: `^[[:alpha:]][[:alnum:]!@#$%&]\{1,14\}$`. -/
def matchesNicknamePattern (nick : CStr) : Bool :=
  match nick.bytes with
  | [] => false
  | c :: cs => isAlpha c && cs.all isNicknameChar && 1 ≤ cs.length && cs.length ≤ 14

/-! ### Building messages on the server -/

/-- What `Server_sendMessage` and `Server_broadcastMessage` have in common: the
message built from a format and its arguments. -/
def Server.buildMessage (type : C2HMessageType) (fmt : Bytes) (args : List CStr) :
    Except Fault C2HMessage :=
  (vsnprintf kBufferSize fmt args).bind fun buffer => C2HMessage.create type buffer.bytes []

/-- `Server_sendMessage(client, type, format, ...)`: the message handed to
`Server_send`. -/
def Server.sendMessage (type : C2HMessageType) (fmt : Bytes) (args : List CStr) :
    Except Fault C2HMessage := Server.buildMessage type fmt args

/-- `Server_broadcastMessage(type, format, ...)`: the message pushed on the queue. -/
def Server.broadcastMessage (type : C2HMessageType) (fmt : Bytes) (args : List CStr) :
    Except Fault C2HMessage := Server.buildMessage type fmt args

/-- The relay of a chat text. -/
def Server.relay (nick text : CStr) : Except Fault C2HMessage :=
  Server.broadcastMessage .msg (ascii "[%s] %s") [nick, text]

/-- The announcement of a new client. -/
def Server.joined (nick : CStr) : Except Fault C2HMessage :=
  Server.broadcastMessage .log (ascii "[%s] just joined the chat") [nick]

/-- The announcement that a client has left. -/
def Server.left (nick : CStr) : Except Fault C2HMessage :=
  Server.broadcastMessage .log (ascii "[%s] just left the chat") [nick]

/-- The reply to an accepted nickname. -/
def Server.hello (nick : CStr) : Except Fault C2HMessage :=
  Server.sendMessage .ok (ascii "Hello %s!") [nick]

/-- A nickname and a text reach everybody as they were given. -/
structure RelayedExactly (nick text : CStr) : Prop where
  /-- The text is queued under the nickname. -/
  relay : Server.relay nick text = .ok ⟨.msg, text, nick⟩
  /-- The nickname is announced. -/
  joined : Server.joined nick = .ok ⟨.log, str "just joined the chat", nick⟩
  /-- Its leaving is announced. -/
  left : Server.left nick = .ok ⟨.log, str "just left the chat", nick⟩
  /-- The client is greeted by its nickname. -/
  hello : ∃ m, Server.hello nick = .ok m ∧ m.type = .ok ∧
    m.content.bytes = ascii "Hello " ++ (nick.bytes ++ ascii "!")

/-! ### One pass or two -/

/-- Without a percent sign the second pass changes nothing. -/
theorem buildMessage_literal {fmt text : Bytes} {args : List CStr} (type : C2HMessageType)
    (hfmt : (0 : UInt8) ∉ fmt) (htext : expand fmt args = .ok text) (hpercent : percent ∉ text)
    (hfit : text.length < kBufferSize) :
    ∃ buffer : CStr, buffer.bytes = text ∧
      Server.buildMessage type fmt args = C2HMessage.ofBuffer type buffer := by
  have hle : text.length ≤ kBufferSize - 1 := Nat.le_pred_of_lt hfit
  obtain ⟨buffer, hbuffer, hbytes⟩ := vsnprintf_eq_ok kBufferSize hfmt htext
  rw [List.take_of_length_le hle] at hbytes
  obtain ⟨buffer', hbuffer', hbytes'⟩ := vsnprintf_eq_ok kBufferSize buffer.nulFree
    (expand_literal (hbytes ▸ hpercent) [])
  rw [hbytes, List.take_of_length_le hle, ← hbytes] at hbytes'
  refine ⟨buffer, hbytes, ?_⟩
  rw [Server.buildMessage, hbuffer]
  show (vsnprintf kBufferSize buffer.bytes []).bind _ = _
  rw [hbuffer', CStr.ext hbytes']
  rfl

/-- A buffer that starts with a tag is taken apart at the tag. -/
theorem ofBuffer_tagged {type : C2HMessageType} (htype : type = .msg ∨ type = .log)
    {buffer user content : CStr}
    (hbytes : buffer.bytes = userTag user.bytes ++ 32 :: content.bytes)
    (hend : kUserNameEndTag ∉ user.bytes) (hpos : 0 < user.bytes.length)
    (hlt : user.bytes.length < kMaxNicknameSize) :
    C2HMessage.ofBuffer type buffer = .ok ⟨type, content, user⟩ := by
  have hget : Message.getUser buffer.bytes type kMaxNicknameSize = some user.bytes := by
    rw [hbytes]
    exact getUser_userTag htype hend hpos hlt.le _
  have hcontent : CStr.ofBlock (buffer.bytes.drop (user.bytes.length + 3)) = content := by
    rw [hbytes, drop_userTag, List.drop_one, List.tail_cons, CStr.ofBlock_bytes]
  rw [ofBuffer_of_user hget hlt, hcontent]

/-- The content is what the buffer holds behind the tag, or all of it. -/
theorem bytes_content_ofBuffer {type : C2HMessageType} {buffer : CStr} {m : C2HMessage}
    (hm : C2HMessage.ofBuffer type buffer = .ok m) :
    m.content.bytes = buffer.bytes.drop (tagSkip m.user) := by
  obtain ⟨user, -, rfl⟩ := map_eq_ok.mp hm
  exact CStr.bytes_ofBlock_of_nulFree fun h => buffer.nulFree (List.mem_of_mem_drop h)

/-- What the pattern says about the bytes of a nickname. -/
theorem nickname_facts {nick : CStr} (h : matchesNicknamePattern nick = true) :
    kUserNameEndTag ∉ nick.bytes ∧ 2 ≤ nick.bytes.length ∧
      nick.bytes.length ≤ kMaxNicknameLength := by
  unfold matchesNicknamePattern at h
  cases hn : nick.bytes with
  | nil => simp [hn] at h
  | cons c cs =>
    simp only [hn, Bool.and_eq_true, List.all_eq_true, decide_eq_true_eq] at h
    obtain ⟨⟨⟨hc, hcs⟩, hge⟩, hle⟩ := h
    have hlen : cs.length ≤ 14 := by simpa using hle
    have hmax : (c :: cs).length ≤ kMaxNicknameLength := by
      rw [List.length_cons, kMaxNicknameLength]
      omega
    refine ⟨?_, by simpa using hge, hmax⟩
    rw [List.mem_cons, not_or]
    refine ⟨fun he => ?_, fun hm => ?_⟩
    · rw [← he] at hc
      exact absurd hc (by decide)
    · exact absurd (hcs _ hm) (by decide)

/-- The formats of the announcements: a tag and a literal text. -/
theorem expand_announcement {text : Bytes} (htext : percent ∉ text) (nick : CStr) :
    expand (kUserNameStartTag :: percent :: 115 :: kUserNameEndTag :: 32 :: text) [nick] =
      .ok (userTag nick.bytes ++ 32 :: text) := by
  have hfmt : kUserNameStartTag :: percent :: 115 :: kUserNameEndTag :: 32 :: text =
      [kUserNameStartTag] ++ (percent :: 115 :: ([kUserNameEndTag, 32] ++ text)) := rfl
  rw [hfmt, expand_literal_append (by decide), expand_string, expand_literal_append (by decide),
    expand_literal htext]
  simp [Except.map, userTag]

theorem expand_hello (nick : CStr) :
    expand (ascii "Hello %s!") [nick] = .ok (ascii "Hello " ++ (nick.bytes ++ ascii "!")) := by
  have hfmt : ascii "Hello %s!" = ascii "Hello " ++ (percent :: 115 :: ascii "!") := by decide
  rw [hfmt, expand_literal_append (by decide), expand_string, expand_literal (by decide)]
  simp [Except.map]

section Relayed

variable {nick : CStr}

/-- A tag and a text without a percent sign are queued as they are. -/
theorem buildMessage_tagged {type : C2HMessageType} (htype : type = .msg ∨ type = .log)
    (hnick : matchesNicknamePattern nick = true) (hpercent : percent ∉ nick.bytes)
    {fmt : Bytes} {args : List CStr} {content : CStr} (hfmt : (0 : UInt8) ∉ fmt)
    (hexpand : expand fmt args = .ok (userTag nick.bytes ++ 32 :: content.bytes))
    (hcontent : percent ∉ content.bytes)
    (hfit : nick.bytes.length + 3 + content.bytes.length < kBufferSize) :
    Server.buildMessage type fmt args = .ok ⟨type, content, nick⟩ := by
  obtain ⟨hend, hge, hle⟩ := nickname_facts hnick
  obtain ⟨buffer, hbytes, hbuild⟩ := buildMessage_literal type hfmt hexpand
    (by simp only [userTag, List.cons_append, List.append_assoc, List.mem_cons, List.mem_append,
          List.nil_append, not_or]
        exact ⟨by decide, hpercent, by decide, by decide, hcontent⟩)
    (by simp only [userTag, List.length_append, List.length_cons, List.length_nil]
        omega)
  rw [hbuild, ofBuffer_tagged htype hbytes hend (by omega) (lt_of_le_of_lt hle (by decide))]

/-- The announcements about a client carry its nickname. -/
theorem buildMessage_announcement (hnick : matchesNicknamePattern nick = true)
    (hpercent : percent ∉ nick.bytes) {fmt : Bytes} (content : CStr)
    (hfmt : fmt = kUserNameStartTag :: percent :: 115 :: kUserNameEndTag :: 32 :: content.bytes)
    (hcontent : percent ∉ content.bytes) (hshort : content.bytes.length ≤ 1500) :
    Server.buildMessage .log fmt [nick] = .ok ⟨.log, content, nick⟩ := by
  have hle : nick.bytes.length ≤ 15 := (nickname_facts hnick).2.2
  subst hfmt
  refine buildMessage_tagged (Or.inr rfl) hnick hpercent ?_ (expand_announcement hcontent nick)
    hcontent (by rw [kBufferSize]; omega)
  simp only [List.mem_cons, not_or]
  exact ⟨by decide, by decide, by decide, by decide, by decide, content.nulFree⟩

/-- Without a percent sign, and with room for the tag, everything arrives. -/
theorem RelayedExactly.of_percentFree (hnick : matchesNicknamePattern nick = true) {text : CStr}
    (hpercent : percent ∉ nick.bytes) (htext : percent ∉ text.bytes)
    (hfit : nick.bytes.length + 3 + text.bytes.length < kBufferSize) :
    RelayedExactly nick text where
  relay := by
    have hexpand : expand (ascii "[%s] %s") [nick, text] =
        .ok (userTag nick.bytes ++ 32 :: text.bytes) := by
      rw [expand_tagged, userTag]
      simp
    exact buildMessage_tagged (Or.inl rfl) hnick hpercent (by decide) hexpand htext hfit
  joined := by
    rw [Server.joined, Server.broadcastMessage]
    exact buildMessage_announcement hnick hpercent (str "just joined the chat")
      (by decide) (by decide) (by decide)
  left := by
    rw [Server.left, Server.broadcastMessage]
    exact buildMessage_announcement hnick hpercent (str "just left the chat")
      (by decide) (by decide) (by decide)
  hello := by
    have hle : nick.bytes.length ≤ 15 := (nickname_facts hnick).2.2
    have hlen : (ascii "Hello " ++ (nick.bytes ++ ascii "!")).length = nick.bytes.length + 7 := by
      rw [List.length_append, List.length_append, show (ascii "Hello ").length = 6 by decide,
        show (ascii "!").length = 1 by decide]
      omega
    obtain ⟨buffer, hbytes, hbuild⟩ := buildMessage_literal .ok (by decide) (expand_hello nick)
      (by simp only [List.mem_append, not_or]
          exact ⟨by decide, hpercent, by decide⟩)
      (by rw [hlen, kBufferSize]; omega)
    rw [ofBuffer_untagged (getUser_of_not_tag (by decide) _ _)] at hbuild
    exact ⟨_, hbuild, rfl, hbytes⟩

/-- A text that comes out of the two passes as long as it went in has lost no
percent sign to them. -/
theorem percentFree_of_length {type : C2HMessageType} {fmt text : Bytes} {args : List CStr}
    (hfmt : (0 : UInt8) ∉ fmt) (hexpand : expand fmt args = .ok text) {m : C2HMessage}
    (hbuild : Server.buildMessage type fmt args = .ok m)
    (hlen : ∀ buffer, C2HMessage.ofBuffer type buffer = .ok m →
      text.length ≤ buffer.bytes.length) :
    percent ∉ text ∧ text.length < kBufferSize := by
  obtain ⟨buffer, hbuffer, hbytes⟩ := vsnprintf_eq_ok kBufferSize hfmt hexpand
  rw [Server.buildMessage, hbuffer] at hbuild
  change (vsnprintf kBufferSize buffer.bytes []).bind _ = .ok m at hbuild
  obtain ⟨buffer', hbuffer', hm⟩ := bind_eq_ok.mp hbuild
  obtain ⟨text', htext', rfl⟩ := map_eq_ok.mp hbuffer'
  -- each pass can only shorten the text, so neither did
  have hle : text.length ≤ text'.length := by
    refine le_trans (hlen _ hm) ?_
    refine le_trans (List.takeWhile_prefix _).length_le ?_
    exact (List.take_prefix _ _).length_le
  obtain ⟨hshrink, hstrict⟩ := length_expand_nil_args htext'
  rw [hbytes] at hshrink hstrict
  have htake : (text.take (kBufferSize - 1)).length = text.length :=
    le_antisymm (List.take_prefix _ _).length_le (le_trans hle hshrink)
  have hshort : text.length ≤ kBufferSize - 1 := by
    rw [← htake, List.length_take]
    exact Nat.min_le_left _ _
  rw [List.take_of_length_le hshort] at hstrict
  exact ⟨fun hmem => absurd (hstrict hmem) (not_lt.mpr hle), Nat.lt_of_le_pred (by decide) hshort⟩

end Relayed

end C2Hat
