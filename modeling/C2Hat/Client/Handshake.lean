import C2Hat.Conversation
import C2Hat.Server.Sending

/-!
# The client's side of the handshake

`Client_connect` behind the TLS handshake, and `Client_authenticate`, of `src/client/client.c`.
Each of the three messages that the client waits for takes a read of its own: `C2HMessage_get` is
called once behind it, and the next `Client_receive` clears the buffer.

## Main definitions

* `C2HatClient` — the client, with what it has written and printed.
* `C2HatClient.response` — `Client_receive`, and `C2HMessage_get` behind it.
* `C2HatClient.awaitWelcome`, `C2HatClient.authenticate` — the two functions.
* `C2HatClient.logIn` — one behind the other.

## Main results

* `response_frames` — **only the first frame of a read counts.**
* `logIn_of_frames` — **the client logs in exactly when three reads begin with the right frames.**
-/

namespace C2Hat

open Clib WriteLoop

/-! ### The functions -/

/-- The bytes of a text in UTF-8. -/
def utf8 (s : String) : Bytes := s.toUTF8.data.toList

/-- What the handshake tells the user. -/
inductive Notice
  /-- In `Client_connect`. -/
  | timeout
  | refused (content : CStr)
  | welcome (content : CStr)
  /-- In `Client_authenticate`. -/
  | shortNickname
  | notPrompted
  | notSent
  | noResponse
  | rejected (content : CStr)
  | invalidResponse
  deriving DecidableEq

/-- The text of a notice. -/
def Notice.text : Notice → Bytes
  | .timeout => utf8 "Client timeout expired\n"
  | .refused content =>
    utf8 "❌ Error: Connection refused: " ++ content.bytes ++ utf8 "\n"
  | .welcome content => utf8 "\n💬 " ++ content.bytes ++ utf8 "\n"
  | .shortNickname => utf8
      "❌ Error: Invalid user nickname\nNicknames must be at least 2 characters long\n"
  | .notPrompted => utf8 "❌ Error: Unable to authenticate\nUnknown server response\n"
  | .notSent => utf8
      "❌ Error: Unable to authenticate\nCannot send data to the server, please retry later\n"
  | .noResponse => utf8
      "❌ Error: Authentication failed\nCannot receive a response from the server\n"
  | .rejected content =>
    utf8 "❌ [Server Error] Authentication failed\n" ++ content.bytes ++ utf8 "\n"
  | .invalidResponse => utf8
      "❌ Error: Authentication failed\nInvalid response from the server\n"

/-- A `C2HatClient`. -/
structure C2HatClient where
  server : ℤ
  /-- `ssl` is not `NULL`. -/
  ssl : Bool
  buffer : MessageBuffer
  /-- What has been printed to the streams of the client, one notice after the other. -/
  out : List Notice
  err : List Notice
  /-- What `SSL_write` has accepted. -/
  written : Bytes
  deriving DecidableEq

/-- What a call returns that may have to wait: `none` when it is still waiting. -/
abbrev Blocking (α : Type) : Type := Except Fault (Option α)

/-- Go on behind such a call. -/
def Blocking.andThen {α β : Type} (x : Blocking α) (f : α → Blocking β) : Blocking β :=
  x.bind fun
    | none => .ok none
    | some a => f a

/-- What the client makes of a read. -/
inductive Response
  /-- `Client_receive` returns -1. -/
  | lost
  /-- `C2HMessage_get` returns `NULL`. -/
  | null
  | message (m : C2HMessage)
  deriving DecidableEq

/-- How a function has returned: its result, the client behind it, and the reads that are left. -/
structure Returned where
  result : Bool
  this : C2HatClient
  reads : List ReadResult
  deriving DecidableEq

/-- What `select` reports to `Client_connect`; a signal interrupts it. -/
inductive ConnectReport
  | interrupted | failed | timeout
  | ready (readable : Bool)

namespace C2HatClient

/-- `Client_disconnect(this)`. -/
def disconnect (this : C2HatClient) : C2HatClient := { this with ssl := false }

/-- Print to `this->out`. -/
def print (this : C2HatClient) (notice : Notice) : C2HatClient :=
  { this with out := this.out ++ [notice] }

/-- Print to `this->err`. -/
def warn (this : C2HatClient) (notice : Notice) : C2HatClient :=
  { this with err := this.err ++ [notice] }

/-- `Client_receive(this)`, and `C2HMessage_get(&(this->buffer))` if it has received something. -/
def response (this : C2HatClient) (reads : List ReadResult) :
    Blocking (Response × C2HatClient × List ReadResult) :=
  Blocking.andThen (Client.receive this.buffer reads) fun (received, buffer, reads) =>
    if received < 0 then .ok (some (.lost, { this with buffer := buffer }, reads))
    else (C2HMessage.get buffer).map fun (message, buffer) =>
      some (message.elim .null .message, { this with buffer := buffer }, reads)

/-- The end of `Client_connect`: wait for the first message of the server.  `logs` is what
`vLogInit` returns. -/
def awaitWelcome (logs : Bool) (this : C2HatClient) (reads : List ReadResult)
    (reports : List ConnectReport) : Blocking Returned :=
  if socketIsValid this.server then
    match reports with
    | [] => .ok none
    | .interrupted :: _ => .ok (some ⟨true, this, reads⟩)
    | .failed :: _ => .ok (some ⟨false, this, reads⟩)
    | .timeout :: _ => .ok (some ⟨false, this.warn .timeout, reads⟩)
    | .ready false :: reports => awaitWelcome logs this reads reports
    | .ready true :: _ =>
      Blocking.andThen (this.response reads) fun
        | (.lost, this, reads) | (.null, this, reads) => .ok (some ⟨false, this, reads⟩)
        | (.message response, this, reads) =>
          if response.type ≠ .ok then
            .ok (some ⟨false, this.warn (.refused response.content), reads⟩)
          else
            let this :=
              if response.content.bytes.length > 0 then this.print (.welcome response.content)
              else this
            .ok (some ⟨logs, this, reads⟩)
  else .ok (some ⟨false, this, reads⟩)

/-- `Client_authenticate` behind the prompt: send the nickname, and wait for the reply. -/
def sendNickname (this : C2HatClient) (username : CStr) (results : ℕ → ℤ) (rounds : ℕ)
    (reads : List ReadResult) : Blocking Returned :=
  (C2HMessage.create .nick (ascii "%s") [username]).bind fun message =>
    Blocking.andThen (Client.send message results rounds) fun out =>
      let this := { this with written := this.written ++ out.accepted }
      if out.result < 0 then .ok (some ⟨false, (this.print .notSent).disconnect, reads⟩)
      else
        Blocking.andThen (this.response reads) fun
          | (.lost, this, reads) =>
            .ok (some ⟨false, (this.print .noResponse).disconnect, reads⟩)
          | (.null, this, reads) => .ok (some ⟨false, this, reads⟩)
          | (.message response, this, reads) =>
            if response.type ≠ .ok then
              let notice := if response.type = .err then .rejected response.content
                else .invalidResponse
              .ok (some ⟨false, (this.print notice).disconnect, reads⟩)
            else .ok (some ⟨true, this, reads⟩)

/-- `Client_authenticate(this, username)`; `results` is what `SSL_write` returns. -/
def authenticate (this : C2HatClient) (username : CStr) (results : ℕ → ℤ) (rounds : ℕ)
    (reads : List ReadResult) : Blocking Returned :=
  if username.bytes.length < 2 then
    .ok (some ⟨false, (this.print .shortNickname).disconnect, reads⟩)
  else
    Blocking.andThen (this.response reads) fun
      | (.lost, this, reads) => .ok (some ⟨false, this.disconnect, reads⟩)
      | (.null, this, reads) => .ok (some ⟨false, this, reads⟩)
      | (.message response, this, reads) =>
        if response.type ≠ .nick then
          .ok (some ⟨false, (this.print .notPrompted).disconnect, reads⟩)
        else this.sendNickname username results rounds reads

/-- `Client_connect` in `App_init`, and `Client_authenticate` in `App_authenticate`: the program
ends when one of them fails. -/
def logIn (logs : Bool) (this : C2HatClient) (reports : List ConnectReport) (username : CStr)
    (results : ℕ → ℤ) (rounds : ℕ) (reads : List ReadResult) : Blocking Returned :=
  Blocking.andThen (this.awaitWelcome logs reads reports) fun r =>
    if r.result then r.this.authenticate username results rounds r.reads else .ok (some r)

end C2HatClient

/-! ### One read -/

/-- A read that ends with a frame, with the message of its first frame. -/
structure FramedRead where
  first : Frame
  rest : List Frame
  /-- The read is not longer than what `SSL_read` is asked for. -/
  fits : (stream (first :: rest)).length ≤ kMessageBufferSize
  message : C2HMessage
  parsed : C2HMessage.parse first.text = .ok (some message)

/-- What `SSL_read` returns. -/
def FramedRead.result (r : FramedRead) : ReadResult := .received (stream (r.first :: r.rest))

/-- The last frame ends with its NUL. -/
theorem exists_stream_concat (f : Frame) (fs : List Frame) :
    ∃ s, stream (f :: fs) = s ++ [0] := by
  induction fs generalizing f with
  | nil => exact ⟨f.text.bytes, by rw [stream_cons, stream_nil]⟩
  | cons f' fs ih =>
    obtain ⟨s, hs⟩ := ih f'
    exact ⟨f.text.bytes ++ 0 :: s, by rw [stream_cons, hs, List.append_assoc, List.cons_append]⟩

/-- So does the padding. -/
theorem exists_padded_concat {fs : List Frame} {k : ℕ} (h : fs ≠ [] ∨ k ≠ 0) :
    ∃ s, stream fs ++ List.replicate k 0 = s ++ [0] := by
  cases k with
  | zero =>
    obtain ⟨f, fs, rfl⟩ := List.exists_cons_of_ne_nil (h.resolve_right fun hk => hk rfl)
    rw [List.replicate_zero, List.append_nil]
    exact exists_stream_concat f fs
  | succ k =>
    exact ⟨stream fs ++ List.replicate k 0, by rw [List.replicate_succ', List.append_assoc]⟩

section Read

variable {this : C2HatClient}

theorem receive_chunk {b : MessageBuffer} {reads : List ReadResult} (hb : Ready b) {c : Bytes}
    (hc : 1 ≤ c.length) :
    Client.receive b (.received c :: reads) = .ok (some (c.length,
      ({ MessageBuffer.zeroed with start := some 0 } : MessageBuffer).write 0 c, reads)) := by
  have hne : ¬ c.length = 0 := by omega
  rw [Client.receive, hb]
  simp only [Except.map, receiveLoop, if_neg hne, Option.getD_some]

/-- **Only the first frame of a read counts**: the others are lost when the buffer is cleared. -/
theorem response_frames (hready : Ready this.buffer) (r : FramedRead) (reads : List ReadResult) :
    ∃ b, Ready b ∧ this.response (r.result :: reads) =
      .ok (some (.message r.message, { this with buffer := b }, reads)) := by
  obtain ⟨c, hc⟩ : ∃ c, c = stream (r.first :: r.rest) := ⟨_, rfl⟩
  have hlen : c.length = r.first.text.bytes.length + 1 + (stream r.rest).length := by
    rw [hc, stream_cons, List.length_append, List.length_cons]
    omega
  have hview : (({ MessageBuffer.zeroed with start := some 0 } : MessageBuffer).write 0 c).view =
      [] ++ (r.first.text.bytes ++ 0 ::
        (stream r.rest ++ List.replicate (kMessageBufferSize - c.length) 0)) := by
    rw [view_chunk (by omega) (hc ▸ r.fits)]
    nth_rewrite 1 [hc]
    rw [stream_cons, List.append_assoc]
    rfl
  obtain ⟨b, hget, hleft⟩ := get_frame hview List.not_mem_nil r.first.head_slash
  -- something is left behind the first frame, since a frame does not fill the buffer
  have hrest : r.rest ≠ [] ∨ kMessageBufferSize - c.length ≠ 0 := by
    by_cases hnil : r.rest = []
    · have hfits := r.first.fits
      have hsize : kBufferSize < kMessageBufferSize := by decide
      rw [hnil, stream_nil, List.length_nil] at hlen
      exact .inr (by omega)
    · exact .inl hnil
  obtain ⟨t, ht⟩ := exists_padded_concat hrest
  rw [ht] at hleft
  refine ⟨b, ready_of_last hleft, ?_⟩
  have hreceived : ¬ (c.length : ℤ) < 0 := by omega
  rw [C2HatClient.response, FramedRead.result, ← hc, receive_chunk hready (by omega)]
  simp only [Blocking.andThen, Except.bind, if_neg hreceived, C2HMessage.get,
    getFrame_of_get hget, r.parsed, Except.map, Option.map, Option.elim]

end Read

/-! ### The functions, read by read -/

/-- `SSL_write` accepts a frame, in as many pieces as it likes. -/
structure Sendable (m : C2HMessage) (results : ℕ → ℤ) (rounds : ℕ) : Prop where
  pieces : PartialWrites (Server.frame m).length results
  accepted : ∀ n, 0 ≤ results n
  enough : (Server.frame m).length ≤ rounds

theorem Sendable.send {m : C2HMessage} {results : ℕ → ℤ} {rounds : ℕ}
    (h : Sendable m results rounds) : ∃ out, Client.send m results rounds = .ok (some out) ∧
      out.result = (Server.frame m).length ∧ out.accepted = Server.frame m := by
  obtain ⟨out, hformat, hlen, hframe⟩ := exists_sendBuffer m
  obtain ⟨written, hloop, hcomplete, -⟩ := writeLoop_partial (sendBuffer out)
    (length_frame_pos m) h.pieces h.enough
  obtain ⟨hresult, haccepted⟩ := hcomplete fun i _ => h.accepted i
  rw [hlen] at hloop haccepted
  refine ⟨written, ?_, hresult, by rw [haccepted, hframe]⟩
  rw [Client.send, hformat, ← hloop]
  rfl

/-- The message with the nickname. -/
def credentials (username : CStr) : C2HMessage := ⟨.nick, username, CStr.empty⟩

theorem create_credentials {username : CStr} (hfit : username.bytes.length < kBufferSize) :
    C2HMessage.create .nick (ascii "%s") [username] = .ok (credentials username) := by
  rw [App.create_one hfit]
  exact ofBuffer_untagged (if_neg (by decide))

section LogIn

variable {this : C2HatClient}

/-- **`Client_connect` takes the first frame of its read for the welcome.** -/
theorem awaitWelcome_frames (hsocket : socketIsValid this.server = true)
    (hready : Ready this.buffer) (r : FramedRead) (k : ℕ) (later : List ConnectReport)
    (reads : List ReadResult) :
    ∃ this' : C2HatClient, Ready this'.buffer ∧ this'.written = this.written ∧
      this.awaitWelcome true (r.result :: reads)
          (List.replicate k (.ready false) ++ .ready true :: later) =
        .ok (some ⟨decide (r.message.type = .ok), this', reads⟩) := by
  induction k with
  | zero =>
    obtain ⟨b, hb, hresponse⟩ := response_frames hready r reads
    rw [List.replicate_zero, List.nil_append, C2HatClient.awaitWelcome, if_pos hsocket, hresponse]
    simp only [Blocking.andThen, Except.bind]
    by_cases htype : r.message.type = .ok
    · rw [if_neg (not_not.mpr htype), decide_eq_true htype]
      refine ⟨_, ?_, ?_, rfl⟩
      · split_ifs <;> exact hb
      · split_ifs <;> rfl
    · rw [if_pos htype, decide_eq_false htype]
      refine ⟨_, ?_, ?_, rfl⟩
      · exact hb
      · rfl
  | succ k ih =>
    rw [List.replicate_succ, List.cons_append, C2HatClient.awaitWelcome, if_pos hsocket]
    exact ih

/-- **`Client_authenticate` takes the first frames of its reads** for the prompt and for the reply
to the nickname. -/
theorem authenticate_frames {username : CStr} {results : ℕ → ℤ} {rounds : ℕ}
    (hready : Ready this.buffer) (hname : 2 ≤ username.bytes.length)
    (hfit : username.bytes.length < kBufferSize)
    (hsends : Sendable (credentials username) results rounds) (r₁ r₂ : FramedRead)
    (reads : List ReadResult) :
    ∃ r, this.authenticate username results rounds (r₁.result :: r₂.result :: reads) =
        .ok (some r) ∧
      (r.result = true ↔ r₁.message.type = .nick ∧ r₂.message.type = .ok) ∧
      (r.result = true → r.reads = reads ∧ Ready r.this.buffer ∧
        r.this.written = this.written ++ Server.frame (credentials username)) ∧
      (r₁.message.type = .nick → r₂.message.type = .err →
        r.this.out.getLast? = some (.rejected r₂.message.content)) := by
  obtain ⟨b, hb, hprompt⟩ := response_frames hready r₁ (r₂.result :: reads)
  rw [C2HatClient.authenticate, if_neg (Nat.not_lt.mpr hname), hprompt]
  simp only [Blocking.andThen, Except.bind]
  by_cases hnick : r₁.message.type = .nick
  · obtain ⟨out, hsend, hresult, haccepted⟩ := hsends.send
    have hsent : ¬ out.result < 0 := by omega
    rw [if_neg (not_not.mpr hnick), C2HatClient.sendNickname, create_credentials hfit]
    simp only [Except.bind, Blocking.andThen, hsend, if_neg hsent]
    have hready' : Ready
        ({ this with buffer := b, written := this.written ++ out.accepted } : C2HatClient).buffer :=
      hb
    obtain ⟨b', hb', hreply⟩ := response_frames hready' r₂ reads
    rw [hreply]
    dsimp only
    by_cases hok : r₂.message.type = .ok
    · rw [if_neg (not_not.mpr hok)]
      refine ⟨_, rfl, iff_of_true rfl ⟨hnick, hok⟩, fun _ => ⟨rfl, hb', ?_⟩, fun _ herr => ?_⟩
      · exact congrArg _ haccepted
      · rw [hok] at herr
        cases herr
    · rw [if_pos hok]
      refine ⟨_, rfl, iff_of_false Bool.false_ne_true fun h => hok h.2, fun h => ?_,
        fun _ herr => ?_⟩
      · cases h
      · rw [if_pos herr]
        exact List.getLast?_concat
  · rw [if_pos hnick]
    refine ⟨_, rfl, iff_of_false Bool.false_ne_true fun h => hnick h.1, fun h => ?_, fun h => ?_⟩
    · cases h
    · exact absurd h hnick

/-- **The client logs in exactly when the first frames of its three reads** are an `/ok`, a `/nick`
and an `/ok`.  Then it has sent its nickname, and is ready to read the chat; and when the reply is
an error, its text is shown. -/
theorem logIn_of_frames {username : CStr} {results : ℕ → ℤ} {rounds : ℕ}
    (hsocket : socketIsValid this.server = true) (hready : Ready this.buffer)
    (hname : 2 ≤ username.bytes.length) (hfit : username.bytes.length < kBufferSize)
    (hsends : Sendable (credentials username) results rounds) (r₁ r₂ r₃ : FramedRead) (k : ℕ)
    (later : List ConnectReport) (reads : List ReadResult) :
    ∃ r, this.logIn true (List.replicate k (.ready false) ++ .ready true :: later) username
        results rounds (r₁.result :: r₂.result :: r₃.result :: reads) = .ok (some r) ∧
      (r.result = true ↔
        r₁.message.type = .ok ∧ r₂.message.type = .nick ∧ r₃.message.type = .ok) ∧
      (r.result = true → r.reads = reads ∧ Ready r.this.buffer ∧
        r.this.written = this.written ++ Server.frame (credentials username)) ∧
      (r₁.message.type = .ok → r₂.message.type = .nick → r₃.message.type = .err →
        r.this.out.getLast? = some (.rejected r₃.message.content)) := by
  obtain ⟨this', hready', hwritten, hwelcome⟩ :=
    awaitWelcome_frames hsocket hready r₁ k later (r₂.result :: r₃.result :: reads)
  rw [C2HatClient.logIn, hwelcome]
  simp only [Blocking.andThen, Except.bind, decide_eq_true_eq]
  by_cases hok : r₁.message.type = .ok
  · obtain ⟨r, hr, hiff, hdone, hrejected⟩ :=
      authenticate_frames hready' hname hfit hsends r₂ r₃ reads
    rw [if_pos hok]
    exact ⟨r, hr, by rw [hiff, and_iff_right hok], hwritten ▸ hdone, fun _ => hrejected⟩
  · rw [if_neg hok]
    refine ⟨_, rfl, ?_, fun h => ?_, fun h => ?_⟩
    · exact iff_of_false (fun h => hok (of_decide_eq_true h)) fun h => hok h.1
    · exact absurd (of_decide_eq_true h) hok
    · exact absurd h hok

end LogIn

end C2Hat
