import C2Hat.Lib.Run
import C2Hat.Server.State

/-!
# The threads of the server

The programs of the three kinds of thread, one atomic step at a time: a step is a
locked section, or a single access to shared data outside of one.  Each program is a
function from the place where a thread is, and a choice, to the effect of its next
step and the place behind it.  The choices are what the server does not determine:
the outcomes of `select`, `accept`, `SSL_read`, `SSL_write`, `regexec` and
`pthread_create`, and the text that results from a format with undefined behaviour.

The function `step` interleaves the threads, and lets a signal set the termination
flag at any time.

## Main definitions

* `ClientThread.next` — `Server_handleClient`, with `Server_authenticate`,
  `Server_send` and `Server_dropClient`.
* `Broadcast.next` — `Server_handleBroadcast`.
* `Acceptor.next` — `Server_start`.
* `step` — the server.
-/

namespace C2Hat

open Clib

/-! ### Messages -/

/-- `kErrorMessageInvalidUsername`. -/
def kErrorMessageInvalidUsername : Bytes :=
  ascii "Nicknames must start with a letter and contain 2-15 latin characters and !@#$%&"

/-- The type of a message that a client's thread sends. -/
def Purpose.type : Purpose → C2HMessageType
  | .welcome | .hello | .ack _ => .ok
  | .prompt => .nick
  | .authTimeout | .invalidNick | .authFailed | .chatTimeout => .err

/-- The message that a client's thread sends. -/
def Purpose.message (nickname : CStr) : Purpose → Except Fault C2HMessage
  | .welcome => Server.sendMessage .ok (ascii "Welcome to C2hat!") []
  | .prompt => Server.sendMessage .nick (ascii "Please enter a nickname:") []
  | .authTimeout => Server.sendMessage .err (ascii "Authentication timeout expired!") []
  | .invalidNick => Server.sendMessage .err kErrorMessageInvalidUsername []
  | .authFailed => Server.sendMessage .err (ascii "Authentication failed") []
  | .hello => Server.hello nickname
  | .ack _ => Server.sendMessage .ok [] []
  | .chatTimeout =>
    Server.sendMessage .err (ascii "Connection timed out, you've been disconnected!") []

/-- The messages that formatting may yield: the one that the standard defines, or any
of the type when it defines none. -/
def formatted (type : C2HMessageType) (message : C2HMessage) : Except Fault C2HMessage → Bool
  | .ok m => message == m
  | .error _ => message.type == type

/-! ### Choices -/

/-- What `Regex_match` reports. -/
inductive RegexResult
  | noMatch | matched | failed
  deriving DecidableEq, Repr

/-- The results `Regex_match` may report for a nickname. -/
def RegexResult.agrees (nick : CStr) : RegexResult → Bool
  | .noMatch => !matchesNicknamePattern nick
  | .matched => matchesNicknamePattern nick
  | .failed => true

/-- `Client_nicknameIsValid(username)`: a failure of the library counts as a match. -/
def Client.nicknameIsValid : RegexResult → Bool
  | .noMatch => false
  | .matched | .failed => true

/-- The choices in a client's thread. -/
inductive ClientAction
  | go
  /-- The message that formatting yields. -/
  | message (m : C2HMessage)
  /-- The result of `SSL_write`. -/
  | wrote (sent : ℕ)
  | writeFailed
  /-- The result of `select`, and what `SSL_read` returns. -/
  | selectFailed
  | timeout
  | ready (readable errored : Bool) (reads : List ReadResult)
  /-- The result of `Regex_match`. -/
  | regex (result : RegexResult)
  deriving DecidableEq

/-- The choices in the broadcast thread. -/
inductive BroadcastAction
  | go
  | wrote (sent : ℕ)
  | writeFailed
  deriving DecidableEq

/-- The choices in the acceptor. -/
inductive AcceptorAction
  | go
  /-- No connection: `select`, `accept` or `SSL_accept` failed. -/
  | nothing
  /-- A connection with its socket. -/
  | connection (socket : ℤ)
  /-- The identifier of the new thread, `none` when `pthread_create` fails. -/
  | created (threadID : Option (BitVec 64))
  | wrote (sent : ℕ)
  | writeFailed
  deriving DecidableEq

/-- Follow a client handle. -/
def State.withClient {P : Type} (s : State) (h : Addr) (pc : P)
    (k : Client → Option (Effect × P)) : Option (Effect × P) :=
  match s.entry h with
  | none => some (.fault, pc)
  | some c => k c

/-- A locked section that uses the list of clients. -/
def State.locked {P : Type} (s : State) (pc : P) (k : ClientList → Option (Effect × P)) :
    Option (Effect × P) :=
  if s.lockFree then
    match s.clients with
    | none => some (.fault, pc)
    | some l => k l
  else none

/-! ### The client threads -/

namespace ClientThread

/-- Where a thread goes on when `Server_sendMessage` returns. -/
def afterSend (success : Bool) : Purpose → Pc
  | .welcome => if success then .build .prompt else .drop .welcome
  | .prompt => if success then .authWait else .build .authFailed
  | .authTimeout | .invalidNick => .build .authFailed
  | .authFailed => .drop .auth
  | .hello => if success then .announceJoin else .drop .hello
  -- without an acknowledgement the message is dropped and the next one is taken
  | .ack content => if success then .relay content else .drain
  | .chatTimeout => .announceLeave

/-- Where a thread goes on when `Server_dropClient` returns, which it does only for
a client without a thread identifier. -/
def afterDrop : Site → Pc
  | .mismatch => .build .welcome
  | .welcome => .build .prompt
  | .auth => .build .hello
  | .hello => .announceJoin
  | .leave => .exited .leave

/-- The end of the body of the loop in `Server_authenticate`. -/
def authAgain (c : Client) (errored : Bool) : Pc :=
  if errored || !socketIsValid c.socket then .build .authFailed else .authWait

/-- The end of the body of the chat loop. -/
def chatAgain (c : Client) : Pc := if socketIsValid c.socket then .chat else .announceLeave

/-- One call of `SSL_write` in the loop of `Server_send`. -/
def send (c : Client) (h : Addr) (purpose : Purpose) (message : C2HMessage) (rest : Bytes)
    (a : ClientAction) : Option (Effect × Pc) :=
  if socketIsValid c.socket = false then
    if a = .go then some (.none, afterSend false purpose) else none
  else if c.ssl = .freed then some (.fault, .write purpose message rest)
  else
    match a with
    | .wrote sent =>
      if sent < rest.length then
        some (.wrote h .client message (rest.take sent) false,
          .write purpose message (rest.drop sent))
      else if sent = rest.length then
        some (.wrote h .client message rest true, afterSend true purpose)
      else none
    | .writeFailed => some (.none, afterSend false purpose)
    | _ => none

/-- The part of `Server_authenticate` behind a successful `select`. -/
def authenticate (c : Client) (h : Addr) (readable errored : Bool) (reads : List ReadResult) :
    Option (Effect × Pc) :=
  if readable then
    match Server.receive c.buffer reads with
    | .error _ => some (.fault, .authWait)
    | .ok none => none
    | .ok (some (received, buffer, _)) =>
      if 0 < received then
        match C2HMessage.get buffer with
        | .error _ => some (.fault, .authWait)
        | .ok (none, buffer) => some (.setBuffer h buffer, .build .authFailed)
        | .ok (some message, buffer) =>
          if message.type = .nick then some (.setBuffer h buffer, .validate message.content)
          else some (.setBuffer h buffer, authAgain c errored)
      else if received = 0 then some (.setBuffer h buffer, .build .authFailed)
      else some (.setBuffer h buffer, authAgain c errored)
  else some (.none, authAgain c errored)

/-- The part of the chat loop behind a successful `select`. -/
def listen (c : Client) (h : Addr) (readable : Bool) (reads : List ReadResult) :
    Option (Effect × Pc) :=
  if readable then
    match Server.receive c.buffer reads with
    | .error _ => some (.fault, .chatWait)
    | .ok none => none
    | .ok (some (received, buffer, _)) =>
      if 0 < received then some (.setBuffer h buffer, .drain)
      else some (.setBuffer h buffer, .announceLeave)
  else some (.none, chatAgain c)

/-- One round of the loop that takes messages out of the buffer. -/
def takeMessage (c : Client) (h : Addr) : Option (Effect × Pc) :=
  match C2HMessage.get c.buffer with
  | .error _ => some (.fault, .drain)
  | .ok (none, buffer) => some (.setBuffer h buffer, chatAgain c)
  | .ok (some message, buffer) =>
    if message.type = .quit then some (.setBuffer h buffer, .announceLeave)
    else if message.type = .msg ∧ message.content.bytes.length > 0 then
      some (.setBuffer h buffer, .build (.ack message.content))
    else some (.setBuffer h buffer, .drain)

/-- `Server_broadcastMessage`: format the message and push it. -/
def announce (type : C2HMessageType) (text : Except Fault C2HMessage) (a : ClientAction)
    (pc : Pc) : Option (Effect × Pc) :=
  match a with
  | .message m => if formatted type m text then some (.push m, pc) else none
  | _ => none

/-- The next step of the thread of client `h`. -/
def next (s : State) (h : Addr) (t : Thread) (a : ClientAction) : Option (Effect × Pc) :=
  match t.pc, a with
  | .start, .go => s.withClient h t.pc fun c =>
      some (.none, if t.me ≠ c.threadID then .drop .mismatch else .build .welcome)
  | .build .hello, .message m => s.withClient h t.pc fun c =>
      if formatted .ok m (Purpose.message c.nickname .hello) then
        some (.none, .write .hello m (Server.frame m))
      else none
  | .build purpose, .message m =>
      if formatted purpose.type m (purpose.message CStr.empty) then
        some (.none, .write purpose m (Server.frame m))
      else none
  | .write purpose m rest, a => s.withClient h t.pc fun c => send c h purpose m rest a
  | .authWait, .selectFailed => some (.none, .authWait)
  | .authWait, .timeout => some (.none, .build .authTimeout)
  | .authWait, .ready readable errored reads => s.withClient h t.pc fun c =>
      authenticate c h readable errored reads
  | .validate nick, .regex result =>
      if result.agrees nick then
        some (.none, if Client.nicknameIsValid result then .lookupNick nick else .build .invalidNick)
      else none
  | .lookupNick nick, .go => s.locked t.pc fun l =>
      match l.search fun c => c.findByNickname nick with
      | none => some (.none, .lookupThread nick)
      | some _ => some (.none, .build .authFailed)
  | .lookupThread nick, .go => s.locked t.pc fun l =>
      match l.search fun c => c.findByThreadID t.me == 0 with
      | none => some (.none, .build .authFailed)
      | some i =>
        if l.ids[i]? = some h then some (.none, .storeNick nick)
        else some (.none, .build .authFailed)
  | .storeNick nick, .go => s.withClient h t.pc fun _ =>
      some (.setNickname h (storedNickname nick), .build .hello)
  | .announceJoin, a => s.withClient h t.pc fun c => announce .log (Server.joined c.nickname) a .chat
  | .chat, .go => some (.none, if s.terminate then .announceLeave else .chatWait)
  | .chatWait, .selectFailed => some (.none, .chat)
  | .chatWait, .timeout => some (.none, .build .chatTimeout)
  | .chatWait, .ready readable _ reads => s.withClient h t.pc fun c => listen c h readable reads
  | .drain, .go => s.withClient h t.pc fun c => takeMessage c h
  -- the message has been freed, which ends the loop over the buffer
  | .relay content, a => s.withClient h t.pc fun c =>
      announce .msg (Server.relay c.nickname content) a (chatAgain c)
  | .announceLeave, a => s.withClient h t.pc fun c =>
      announce .log (Server.left c.nickname) a (.drop .leave)
  | .drop site, .go => s.withClient h t.pc fun c =>
      if c.threadID = 0 then
        if c.ssl = .freed then some (.fault, t.pc) else some (.freeSsl h, afterDrop site)
      else some (.none, .unlink site c.threadID)
  | .unlink site threadID, .go => s.locked t.pc fun l =>
      match l.search fun c => c.findByThreadID threadID == 0 with
      | none => some (.none, .exited site)
      | some i => s.withClient h t.pc fun c =>
          if c.ssl = .freed then some (.fault, t.pc) else some (.remove h i, .exited site)
  | _, _ => none

end ClientThread

/-! ### The broadcast thread -/

namespace Broadcast

/-- One call of `SSL_write` in the loop of `Server_send`. -/
def send (c : Client) (h : Addr) (item : Item) (rest : Bytes) (a : BroadcastAction) :
    Option (Effect × BroadcastPc) :=
  if socketIsValid c.socket = false then
    if a = .go then some (.none, .drop item h) else none
  else if c.ssl = .freed then some (.fault, .write item h rest)
  else
    match a with
    | .wrote sent =>
      if sent < rest.length then
        some (.wrote h (.broadcast item.seq) item.message (rest.take sent) false,
          .write item h (rest.drop sent))
      else if sent = rest.length then
        some (.wrote h (.broadcast item.seq) item.message rest true, .check item)
      else none
    | .writeFailed => some (.none, .drop item h)
    | .go => none

/-- The number of messages that have been popped. -/
def popCount (trace : List Event) : ℕ :=
  trace.countP fun
    | .popped _ => true
    | _ => false

/-- The next step of the broadcast thread. -/
def next (s : State) (a : BroadcastAction) : Option (Effect × BroadcastPc) :=
  match s.broadcast, a with
  | .pop, .go =>
      match CQueue.tryPop s.messages with
      | .error _ => some (.fault, .pop)
      | .ok (none, _) => some (.none, .sleep)
      | .ok (some (m, _), rest) => some (.pop m rest, .rewind ⟨popCount s.trace, m⟩)
  | .rewind item, .go =>
      match s.clients with
      | none => some (.fault, .rewind item)
      | some _ => some (.rewind, .check item)
  | .check item, .go => some (.none, if s.terminate then .free item else .next item)
  | .next item, .go => s.locked s.broadcast fun l =>
      match l.next with
      | .error _ => some (.fault, .next item)
      | .ok (none, l) => some (.advance l.list.current, .free item)
      | .ok (some h, l) => some (.advance l.list.current, .testNick item h)
  | .testNick item h, .go => s.withClient h s.broadcast fun c =>
      some (.none, if c.nickname.bytes.length = 0 then .check item else .testSocket item h)
  | .testSocket item h, .go => s.withClient h s.broadcast fun c =>
      some (.none, if socketIsValid c.socket then .write item h (Server.frame item.message)
        else .check item)
  | .write item h rest, a => s.withClient h s.broadcast fun c => send c h item rest a
  | .drop item h, .go => s.withClient h s.broadcast fun c =>
      if c.threadID = 0 then
        if c.ssl = .freed then some (.fault, .drop item h) else some (.freeSsl h, .check item)
      else some (.none, .unlink h c.threadID)
  | .unlink h threadID, .go => s.locked s.broadcast fun l =>
      match l.search fun c => c.findByThreadID threadID == 0 with
      | none => some (.none, .exited)
      | some i => s.withClient h s.broadcast fun c =>
          if c.ssl = .freed then some (.fault, .unlink h threadID) else some (.remove h i, .exited)
  | .free _, .go => some (.none, .sleep)
  | .sleep, .go => some (.none, if s.terminate then .exited else .pop)
  | _, _ => none

end Broadcast

/-! ### The acceptor -/

namespace Acceptor

/-- The temporary client variable for a new connection. -/
def newClient (socket : ℤ) : Client := ⟨0, CStr.empty, socket, .open, .zeroed⟩

/-- The refusal of a connection. -/
def refusal : Except Fault C2HMessage :=
  Server.sendMessage .err (ascii "connection limits reached") []

/-- A thread identifier that no running thread has. -/
def unusedID (s : State) (l : ClientList) (threadID : BitVec 64) : Bool :=
  threadID != 0 && (List.range l.list.fresh).all fun h =>
    match s.threads h with
    | none => true
    | some t =>
      match t.pc with
      | .exited _ => true
      | _ => t.me != threadID

/-- The next step of the acceptor. -/
def next (s : State) (a : AcceptorAction) : Option (Effect × AcceptorPc) :=
  match s.acceptor, a with
  | .newList, .go => some (.newList, .newQueue)
  | .newQueue, .go => some (.newQueue, .loop)
  | .loop, .go => some (.none, if s.terminate then .joinClients else .wait)
  | .wait, .nothing => some (.none, .loop)
  | .wait, .connection socket =>
      if socketIsValid socket then some (.none, .room socket) else none
  -- the length is read without the lock
  | .room socket, .go =>
      match s.clients with
      | none => some (.fault, .room socket)
      | some l =>
        if l.list.length < s.maxConnections then some (.none, .append socket)
        else some (.none, .refuse
          (Server.frame (refusal.toOption.getD ⟨.err, CStr.empty, CStr.empty⟩)))
  | .append socket, .go =>
      match s.clients with
      | none => some (.fault, .append socket)
      | some l => some (.append (newClient socket), .spawn l.list.fresh)
  | .spawn h, .created none => some (.none, .store h 0)
  | .spawn h, .created (some t) =>
      match s.clients with
      | none => some (.fault, .spawn h)
      | some l => if unusedID s l t then some (.spawn h t, .store h t) else none
  | .store h t, .go =>
      match s.entry h with
      | none => some (.fault, .store h t)
      | some _ => some (.setThreadID h t, .loop)
  | .refuse rest, .wrote sent =>
      if sent < rest.length then some (.none, .refuse (rest.drop sent))
      else if sent = rest.length then some (.none, .loop)
      else none
  | .refuse _, .writeFailed => some (.none, .loop)
  -- the threads are detached, so that joining them does not wait
  | .joinClients, .go =>
      match s.clients with
      | none => some (.fault, .joinClients)
      | some l =>
        match l.next with
        | .error _ => some (.fault, .joinClients)
        | .ok (none, l) => some (.advance l.list.current, .freeList)
        | .ok (some _, l) => some (.advance l.list.current, .joinClients)
  | .freeList, .go =>
      match s.clients with
      | none => some (.fault, .freeList)
      | some _ => some (.freeList, .joinBroadcast)
  | .joinBroadcast, .go => if s.broadcast = .exited then some (.none, .freeQueue) else none
  | .freeQueue, .go =>
      match s.messages with
      | none => some (.fault, .freeQueue)
      | some _ => some (.freeQueue, .done)
  | _, _ => none

end Acceptor

/-! ### The server -/

/-- The thread that takes the next step, with its choice; or a signal. -/
inductive Action
  | stop
  | acceptor (a : AcceptorAction)
  | broadcast (a : BroadcastAction)
  | client (h : Addr) (a : ClientAction)
  deriving DecidableEq

/-- One step of the server. -/
def step (s : State) (a : Action) : Option State :=
  if s.crashed then none
  else
    match a with
    | .stop => some { s with terminate := true }
    | .acceptor a => (Acceptor.next s a).map fun r => { s.apply r.1 with acceptor := r.2 }
    | .broadcast a => (Broadcast.next s a).map fun r => { s.apply r.1 with broadcast := r.2 }
    | .client h a =>
      match s.threads h with
      | none => none
      | some t => (ClientThread.next s h t a).map fun r =>
          { s.apply r.1 with threads := Function.update s.threads h (some { t with pc := r.2 }) }

/-! ### Scripts

Stretches of runs, to be put together where a run is exhibited. -/

namespace Script

/-- The message that a format yields. -/
def text (r : Except Fault C2HMessage) : C2HMessage := r.toOption.getD default

/-- The creation of the list and of the queue. -/
def startUp : List Action := [.acceptor .go, .acceptor .go]

/-- A connection is accepted, and its thread has the given identifier. -/
def connect (threadID : BitVec 64) : List Action :=
  [.acceptor .go, .acceptor (.connection 7), .acceptor .go, .acceptor .go,
    .acceptor (.created (some threadID)), .acceptor .go]

/-- The thread of a client sends a message in one piece. -/
def send (h : Addr) (purpose : Purpose) (nick : CStr) : List Action :=
  [.client h (.message (text (purpose.message nick))),
    .client h (.wrote (Server.frame (text (purpose.message nick))).length)]

/-- A client is welcomed and asks for a nickname. -/
def enter (h : Addr) (nick : CStr) : List Action :=
  .client h .go :: send h .welcome nick ++ send h .prompt nick ++
    [.client h (.ready true false [.received (ascii "/nick " ++ nick.bytes ++ [0])]),
      .client h (.regex .matched)]

/-- The lookups and the update of the entry. -/
def authenticate (h : Addr) : List Action := [.client h .go, .client h .go, .client h .go]

/-- The reply to an accepted nickname, and its announcement. -/
def greet (h : Addr) (nick : CStr) : List Action :=
  send h .hello nick ++ [.client h (.message (text (Server.joined nick)))]

/-- All of this: a client joins. -/
def join (h : Addr) (nick : CStr) : List Action := enter h nick ++ authenticate h ++ greet h nick

/-- Joe (handle 0) and Ann (handle 1) have joined, and the queue holds the two
announcements. -/
def joeAndAnn : List Action :=
  startUp ++ connect 11 ++ connect 12 ++ join 0 (str "Joe") ++ join 1 (str "Ann")

/-- A client quits: its thread reads the request, announces it and removes the entry. -/
def quit (h : Addr) (nick : CStr) : List Action :=
  [.client h .go, .client h (.ready true false [.received (ascii "/quit" ++ [0])]), .client h .go,
    .client h (.message (text (Server.left nick))), .client h .go, .client h .go]

/-- The broadcast thread pops a message and rewinds the list. -/
def pop : List Action := [.broadcast .go, .broadcast .go]

/-- The broadcast thread fetches the next client, tests it and gets ready to send. -/
def fetch : List Action := [.broadcast .go, .broadcast .go, .broadcast .go, .broadcast .go]

/-- The broadcast thread fetches a client that has no nickname yet. -/
def skip : List Action := [.broadcast .go, .broadcast .go, .broadcast .go]

/-- The broadcast thread finds the end of the list. -/
def finish : List Action := [.broadcast .go, .broadcast .go]

/-- The broadcast thread sends the current message in one piece. -/
def deliver (message : C2HMessage) : List Action :=
  [.broadcast (.wrote (Server.frame message).length)]

end Script

end C2Hat
