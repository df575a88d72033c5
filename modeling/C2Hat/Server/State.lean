import C2Hat.Linked
import C2Hat.Queue
import C2Hat.Receive
import C2Hat.Relay

/-!
# The state of the server

The shared data of `src/server/server.c`: the list of clients, the message queue and
the termination flag, and for each thread the place in the program where it is.  The
threads are the acceptor (`Server_start`), the broadcaster
(`Server_handleBroadcast`) and one thread for each client (`Server_handleClient`).

A client is known by its handle, the address of its entry in the list; the handle is
also the key of the thread that serves it.  What a single step does to the shared
data is an `Effect`; the trace records what can be observed from the outside.

## Main definitions

* `Client`, `Pc`, `AcceptorPc`, `BroadcastPc`, `State` — the data.
* `Effect`, `State.apply` — the accesses to the shared data.
* `Event` — the trace.
-/

namespace C2Hat

open Clib

/-! ### Clients -/

/-- The connection behind an `SSL` pointer; the pointer itself is never changed. -/
inductive Ssl
  | open | freed
  deriving DecidableEq, Repr

/-- An entry of the list of clients. -/
structure Client where
  /-- The thread that serves the client, 0 when there is none (yet). -/
  threadID : BitVec 64
  /-- The nickname, empty before the authentication. -/
  nickname : CStr
  /-- The socket descriptor. -/
  socket : ℤ
  /-- The connection. -/
  ssl : Ssl
  /-- Data read from the connection. -/
  buffer : MessageBuffer
  deriving DecidableEq

/-- `sizeof(Client)`.  Sizes are only compared, so any number will do. -/
def sizeofClient : ℕ := 1

/-- `sizeof(C2HMessage)`. -/
def sizeofMessage : ℕ := 1

/-- `SOCKET_isValid(s)`. -/
def socketIsValid (socket : ℤ) : Bool := 0 ≤ socket

/-- `Client_findByThreadID(a, b, size)`: the difference of two `unsigned long`,
returned as an `int`. -/
def Client.findByThreadID (client : Client) (threadID : BitVec 64) : BitVec 32 :=
  (client.threadID - threadID).setWidth 32

/-- `Client_findByNickname(a, b, size)` compares equal. -/
def Client.findByNickname (client : Client) (nickname : CStr) : Bool :=
  strncmpEq client.nickname nickname kMaxNicknameSize

/-- The nickname that `snprintf(nickname, kMaxNicknameSize, "%s", nick)` stores. -/
def storedNickname (nick : CStr) : CStr := CStr.ofBlock (nick.bytes.take (kMaxNicknameSize - 1))

/-- The bytes `Server_send` passes to `SSL_write` for a message, in as many calls as
it takes. -/
def Server.frame (message : C2HMessage) : Bytes :=
  announced ((C2HMessage.format message CStr.empty kBufferSize).toOption.getD CStr.empty)

/-- A frame starts with the command of its type. -/
theorem Server.command_prefix_frame {message : C2HMessage} {command : Bytes}
    (hcommand : message.type.commandPrefix = some command) : command <+: Server.frame message := by
  have hlen : command.length ≤ kBufferSize - 1 := by
    cases htype : message.type <;> rw [htype] at hcommand <;> cases hcommand <;> decide
  obtain ⟨out, hout, hbytes⟩ := format_eq_take hcommand CStr.empty kBufferSize
  have hframe : Server.frame message = out.bytes ++ [0] := by
    rw [Server.frame, hout]
    rfl
  rw [hframe, hbytes, fullText, hcommand, Option.getD_some, commandText]
  refine List.IsPrefix.trans ?_ (List.prefix_append _ _)
  exact List.prefix_take_iff.mpr ⟨List.prefix_append _ _, hlen⟩

/-! ### Program places -/

/-- Where `Server_handleClient` calls `Server_dropClient`. -/
inductive Site
  | mismatch | welcome | auth | hello | leave
  deriving DecidableEq, Repr

/-- The messages a client's thread sends with `Server_sendMessage`; the content of
an acknowledged message is the text to be relayed next. -/
inductive Purpose
  | welcome | prompt | authTimeout | invalidNick | authFailed | hello
  | ack (content : CStr)
  | chatTimeout
  deriving DecidableEq

/-- The places in the program of a client's thread. -/
inductive Pc
  /-- The comparison of the thread identifiers. -/
  | start
  /-- In `Server_sendMessage`, before the message is formatted. -/
  | build (purpose : Purpose)
  /-- In the loop of `Server_send`, with the data still to be sent. -/
  | write (purpose : Purpose) (message : C2HMessage) (rest : Bytes)
  /-- In `Server_authenticate`: waiting for data, validating a nickname, the two
  lookups, and the update of the entry. -/
  | authWait
  | validate (nick : CStr)
  | lookupNick (nick : CStr)
  | lookupThread (nick : CStr)
  | storeNick (nick : CStr)
  /-- The announcement that the client has joined. -/
  | announceJoin
  /-- The chat loop: its condition, waiting for data, taking messages out of the
  buffer, and the relay of a message. -/
  | chat
  | chatWait
  | drain
  | relay (content : CStr)
  /-- The announcement that the client has left. -/
  | announceLeave
  /-- `Server_dropClient`: the test of the thread identifier, and the locked section. -/
  | drop (site : Site)
  | unlink (site : Site) (threadID : BitVec 64)
  /-- The thread has ended. -/
  | exited (site : Site)
  deriving DecidableEq

/-- A client's thread. -/
structure Thread where
  /-- `pthread_self()`. -/
  me : BitVec 64
  /-- Where it is. -/
  pc : Pc
  deriving DecidableEq

/-- A message taken from the queue, with its number. -/
structure Item where
  /-- How many messages were taken before. -/
  seq : ℕ
  /-- The message. -/
  message : C2HMessage
  deriving DecidableEq

/-- The places in the program of the broadcast thread. -/
inductive BroadcastPc
  | pop
  | rewind (item : Item)
  /-- The condition of the inner loop. -/
  | check (item : Item)
  /-- The locked `List_next`. -/
  | next (item : Item)
  /-- The two tests of a client, and the loop of `Server_send`. -/
  | testNick (item : Item) (client : Addr)
  | testSocket (item : Item) (client : Addr)
  | write (item : Item) (client : Addr) (rest : Bytes)
  /-- `Server_dropClient`, as in a client's thread. -/
  | drop (item : Item) (client : Addr)
  | unlink (client : Addr) (threadID : BitVec 64)
  /-- Behind the inner loop. -/
  | free (item : Item)
  | sleep
  | exited
  deriving DecidableEq

/-- The places in the program of the acceptor, from the creation of the broadcast
thread on. -/
inductive AcceptorPc
  | newList | newQueue
  /-- The condition of the loop, and waiting for a connection. -/
  | loop | wait
  /-- The test of the number of clients, for a new connection. -/
  | room (socket : ℤ)
  /-- The locked section: appending the entry, creating the thread, storing its
  identifier. -/
  | append (socket : ℤ)
  | spawn (handle : Addr)
  | store (handle : Addr) (threadID : BitVec 64)
  /-- Sending a refusal; the client is then dropped, which concerns nobody else. -/
  | refuse (rest : Bytes)
  /-- Shutting down. -/
  | joinClients | freeList | joinBroadcast | freeQueue | done
  deriving DecidableEq

/-! ### The state -/

/-- Who writes to a connection: the client's own thread, or the broadcast thread for
the item with a number. -/
inductive Writer
  | client
  | broadcast (seq : ℕ)
  deriving DecidableEq, Repr

/-- What is recorded of a step. -/
inductive Event
  /-- A message is pushed on the queue, or popped from it. -/
  | pushed (message : C2HMessage)
  | popped (message : C2HMessage)
  /-- A nickname is stored in the entry of a client. -/
  | stored (client : Addr)
  /-- `SSL_write` accepts some bytes of a message for a client; `last` is whether
  the message is complete. -/
  | wrote (client : Addr) (writer : Writer) (message : C2HMessage) (bytes : Bytes) (last : Bool)
  deriving DecidableEq

/-- The list of clients. -/
abbrev ClientList := Linked Client sizeofClient

/-- The state of the server. -/
structure State where
  /-- The limit of the configuration. -/
  maxConnections : ℕ
  /-- The termination flag. -/
  terminate : Bool
  /-- The list of clients and the message queue; `none` is `NULL`. -/
  clients : Option ClientList
  messages : Option (Fifo C2HMessage)
  /-- The threads. -/
  acceptor : AcceptorPc
  broadcast : BroadcastPc
  threads : Addr → Option Thread
  /-- Undefined behaviour has been reached; nothing is said about what follows. -/
  crashed : Bool
  /-- What has happened, in order. -/
  trace : List Event

/-- `Server_start` has just created the broadcast thread. -/
def State.init (maxConnections : ℕ) : State where
  maxConnections := maxConnections
  terminate := false
  clients := none
  messages := none
  acceptor := .newList
  broadcast := .pop
  threads := fun _ => none
  crashed := false
  trace := []

namespace State

/-- The entry behind a handle, when it has not been freed. -/
def entry (s : State) (h : Addr) : Option Client := s.clients.bind fun l => l.data h

/-- The handles of the registered clients, in the order of the list. -/
def registered (s : State) : List Addr := s.clients.elim [] fun l => l.ids

/-- The cursor of the list. -/
def cursor (s : State) : Option Addr := s.clients.bind fun l => l.list.current

/-- `clientsLock` is free: the acceptor is the only thread that holds it for more
than one step. -/
def lockFree (s : State) : Bool :=
  match s.acceptor with
  | .spawn _ | .store _ _ => false
  | _ => true

end State

/-! ### Effects -/

/-- What one step does to the data that threads share. -/
inductive Effect
  | none
  /-- Undefined behaviour. -/
  | fault
  | newList
  | freeList
  | newQueue
  | freeQueue
  /-- `List_append`. -/
  | append (client : Client)
  /-- `pthread_create`. -/
  | spawn (handle : Addr) (me : BitVec 64)
  /-- Writes to an entry. -/
  | setThreadID (handle : Addr) (threadID : BitVec 64)
  | setNickname (handle : Addr) (nickname : CStr)
  | setBuffer (handle : Addr) (buffer : MessageBuffer)
  | freeSsl (handle : Addr)
  /-- `List_rewind`, and `List_next` with the place of the cursor behind it. -/
  | rewind
  | advance (cursor : Option Addr)
  /-- The locked section of `Server_dropClient`: free the connection of a client,
  then `List_delete`. -/
  | remove (handle : Addr) (index : ℕ)
  /-- `CQueue_push`, and `CQueue_tryPop` with its result. -/
  | push (message : C2HMessage)
  | pop (message : C2HMessage) (rest : Option (Fifo C2HMessage))
  /-- `SSL_write`. -/
  | wrote (client : Addr) (writer : Writer) (message : C2HMessage) (bytes : Bytes) (last : Bool)

namespace State

/-- Write to an entry of the list. -/
def modifyClient (s : State) (h : Addr) (f : Client → Client) : State :=
  { s with clients := s.clients.map fun l => l.modify h f }

/-- Add to the trace. -/
def record (s : State) (e : Event) : State := { s with trace := s.trace ++ [e] }

/-- The state after an effect. -/
def apply (s : State) : Effect → State
  | .none => s
  | .fault => { s with crashed := true }
  | .newList => { s with clients := some .new }
  | .freeList => { s with clients := none }
  | .newQueue => { s with messages := some .new }
  | .freeQueue => { s with messages := none }
  | .append client => { s with clients := s.clients.map fun l => l.append client }
  | .spawn h me => { s with threads := Function.update s.threads h (some ⟨me, .start⟩) }
  | .setThreadID h t => s.modifyClient h fun c => { c with threadID := t }
  | .setNickname h n => (s.modifyClient h fun c => { c with nickname := n }).record (.stored h)
  | .setBuffer h b => s.modifyClient h fun c => { c with buffer := b }
  | .freeSsl h => s.modifyClient h fun c => { c with ssl := .freed }
  | .rewind => { s with clients := s.clients.map fun l => l.rewind }
  | .advance c => { s with clients := s.clients.map fun l => l.setCurrent c }
  | .remove h i => { s with clients := s.clients.map fun l =>
      (l.modify h fun c => { c with ssl := .freed }).delete i }
  | .push m =>
    let r := CQueue.push s.messages m sizeofMessage
    if r.1 then { s with messages := r.2 }.record (.pushed m) else { s with messages := r.2 }
  | .pop m rest => { s with messages := rest }.record (.popped m)
  | .wrote h who m bytes last => s.record (.wrote h who m bytes last)

end State

end C2Hat
