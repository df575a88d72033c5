import C2Hat.Lib.Select
import C2Hat.Server.State

/-!
# Waiting with select

The chat loop of `Server_handleClient` and the loop of `Server_start`, as far as they call
`select`.  Both fill in the sets, and the former the timeout, in front of the loop, and give
`select` the same variables in every round.  What the rest of the body does with the
connection does not touch these variables; only what may leave the loop is kept of it.

Times are in microseconds, the unit of a `struct timeval`.

## Main definitions

* `Server.chatLoop`, `Server.startLoop` — the loops.
* `conversation` — the rounds of the chat loop for a client that sends with pauses.
* `KeepsAll`, `KeepsReads` — the returns that leave everything, or the read set, as it was.

## Main results

* `select_rearmed_iff` — **a loop calls `select` with what it has filled in exactly when no
  return has changed it, and a client may send for `kChatTimeout` in all.**
-/

namespace C2Hat

open Select

/-- `kChatTimeout`, in seconds. -/
def kChatTimeout : ℕ := 3 * 60

/-- The timeout of the chat loop. -/
def chatTimeout : ℕ := kChatTimeout * 1000000

/-- The variables in front of the chat loop. -/
def chatArgs : Args := ⟨true, true, some chatTimeout⟩

/-- The variables in front of the loop of `Server_start`, which has no timeout. -/
def startArgs : Args := ⟨true, true, none⟩

/-- How the chat loop ends. -/
inductive ChatEnd
  /-- `terminate` is set. -/
  | terminated
  /-- The timeout has expired: the client is told so. -/
  | timedOut
  /-- Nothing was received, the client has quit, or its socket is not valid. -/
  | left
  deriving DecidableEq

/-- What happens in the body of the chat loop behind a successful `select`. -/
structure ChatBody where
  /-- What `Server_receive` returns, when it is called. -/
  received : ℤ
  /-- A `/quit` is among the messages. -/
  quit : Bool
  /-- The socket of the client. -/
  socket : ℤ

/-- The body of the chat loop. -/
def chatVerdict (r : Round ChatBody) : Option ChatEnd :=
  match r.ret with
  | .failed _ => none
  | .timeout => some .timedOut
  | .ready readable _ _ =>
    if readable && (decide (r.body.received ≤ 0) || r.body.quit) then some .left
    else if !socketIsValid r.body.socket then some .left
    else none

/-- The chat loop of `Server_handleClient`. -/
def Server.chatLoop (rounds : List (Round ChatBody)) : List Args × Option ChatEnd :=
  loop chatVerdict .terminated chatArgs rounds

/-- The body of the loop of `Server_start`, which nothing leaves. -/
def startVerdict (_ : Round Unit) : Option Unit := none

/-- The loop of `Server_start`. -/
def Server.startLoop (rounds : List (Round Unit)) : List Args × Option Unit :=
  loop startVerdict () startArgs rounds

/-- A return that leaves the variables of the chat loop as they were: both sets and the whole
timeout. -/
def KeepsAll : Return → Prop
  | .failed left => left = chatTimeout
  | .timeout => False
  | .ready readable errored left => readable = true ∧ errored = true ∧ left = chatTimeout

/-- A return that leaves the socket in the read set. -/
def KeepsReads : Return → Prop
  | .failed _ => True
  | .timeout => False
  | .ready readable _ _ => readable = true

/-- A message other than `/quit`, over a socket that is valid. -/
structure Incoming where
  /-- How much is received. -/
  size : ℕ
  pos : 0 < size
  socket : ℤ
  valid : socketIsValid socket = true

/-- What happens in the body of the chat loop for a message. -/
def Incoming.body (m : Incoming) : ChatBody := ⟨m.size, false, m.socket⟩

/-- The rounds for a client that sends messages, each after a pause, while the server is not
terminated. -/
def conversation (sends : List (ℕ × Incoming)) : List (Round ChatBody) :=
  paced chatArgs (sends.map fun x => (x.1, x.2.body))

theorem after_chatArgs_iff (r : Return) : chatArgs.after r = chatArgs ↔ KeepsAll r := by
  cases r with
  | failed left => simp [Args.after, chatArgs, KeepsAll]
  | timeout => simp [Args.after, chatArgs, KeepsAll]
  | ready readable errored left => simp [Args.after, chatArgs, KeepsAll]

theorem reads_after_iff (a : Args) (r : Return) (ha : a.reads = true) :
    (a.after r).reads = true ↔ KeepsReads r := by
  cases r with
  | failed left => simp [Args.after, KeepsReads, ha]
  | timeout => simp [Args.after, KeepsReads]
  | ready readable errored left => simp [Args.after, KeepsReads]

/-- **A message does not end the chat loop.** -/
theorem chatVerdict_message (m : Incoming) (left : ℕ) :
    chatVerdict ⟨false, .ready true false left, m.body⟩ = none := by
  have hpos : ¬ (m.size : ℤ) ≤ 0 := by
    have := m.pos
    omega
  have hvalid : socketIsValid m.body.socket = true := m.valid
  have hreceived : decide (m.body.received ≤ 0) = false := decide_eq_false hpos
  have hquit : m.body.quit = false := rfl
  simp [chatVerdict, hreceived, hquit, hvalid]

/-- **The calls of `select` are made with what the one before has left behind.**  The calls of the
chat loop are all made with both sets and the full timeout exactly when every return that is
followed by another call has left them so; those of `Server_start` have the socket in the read set
exactly when these returns keep it there; and a client that sends messages with pauses is not
disconnected for being inactive exactly when the pauses together are shorter than the timeout. -/
theorem select_rearmed_iff (chat : List (Round ChatBody)) (start : List (Round Unit))
    (sends : List (ℕ × Incoming)) :
    ((∀ call ∈ (Server.chatLoop chat).1, call = chatArgs) ↔
      ∀ ret ∈ followed chatVerdict chat, KeepsAll ret) ∧
    ((∀ call ∈ (Server.startLoop start).1, call.reads = true) ↔
      ∀ ret ∈ followed startVerdict start, KeepsReads ret) ∧
    ((Server.chatLoop (conversation sends)).2 ≠ some .timedOut ↔
      (sends.map Prod.fst).sum < chatTimeout) := by
  refine ⟨?_, ?_, ?_⟩
  · refine all_calls_iff (P := fun call => call = chatArgs) ?_ rfl chat
    intro a r ha
    rw [ha]
    exact after_chatArgs_iff r
  · refine all_calls_iff (P := fun call => call.reads = true) ?_ rfl start
    intro a r ha
    exact reads_after_iff a r ha
  · have hsum : ((sends.map fun x => (x.1, x.2.body)).map Prod.fst) = sends.map Prod.fst := by
      simp
    have hloop : (Server.chatLoop (conversation sends)).2 =
        if ((sends.map fun x => (x.1, x.2.body)).map Prod.fst).sum < chatTimeout then none
        else some .timedOut := by
      refine loop_paced (by decide) ?_ fun _ => rfl
      intro x hx left
      obtain ⟨y, -, rfl⟩ := List.mem_map.mp hx
      exact chatVerdict_message y.2 left
    rw [hloop, hsum]
    split
    · next hlt => simp [hlt]
    · next hlt => simp [hlt]

theorem socketIsValid_seven : socketIsValid 7 = true := rfl

/-- A message of five bytes. -/
def hello : Incoming := ⟨5, by decide, 7, socketIsValid_seven⟩

/-- A client sends a message every 100 seconds: the second call of `select` has lost the error set
and a part of the timeout, and the client is disconnected for being inactive 180 seconds after it
has joined.  The listening socket has an error, and is not waited for any more. -/
theorem not_select_rearmed :
    (∀ x ∈ [(100000000, hello), (100000000, hello)], x.1 < chatTimeout) ∧
    Possible chatArgs ((conversation [(100000000, hello), (100000000, hello)]).map Round.ret) =
      true ∧
    Server.chatLoop (conversation [(100000000, hello), (100000000, hello)]) =
      ([chatArgs, ⟨true, false, some 80000000⟩], some .timedOut) ∧
    ¬ (∀ call ∈ (Server.chatLoop (conversation [(100000000, hello), (100000000, hello)])).1,
      call = chatArgs) ∧
    Possible startArgs [.ready false true 0] = true ∧
    ¬ ∀ call ∈ (Server.startLoop [⟨false, .ready false true 0, ()⟩, ⟨false, .failed 0, ()⟩]).1,
      call.reads = true := by
  refine ⟨?_, possible_paced rfl _, ?_, ?_, ?_, ?_⟩
  · decide +kernel
  · decide +kernel
  · decide +kernel
  · decide
  · decide

end C2Hat
