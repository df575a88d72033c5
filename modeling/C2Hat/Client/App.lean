import C2Hat.Lib.Run
import C2Hat.Message

/-!
# The two threads of the client

`src/client/app.c` and the input loop of `src/client/ui.c`: the main thread, which starts the
listening thread and then reads keys, the listening thread, which puts what the server sends
into the queue, and the signals between them.  Every test or change of something that both
threads or a signal handler see is a step, and so is every call that may block.

What a key does to the windows is left out, but for the size of the screen.  `CQueue_push` and
`CQueue_tryPop` hold the mutex of the queue and are one step each.

A signal for the main thread is pending until it is delivered, and a second one of the same
kind is lost in the first.  Each message in the queue remembers what has become of the
`SIGUSR2` that was sent for it.

## Main definitions

* `Client.State`, `Client.step` — the two threads, and what happens next.
* `Client.UIScreen.isBigEnough` — the size the chat window needs.
-/

namespace C2Hat

namespace Client

/-! ### The screen -/

/-- `kMinTerminalLines`, `kMinTerminalCols`, `kWideTerminalCols`. -/
def kMinTerminalLines : ℤ := 22
def kMinTerminalCols : ℤ := 80
def kWideTerminalCols : ℤ := 94

/-- `kMaxMessageLength`: the length of a message in characters, with the terminator. -/
def kMaxMessageLength : ℤ := 281

/-- A `UIScreen`. -/
structure UIScreen where
  /-- There is a window. -/
  handle : Bool
  lines : ℤ
  cols : ℤ
  deriving DecidableEq

/-- `UIGetInputLines(screen)`. -/
def UIScreen.inputLines (screen : UIScreen) : ℤ := if screen.cols < kWideTerminalCols then 4 else 3

/-- `UIScreen_isBigEnough(screen, kMaxMessageLength)`. -/
def UIScreen.isBigEnough (screen : UIScreen) : Bool :=
  screen.handle && decide (screen.lines > kMinTerminalLines) &&
    decide (screen.cols > kMinTerminalCols) &&
    decide ((screen.cols - 1) * screen.inputLines ≥ kMaxMessageLength)

/-! ### The messages -/

/-- What has become of the `SIGUSR2` for a message. -/
inductive Stage
  /-- It has not been sent yet. -/
  | pushed
  /-- It has been sent. -/
  | announced
  /-- It has been delivered. -/
  | notified
  deriving DecidableEq

/-- A message in the queue. -/
structure Entry where
  message : C2HMessage
  stage : Stage
  deriving DecidableEq

/-- A `SIGUSR2` is sent. -/
def Entry.announce (e : Entry) : Entry :=
  if e.stage = .pushed then { e with stage := .announced } else e

/-- The `SIGUSR2` that is pending is delivered. -/
def Entry.notify (e : Entry) : Entry :=
  if e.stage = .announced then { e with stage := .notified } else e

/-! ### The threads -/

/-- The keys the input loop tells apart here. -/
inductive Key
  /-- `KEY_F(1)`. -/
  | f1
  /-- `KEY_RESIZE`. -/
  | resize
  /-- `kKeyEnter` and `kKeyEOT`. -/
  | enter
  /-- All others, which edit the input or turn the pages of the chat window. -/
  | other
  deriving DecidableEq

/-- Where the main thread is: what it does next.  `eintr` is whether `errno` is `EINTR`. -/
inductive MainPlace
  /-- `App_start`: in front of `pthread_create`, and behind it. -/
  | starting
  | created
  /-- `App_run`: the test of `terminate`, and what is done with a line that was entered. -/
  | runLoop
  | committed
  /-- `UIInputLoop`: the test of `terminate`, and the call of `wget_wch`. -/
  | inputLoop
  | entering
  /-- Blocked in `wget_wch`. -/
  | reading
  /-- `wget_wch` has returned `ERR`: the test of `terminate`. -/
  | failed (eintr : Bool)
  | testUpdate (eintr : Bool)
  | clearUpdate
  | testScreen
  /-- `App_updateHandler`. -/
  | updating
  | testResize (eintr : Bool)
  | clearResize
  | testErrno (eintr : Bool)
  /-- A key is looked at. -/
  | handling (key : Key)
  /-- Behind the loop of `App_run`. -/
  | leaving
  deriving DecidableEq

/-- Where the listening thread is. -/
inductive ListenerPlace
  | notCreated
  /-- `App_listen`: the test of `terminate`, the test of the socket, and `select`. -/
  | testTerminate
  | testSocket
  | selecting
  /-- `Client_receive`. -/
  | receiving
  /-- The messages that are still to be pushed. -/
  | pushing (messages : List C2HMessage)
  /-- `pthread_kill(mainThreadID, SIGUSR2)`. -/
  | killUpdate
  | sleeping
  /-- Behind the loop: the socket is closed. -/
  | closing
  /-- `pthread_kill(mainThreadID, SIGTERM)`. -/
  | killTerm
  | exited
  deriving DecidableEq

/-- The client. -/
structure State where
  main : MainPlace
  listener : ListenerPlace
  /-- The identifier of the main thread has been stored in `mainThreadID`, which is `0` before. -/
  mainThreadID : Bool
  /-- The `terminate` of `app.c`, and the one of `ui.c`. -/
  appTerminate : Bool
  uiTerminate : Bool
  update : Bool
  resize : Bool
  screen : UIScreen
  queue : List Entry
  /-- The signals for the main thread that have not been delivered. -/
  pendingUsr2 : Bool
  pendingTerm : Bool
  /-- A signal has been sent to no thread. -/
  crashed : Bool
  deriving DecidableEq

/-- `App_start` behind `UIInit()`, on a screen of some size. -/
def init (lines cols : ℤ) : State where
  main := .starting
  listener := .notCreated
  mainThreadID := false
  appTerminate := false
  uiTerminate := false
  update := false
  resize := false
  screen := ⟨true, lines, cols⟩
  queue := []
  pendingUsr2 := false
  pendingTerm := false
  crashed := false

/-- What comes of a line that was entered: there is nothing to send, it is no message, it is
`/quit`, it is sent, or it cannot be sent. -/
inductive Sent
  | empty
  | invalid
  | quit
  | sent
  | failed
  deriving DecidableEq

/-- What the main thread goes on with. -/
inductive MainInput
  | go
  /-- `pthread_create` succeeds or not. -/
  | create (ok : Bool)
  /-- `wget_wch` returns a key, or fails without a signal. -/
  | key (key : Key)
  | error
  /-- What `getmaxyx` says of the screen. -/
  | size (lines cols : ℤ)
  /-- What `UIInputWin_commit` returns. -/
  | commit (charRead : ℕ)
  | sent (outcome : Sent)
  deriving DecidableEq

/-- What the listening thread goes on with. -/
inductive ListenerInput
  | go
  /-- What `SOCKET_isValid` says. -/
  | socket (valid : Bool)
  /-- `select` is interrupted by a signal, fails, or returns with the socket in the set or
  not. -/
  | interrupted
  | error
  | ready (isSet : Bool)
  /-- `Client_receive` has received nothing, or some messages. -/
  | received (messages : Option (List C2HMessage))
  deriving DecidableEq

/-- The signals that are caught; `SIGINT` is treated as `SIGTERM`. -/
inductive Signal
  | term
  | usr2
  | winch
  deriving DecidableEq

/-- What happens next. -/
inductive Action
  | main (input : MainInput)
  | listener (input : ListenerInput)
  /-- A signal that is pending is delivered to the main thread. -/
  | deliver (signal : Signal)
  /-- A signal from outside is handled by one of the threads. -/
  | outside (signal : Signal) (onMain : Bool)
  deriving DecidableEq

/-! ### Steps -/

/-- `App_handleSignal(signal)`. -/
def handleSignal (s : State) : Signal → State
  | .term => { s with appTerminate := true, uiTerminate := true }
  | .usr2 => { s with update := true }
  | .winch => { s with resize := true }

/-- A signal handled by the main thread makes `wget_wch` fail. -/
def interruptRead (s : State) : State :=
  if s.main = .reading then { s with main := .failed true } else s

/-- `pthread_kill(mainThreadID, …)`. -/
def pthreadKill (s : State) (sent : State) : State :=
  if s.mainThreadID = true then sent else { s with crashed := true }

/-- The `terminate` of `UIInputLoop` is tested: when it is set the function returns
`kUITerminate`, and `App_run` sets its own one. -/
def testTerminate (s : State) (next : MainPlace) : State :=
  { s with
    main := if s.uiTerminate then .leaving else next
    appTerminate := s.appTerminate || s.uiTerminate }

/-- The main thread goes on. -/
def mainStep (s : State) (input : MainInput) : Option State :=
  match s.main, input with
  | .starting, .create true => some { s with main := .created, listener := .testTerminate }
  | .starting, .create false => some { s with main := .leaving }
  | .created, .go => some { s with mainThreadID := true, main := .runLoop }
  | .runLoop, .go => some { s with main := if s.appTerminate then .leaving else .inputLoop }
  | .inputLoop, .go => some (testTerminate s .entering)
  | .entering, .go => some { s with main := .reading }
  | .reading, .key key => some { s with main := .handling key }
  | .reading, .error => some { s with main := .failed false }
  | .failed eintr, .go => some (testTerminate s (.testUpdate eintr))
  | .testUpdate eintr, .go =>
    some { s with main := if s.update then .clearUpdate else .testResize eintr }
  | .clearUpdate, .go => some { s with update := false, main := .testScreen }
  | .testScreen, .go =>
    some { s with main := if s.screen.isBigEnough then .updating else .inputLoop }
  | .updating, .go =>
    match s.queue with
    | [] => some { s with main := .inputLoop }
    | e :: queue =>
      -- a `/quit` from the server ends the session
      some { s with queue := queue, pendingTerm := s.pendingTerm || e.message.type == .quit }
  | .testResize eintr, .go =>
    some { s with main := if s.resize then .clearResize else .testErrno eintr }
  | .clearResize, .go => some { s with resize := false, main := .handling .resize }
  | .testErrno eintr, .go => some { s with main := if eintr then .inputLoop else .leaving }
  | .handling .f1, .go => some { s with appTerminate := true, main := .leaving }
  | .handling .resize, .size lines cols =>
    some { s with screen := { s.screen with lines := lines, cols := cols }, main := .inputLoop }
  | .handling .enter, .commit charRead =>
    some { s with main := if charRead = 0 then .inputLoop else .committed }
  | .handling .other, .go => some { s with main := .inputLoop }
  | .committed, .sent outcome =>
    some { s with main := if outcome = .quit ∨ outcome = .failed then .leaving else .runLoop }
  | _, _ => none

/-- The listening thread goes on. -/
def listenerStep (s : State) (input : ListenerInput) : Option State :=
  match s.listener, input with
  | .testTerminate, .go =>
    some { s with listener := if s.appTerminate then .closing else .testSocket }
  | .testSocket, .socket valid =>
    some { s with listener := if valid then .selecting else .closing }
  | .selecting, .interrupted => some { s with listener := .testTerminate }
  | .selecting, .error => some { s with appTerminate := true, listener := .closing }
  | .selecting, .ready isSet =>
    some { s with listener := if isSet then .receiving else .sleeping }
  | .receiving, .received none => some { s with appTerminate := true, listener := .closing }
  | .receiving, .received (some messages) => some { s with listener := .pushing messages }
  | .pushing [], .go => some { s with listener := .killUpdate }
  | .pushing (m :: messages), .go =>
    some { s with queue := s.queue ++ [⟨m, .pushed⟩], listener := .pushing messages }
  | .killUpdate, .go =>
    some (pthreadKill s
      { s with queue := s.queue.map Entry.announce, pendingUsr2 := true, listener := .sleeping })
  | .sleeping, .go => some { s with listener := .testTerminate }
  | .closing, .go => some { s with listener := .killTerm }
  | .killTerm, .go => some (pthreadKill s { s with pendingTerm := true, listener := .exited })
  | _, _ => none

/-- **What happens next.** -/
def step (s : State) (a : Action) : Option State :=
  if s.crashed = true then none
  else match a with
    | .main input => mainStep s input
    | .listener input => listenerStep s input
    | .deliver .usr2 =>
      if s.pendingUsr2 = true then
        some (interruptRead (handleSignal
          { s with pendingUsr2 := false, queue := s.queue.map Entry.notify } .usr2))
      else none
    | .deliver .term =>
      if s.pendingTerm = true then
        some (interruptRead (handleSignal { s with pendingTerm := false } .term))
      else none
    | .deliver .winch => none
    | .outside signal onMain =>
      let s' := handleSignal s signal
      some (if onMain then interruptRead s' else s')

/-! ### What the handlers leave alone -/

section Frame

variable {s : State} {signal : Signal}

@[simp] theorem main_handleSignal : (handleSignal s signal).main = s.main := by
  cases signal <;> rfl

@[simp] theorem listener_handleSignal : (handleSignal s signal).listener = s.listener := by
  cases signal <;> rfl

@[simp] theorem mainThreadID_handleSignal :
    (handleSignal s signal).mainThreadID = s.mainThreadID := by
  cases signal <;> rfl

@[simp] theorem screen_handleSignal : (handleSignal s signal).screen = s.screen := by
  cases signal <;> rfl

@[simp] theorem queue_handleSignal : (handleSignal s signal).queue = s.queue := by
  cases signal <;> rfl

@[simp] theorem crashed_handleSignal : (handleSignal s signal).crashed = s.crashed := by
  cases signal <;> rfl

/-- A read that is interrupted changes where the main thread is, and nothing else. -/
theorem interruptRead_eq : interruptRead s =
    { s with main := if s.main = .reading then .failed true else s.main } := by
  unfold interruptRead
  split <;> rfl

@[simp] theorem listener_interruptRead : (interruptRead s).listener = s.listener := by
  rw [interruptRead_eq]

@[simp] theorem mainThreadID_interruptRead :
    (interruptRead s).mainThreadID = s.mainThreadID := by
  rw [interruptRead_eq]

@[simp] theorem crashed_interruptRead : (interruptRead s).crashed = s.crashed := by
  rw [interruptRead_eq]

@[simp] theorem queue_interruptRead : (interruptRead s).queue = s.queue := by
  rw [interruptRead_eq]

/-- What the main thread does to the listening thread and to the identifier. -/
theorem mainStep_listener {s' : State} {input : MainInput} (h : mainStep s input = some s') :
    (s'.listener = s.listener ∨ s'.listener = .testTerminate) ∧
      (s.mainThreadID = true → s'.mainThreadID = true) := by
  fun_cases mainStep s input
  all_goals simp only [mainStep, *, Option.some.injEq, reduceCtorEq] at h
  all_goals subst h
  all_goals simp [testTerminate]

/-- What the listening thread does to the identifier. -/
theorem listenerStep_stored {s' : State} {input : ListenerInput}
    (h : listenerStep s input = some s') : s'.mainThreadID = s.mainThreadID := by
  fun_cases listenerStep s input
  all_goals simp only [listenerStep, *, Option.some.injEq, reduceCtorEq] at h
  all_goals subst h
  all_goals simp [pthreadKill]
  all_goals split <;> rfl

/-- **The steps**: a thread goes on, or a signal is handled. -/
theorem step_cases {s' : State} {a : Action} (h : step s a = some s') :
    s.crashed = false ∧
    ((∃ input, a = .main input ∧ mainStep s input = some s') ∨
      (∃ input, a = .listener input ∧ listenerStep s input = some s') ∨
      (a = .deliver .usr2 ∧ s.pendingUsr2 = true ∧ s' = interruptRead (handleSignal
        { s with pendingUsr2 := false, queue := s.queue.map Entry.notify } .usr2)) ∨
      (a = .deliver .term ∧ s.pendingTerm = true ∧
        s' = interruptRead (handleSignal { s with pendingTerm := false } .term)) ∨
      (∃ signal onMain, a = .outside signal onMain ∧
        s' = if onMain then interruptRead (handleSignal s signal) else handleSignal s signal)) := by
  unfold step at h
  split at h
  · cases h
  next hcrashed =>
  refine ⟨by simpa using hcrashed, ?_⟩
  split at h
  case h_1 input => exact .inl ⟨input, rfl, h⟩
  case h_2 input => exact .inr (.inl ⟨input, rfl, h⟩)
  case h_3 =>
    split at h
    · next hpending => exact .inr (.inr (.inl ⟨rfl, hpending, (Option.some.inj h).symm⟩))
    · cases h
  case h_4 =>
    split at h
    · next hpending => exact .inr (.inr (.inr (.inl ⟨rfl, hpending, (Option.some.inj h).symm⟩)))
    · cases h
  case h_5 => cases h
  case h_6 signal onMain =>
    exact .inr (.inr (.inr (.inr ⟨signal, onMain, rfl, (Option.some.inj h).symm⟩)))

end Frame

end Client

end C2Hat
