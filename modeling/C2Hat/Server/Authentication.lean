import C2Hat.Draining
import C2Hat.Server.Steps

/-!
# The first command

`Server_authenticate` of `src/server/server.c`, called by the thread of one client: its loop
over what `select` reports, with the body of `ClientThread.authenticate`, and what it returns.
The protocol says that the message behind the prompt must be the nickname, "or the server will
terminate the connection".  The loop ends for a `/nick` and for an unknown command, but any
other message is dropped and the next one is waited for.

## Main definitions

* `CommandFrame` — a frame of any command, known or not.
* `Newcomer` — a client that has been prompted, and what its thread will find.
* `Server.authenticate` — the call.
* `DecidedByFirst` — the documented rule, for the frames that the client sends.
* `FirstDecides` — the sequences for which it holds.

## Main results

* `authenticate_frame` — what the body of the loop does with a frame.
* `decidedByFirst_iff` — **the rule holds for exactly these sequences.**
-/

namespace C2Hat

open Clib

/-- A frame: a command with its content, and a NUL. -/
structure CommandFrame where
  /-- The text, without the NUL. -/
  text : CStr
  /-- It starts with a slash. -/
  slash : text.bytes.head? = some slash
  /-- The frame is not longer than the buffer it was written to. -/
  fits : text.bytes.length + 1 ≤ kBufferSize

/-- The bytes of a frame. -/
def CommandFrame.bytes (f : CommandFrame) : Bytes := f.text.bytes ++ [0]

/-- A client whose thread has sent the prompt, and what the thread will find. -/
structure Newcomer where
  /-- The handle of the client, and the identifier of its thread. -/
  handle : Addr
  me : BitVec 64
  /-- The socket, which the acceptor has tested. -/
  socket : ℤ
  valid : socketIsValid socket = true
  /-- What `Regex_match` reports for a nickname. -/
  regex : CStr → RegexResult
  agrees : ∀ nick, (regex nick).agrees nick = true
  /-- The list of clients at the time of the two lookups. -/
  nicknames : ClientList
  threads : ClientList

namespace Newcomer

variable (w : Newcomer)

/-- The entry of the client, with nothing read yet. -/
def client : Client := { Acceptor.newClient w.socket with threadID := w.me }

/-- `Server_getClientInfoForNickname(nick)` is not `NULL`. -/
def inUse (nick : CStr) : Bool := (w.nicknames.search fun c => c.findByNickname nick).isSome

/-- `Server_getClientInfoForThread(pthread_self())` is the entry of the client. -/
def findsItself : Bool :=
  match w.threads.search fun c => c.findByThreadID w.me == 0 with
  | none => false
  | some i => w.threads.ids[i]? = some w.handle

/-- What `Server_authenticate` returns for a `/nick`. -/
def admits (nick : CStr) : Bool :=
  Client.nicknameIsValid (w.regex nick) && (!w.inUse nick && w.findsItself)

end Newcomer

/-- The loop of `Server_authenticate`, for what `select` reports: the result, and the reports
that are left; `none` for undefined behaviour, or when the loop is still waiting. -/
def Server.authenticateLoop (w : Newcomer) :
    Client → List ClientAction → Option (Bool × List ClientAction)
  | _, [] => none
  | c, .selectFailed :: outcomes => Server.authenticateLoop w c outcomes
  | _, .timeout :: outcomes => some (false, outcomes)
  | c, .ready readable errored reads :: outcomes =>
    match ClientThread.authenticate c w.handle readable errored reads with
    | some (.setBuffer _ _, .validate nick) => some (w.admits nick, outcomes)
    | some (.setBuffer _ buffer, .authWait) =>
      Server.authenticateLoop w { c with buffer := buffer } outcomes
    | some (.none, .authWait) => Server.authenticateLoop w c outcomes
    | some (.setBuffer _ _, .build _) => some (false, outcomes)
    | some (.none, .build _) => some (false, outcomes)
    | _ => none
  | _, _ :: _ => none

/-- `Server_authenticate(client)`, from the prompt on. -/
def Server.authenticate (w : Newcomer) (outcomes : List ClientAction) :
    Option (Bool × List ClientAction) := Server.authenticateLoop w w.client outcomes

/-- What `select` and `SSL_read` report for a frame. -/
def arrival (f : CommandFrame) : ClientAction := .ready true false [.received f.bytes]

/-- What they report when no more frames come: the time is over, or the client has closed the
connection. -/
inductive Ending
  | timeout | closed

def Ending.outcome : Ending → ClientAction
  | .timeout => .timeout
  | .closed => .ready true false [.received []]

/-- The reports for frames that come one by one. -/
def reports (frames : List CommandFrame) (ending : Ending) : List ClientAction :=
  frames.map arrival ++ [ending.outcome]

/-! ### The rule -/

/-- The first frame is a `/nick` with a valid nickname that is not in use. -/
def AcceptedFirst (w : Newcomer) (frames : List CommandFrame) : Prop :=
  ∃ f rest m, frames = f :: rest ∧ C2HMessage.parse f.text = .ok (some m) ∧ m.type = .nick ∧
    matchesNicknamePattern m.content = true ∧ w.inUse m.content = false

/-- The rule: the result says whether the first frame is such a `/nick`, and the frames behind
it are not looked at. -/
def DecidedByFirst (w : Newcomer) (frames : List CommandFrame) (ending : Ending) : Prop :=
  ∃ result rest, Server.authenticate w (reports frames ending) = some (result, rest) ∧
    (result = true ↔ AcceptedFirst w frames) ∧
    (frames.tail ≠ [] → rest = reports frames.tail ending)

/-- A nickname that is not in use is accepted exactly when it is valid: the thread finds its own
entry, and the regular expression does not fail on a nickname that it should not match. -/
def Checked (w : Newcomer) (nick : CStr) : Prop :=
  w.inUse nick = false →
    if matchesNicknamePattern nick then w.findsItself = true
    else ¬ (w.regex nick = .failed ∧ w.findsItself = true)

/-- The sequences for which the first frame decides. -/
structure FirstDecides (w : Newcomer) (frames : List CommandFrame) : Prop where
  /-- The decoder accepts the first frame, if it knows the command. -/
  decodable : ∀ f ∈ frames.head?, Recognised f.text → Decodable f.text.bytes
  /-- No frame follows a first one of another known command. -/
  alone : ∀ f ∈ frames.head?, Recognised f.text → (Message.getType f.text.bytes).1 ≠ .nick →
    frames.tail = []
  /-- The checks of a nickname do not go wrong. -/
  checked : ∀ f ∈ frames.head?, ∀ m, C2HMessage.parse f.text = .ok (some m) → m.type = .nick →
    Checked w m.content

/-! ### The steps of the thread -/

/-- **The checks of a nickname** are three steps of the thread, which see the list of clients at
different times. -/
theorem admits_iff_next (w : Newcomer) (nick : CStr) (s : State) {s₁ s₂ : State}
    (hfree₁ : s₁.lockFree = true) (hlist₁ : s₁.clients = some w.nicknames)
    (hfree₂ : s₂.lockFree = true) (hlist₂ : s₂.clients = some w.threads) :
    w.admits nick = true ↔
      ClientThread.next s w.handle ⟨w.me, .validate nick⟩ (.regex (w.regex nick)) =
        some (.none, .lookupNick nick) ∧
      ClientThread.next s₁ w.handle ⟨w.me, .lookupNick nick⟩ .go =
        some (.none, .lookupThread nick) ∧
      ClientThread.next s₂ w.handle ⟨w.me, .lookupThread nick⟩ .go =
        some (.none, .storeNick nick) := by
  have hvalidate : ClientThread.next s w.handle ⟨w.me, .validate nick⟩ (.regex (w.regex nick)) =
      some (.none, if Client.nicknameIsValid (w.regex nick) then .lookupNick nick
        else .build .invalidNick) := by
    unfold ClientThread.next
    exact if_pos (w.agrees nick)
  have hlookup : ClientThread.next s₁ w.handle ⟨w.me, .lookupNick nick⟩ .go =
      some (.none, if w.inUse nick then .build .authFailed else .lookupThread nick) := by
    unfold ClientThread.next
    dsimp only
    rw [State.locked, if_pos hfree₁, hlist₁, Newcomer.inUse]
    dsimp only
    cases w.nicknames.search fun c => c.findByNickname nick <;> rfl
  have hthread : ClientThread.next s₂ w.handle ⟨w.me, .lookupThread nick⟩ .go =
      some (.none, if w.findsItself then .storeNick nick else .build .authFailed) := by
    unfold ClientThread.next
    dsimp only
    rw [State.locked, if_pos hfree₂, hlist₂, Newcomer.findsItself]
    dsimp only
    cases w.threads.search fun c => c.findByThreadID w.me == 0 with
    | none => rfl
    | some i => by_cases hi : w.threads.ids[i]? = some w.handle <;> simp [hi]
  rw [hvalidate, hlookup, hthread, Newcomer.admits]
  cases Client.nicknameIsValid (w.regex nick) <;> cases w.inUse nick <;> cases w.findsItself <;>
    simp

/-- **A client that is not accepted is dropped**: its thread sends what it has to say, and goes on
to `Server_dropClient`. -/
theorem next_refused {s : State} {h : Addr} {me : BitVec 64} {pc pc' : Pc} {a : ClientAction}
    {e : Effect} (hpc : pc = .build .authFailed ∨ ∃ m rest, pc = .write .authFailed m rest)
    (hnext : ClientThread.next s h ⟨me, pc⟩ a = some (e, pc')) :
    e = .fault ∨ pc' = .drop .auth ∨ ∃ m rest, pc' = .write .authFailed m rest := by
  have hstep := ClientThread.step_of_next hnext
  rcases hpc with rfl | ⟨m, rest, rfl⟩
  · cases hstep with
    | fault => exact .inl rfl
    | move hmove => cases hmove
    | read hmove => cases hmove
    | built => exact .inr (.inr ⟨_, _, rfl⟩)
    | pushed hpush => cases hpush
  · cases hstep with
    | fault => exact .inl rfl
    | move hmove => cases hmove
    | read hmove => cases hmove
    | wrote => exact .inr (.inr ⟨_, _, rfl⟩)
    | sent => exact .inr (.inl rfl)
    | failed => exact .inr (.inl rfl)
    | pushed hpush => cases hpush

/-! ### One round -/

/-- A cleared buffer that is ready to be read into. -/
def prepared : MessageBuffer := { MessageBuffer.zeroed with start := some 0 }

/-- The buffer will be cleared by the next `Server_receive`. -/
def Clean (b : MessageBuffer) : Prop := receivePrepare b = .ok (prepared, kMessageBufferSize)

/-- When nothing but zero bytes is left behind a frame, the last byte of the array is zero. -/
theorem clean_of_leftBehind {b : MessageBuffer} {n : ℕ} (hn : 0 < n)
    (h : LeftBehind b (List.replicate n 0)) : Clean b := by
  rcases h with hview | ⟨-, rfl⟩
  · have hlen := b.length_view
    rw [hview, List.length_replicate] at hlen
    have hlast : b.data.getD (kMessageBufferSize - 1) 0 = 0 := by
      have hget : b.data[kMessageBufferSize - 1]? =
          b.view[kMessageBufferSize - 1 - b.start.getD 0]? := by
        rw [MessageBuffer.view, List.getElem?_drop]
        congr 1
        omega
      rw [List.getD_eq_getElem?_getD, hget, hview, List.getElem?_replicate]
      split <;> rfl
    have hcond : ¬ (b.start ≠ some 0 ∧ b.data.getD (kMessageBufferSize - 1) 0 ≠ 0) := by
      rintro ⟨-, hne⟩
      exact hne hlast
    rw [Clean, receivePrepare]
    dsimp only
    rw [if_neg hcond]
    rfl
  · exact receivePrepare_zeroed

/-- `C2HMessage_get` behind the arrival of a frame. -/
theorem get_arrived {b : MessageBuffer} (hclean : Clean b) (f : CommandFrame) :
    ∃ b₁ b₂, Server.receive b [.received f.bytes] = .ok (some (f.bytes.length, b₁, [])) ∧
      Clean b₂ ∧
      C2HMessage.get b₁ = (C2HMessage.parse f.text).map fun message => (message, b₂) := by
  have hlen : f.bytes.length = f.text.bytes.length + 1 := by
    rw [CommandFrame.bytes, List.length_append, List.length_singleton]
  have hpos : 1 ≤ f.bytes.length := by omega
  have hle : f.bytes.length ≤ kBufferSize := by
    rw [hlen]
    exact f.fits
  have hsize : kBufferSize < kMessageBufferSize := by decide
  have hview : (prepared.write 0 f.bytes).view = [] ++ (f.text.bytes ++ 0 ::
      List.replicate (kMessageBufferSize - f.bytes.length) 0) := by
    have hwritten : (prepared.write 0 f.bytes).view = f.bytes ++ List.replicate
        (kMessageBufferSize - 0 - f.bytes.length) 0 :=
      view_receivePrepare_write hclean hpos (by omega)
    rw [hwritten, CommandFrame.bytes]
    simp
  obtain ⟨b₂, hget, hleft⟩ := get_frame hview (by simp) f.slash
  refine ⟨prepared.write 0 f.bytes, b₂, receive_received (.inl rfl) hclean hpos,
    clean_of_leftBehind (by omega) hleft, ?_⟩
  rw [C2HMessage.get, getFrame_of_get hget]
  cases C2HMessage.parse f.text with
  | error e => rfl
  | ok m => cases m <;> rfl

variable {c : Client} {w : Newcomer}

/-- **What the body of the loop does with a frame**: a `/nick` goes to the checks, a frame
that is not recognised ends the loop, and any other one is forgotten. -/
theorem authenticate_frame (h : Addr) (hclean : Clean c.buffer)
    (hsocket : socketIsValid c.socket = true) (f : CommandFrame) :
    ∃ b, Clean b ∧ ClientThread.authenticate c h true false [.received f.bytes] =
      match C2HMessage.parse f.text with
      | .error _ => some (.fault, .authWait)
      | .ok none => some (.setBuffer h b, .build .authFailed)
      | .ok (some m) => some (.setBuffer h b,
          if m.type = .nick then .validate m.content else .authWait) := by
  obtain ⟨b₁, b₂, hreceive, hclean₂, hget⟩ := get_arrived hclean f
  have hpos : (0 : ℤ) < f.bytes.length := by
    rw [CommandFrame.bytes, List.length_append, List.length_singleton]
    omega
  have hagain : ClientThread.authAgain c false = .authWait := by
    rw [ClientThread.authAgain, hsocket]
    rfl
  refine ⟨b₂, hclean₂, ?_⟩
  simp only [ClientThread.authenticate, if_true, hreceive, if_pos hpos, hget, hagain]
  cases C2HMessage.parse f.text with
  | error e => rfl
  | ok o =>
    cases o with
    | none => rfl
    | some m =>
      simp only [Except.map]
      split <;> rfl

/-- The body of the loop when the client has closed the connection. -/
theorem authenticate_closed (h : Addr) (hclean : Clean c.buffer) :
    ∃ b, ClientThread.authenticate c h true false [.received []] =
      some (.setBuffer h b, .build .authFailed) := by
  have hreceive : Server.receive c.buffer [.received []] = .ok (some (0, prepared, [])) := by
    rw [Server.receive, hclean]
    rfl
  refine ⟨prepared, ?_⟩
  simp only [ClientThread.authenticate, if_true, hreceive]
  rfl

/-- **The end of the frames ends the loop.** -/
theorem authenticateLoop_ending (hclean : Clean c.buffer) (ending : Ending) :
    Server.authenticateLoop w c [ending.outcome] = some (false, []) := by
  cases ending with
  | timeout => rfl
  | closed =>
    obtain ⟨b, hbody⟩ := authenticate_closed w.handle hclean
    simp only [Ending.outcome, Server.authenticateLoop, hbody]

/-- **One round of the loop.** -/
theorem authenticateLoop_frame (hclean : Clean c.buffer) (hsocket : socketIsValid c.socket = true)
    (f : CommandFrame) (outcomes : List ClientAction) :
    ∃ b, Clean b ∧ Server.authenticateLoop w c (arrival f :: outcomes) =
      match C2HMessage.parse f.text with
      | .error _ => none
      | .ok none => some (false, outcomes)
      | .ok (some m) =>
        if m.type = .nick then some (w.admits m.content, outcomes)
        else Server.authenticateLoop w { c with buffer := b } outcomes := by
  obtain ⟨b, hb, hbody⟩ := authenticate_frame w.handle hclean hsocket f
  refine ⟨b, hb, ?_⟩
  rw [arrival, Server.authenticateLoop, hbody]
  cases C2HMessage.parse f.text with
  | error e => rfl
  | ok o =>
    cases o with
    | none => rfl
    | some m =>
      dsimp only
      by_cases hnick : m.type = .nick
      · rw [if_pos hnick, if_pos hnick]
      · rw [if_neg hnick, if_neg hnick]

/-- What is left over behind the frames is no longer than the reports. -/
theorem length_rest_le {outcomes rest : List ClientAction} {result : Bool}
    (h : Server.authenticateLoop w c outcomes = some (result, rest)) :
    rest.length < outcomes.length := by
  induction outcomes generalizing c with
  | nil => cases h
  | cons o outcomes ih =>
    rw [List.length_cons]
    cases o with
    | selectFailed => exact Nat.lt_succ_of_lt (ih h)
    | timeout =>
      cases h
      exact Nat.lt_succ_self _
    | ready readable errored reads =>
      rw [Server.authenticateLoop] at h
      split at h
      · cases h
        exact Nat.lt_succ_self _
      · exact Nat.lt_succ_of_lt (ih h)
      · exact Nat.lt_succ_of_lt (ih h)
      · cases h
        exact Nat.lt_succ_self _
      · cases h
        exact Nat.lt_succ_self _
      · cases h
    | go => cases h
    | message m => cases h
    | wrote sent => cases h
    | writeFailed => cases h
    | regex result => cases h

/-! ### The first frame -/

/-- The checks of a nickname. -/
theorem admits_iff_accepted (w : Newcomer) (nick : CStr) :
    (w.admits nick = true ↔ matchesNicknamePattern nick = true ∧ w.inUse nick = false) ↔
      Checked w nick := by
  have hagrees := w.agrees nick
  unfold Checked Newcomer.admits
  cases hregex : w.regex nick <;> cases hmatch : matchesNicknamePattern nick <;>
    cases w.inUse nick <;> cases w.findsItself <;>
    simp [hregex, hmatch, RegexResult.agrees, Client.nicknameIsValid] at hagrees ⊢

variable {f : CommandFrame} {fs : List CommandFrame} {ending : Ending} {m : C2HMessage}

theorem clean_client (w : Newcomer) : Clean w.client.buffer := receivePrepare_zeroed

theorem acceptedFirst_cons (hparse : C2HMessage.parse f.text = .ok (some m)) :
    AcceptedFirst w (f :: fs) ↔
      m.type = .nick ∧ matchesNicknamePattern m.content = true ∧ w.inUse m.content = false := by
  constructor
  · rintro ⟨f', rest, m', hframes, hparse', haccepted⟩
    cases hframes
    cases hparse.symm.trans hparse'
    exact haccepted
  · intro haccepted
    exact ⟨f, fs, m, rfl, hparse, haccepted⟩

/-- An unknown command ends the authentication. -/
theorem decided_of_unknown (hparse : C2HMessage.parse f.text = .ok none) :
    DecidedByFirst w (f :: fs) ending := by
  obtain ⟨b, -, hround⟩ := authenticateLoop_frame (clean_client w) w.valid f (reports fs ending)
  rw [hparse] at hround
  refine ⟨false, _, hround, ?_, fun _ => rfl⟩
  constructor
  · intro h
    cases h
  · rintro ⟨f', rest, m, hframes, hparse', -⟩
    cases hframes
    cases hparse.symm.trans hparse'

/-- So does a `/nick`, with the result of the checks. -/
theorem decided_nick_iff (hparse : C2HMessage.parse f.text = .ok (some m))
    (hnick : m.type = .nick) : DecidedByFirst w (f :: fs) ending ↔ Checked w m.content := by
  obtain ⟨b, -, hround⟩ := authenticateLoop_frame (clean_client w) w.valid f (reports fs ending)
  rw [hparse] at hround
  simp only [if_pos hnick] at hround
  have haccepted : AcceptedFirst w (f :: fs) ↔
      matchesNicknamePattern m.content = true ∧ w.inUse m.content = false := by
    rw [acceptedFirst_cons hparse, and_iff_right hnick]
  rw [← admits_iff_accepted, ← haccepted]
  constructor
  · rintro ⟨result, rest, hrun, hresult, -⟩
    cases hround.symm.trans hrun
    exact hresult
  · intro hresult
    exact ⟨_, _, hround, hresult, fun _ => rfl⟩

/-- Any other message is forgotten: the loop goes on. -/
theorem decided_other_iff (hparse : C2HMessage.parse f.text = .ok (some m))
    (hnick : m.type ≠ .nick) : DecidedByFirst w (f :: fs) ending ↔ fs = [] := by
  obtain ⟨b, hb, hround⟩ := authenticateLoop_frame (clean_client w) w.valid f (reports fs ending)
  rw [hparse] at hround
  simp only [if_neg hnick] at hround
  constructor
  · rintro ⟨result, rest, hrun, -, hrest⟩
    by_contra hne
    -- something behind the first frame has been looked at
    have hlt := length_rest_le (hround.symm.trans hrun)
    rw [hrest hne] at hlt
    exact Nat.lt_irrefl _ hlt
  · rintro rfl
    refine ⟨false, [], hround.trans (authenticateLoop_ending hb ending), ?_, fun h => absurd rfl h⟩
    rw [acceptedFirst_cons hparse]
    constructor
    · intro h
      cases h
    · rintro ⟨h, -⟩
      exact absurd h hnick

theorem not_decided_of_fault {e : Fault} (hparse : C2HMessage.parse f.text = .error e) :
    ¬ DecidedByFirst w (f :: fs) ending := by
  rintro ⟨result, rest, hrun, -⟩
  obtain ⟨b, -, hround⟩ := authenticateLoop_frame (clean_client w) w.valid f (reports fs ending)
  rw [hparse] at hround
  cases hround.symm.trans hrun

/-- The condition, for an unknown command. -/
theorem firstDecides_of_unknown (hparse : C2HMessage.parse f.text = .ok none) :
    FirstDecides w (f :: fs) := by
  have hrec := not_recognised_of_parse hparse
  constructor
  · rintro _ ⟨⟩ h
    exact absurd h hrec
  · rintro _ ⟨⟩ h
    exact absurd h hrec
  · rintro _ ⟨⟩ m hm
    cases hparse.symm.trans hm

/-- The condition, for a `/nick`. -/
theorem firstDecides_nick_iff (hparse : C2HMessage.parse f.text = .ok (some m))
    (hnick : m.type = .nick) : FirstDecides w (f :: fs) ↔ Checked w m.content := by
  constructor
  · intro h
    exact h.checked f rfl m hparse hnick
  · intro hchecked
    constructor
    · rintro _ ⟨⟩ _
      exact (decodable_of_parse hparse).2
    · rintro _ ⟨⟩ _ hne
      exact absurd ((type_of_parse hparse).symm.trans hnick) hne
    · rintro _ ⟨⟩ m' hm' _
      cases hparse.symm.trans hm'
      exact hchecked

/-- The condition, for another message. -/
theorem firstDecides_other_iff (hparse : C2HMessage.parse f.text = .ok (some m))
    (hnick : m.type ≠ .nick) : FirstDecides w (f :: fs) ↔ fs = [] := by
  obtain ⟨hrec, hdec⟩ := decodable_of_parse hparse
  constructor
  · intro h
    exact h.alone f rfl hrec (type_of_parse hparse ▸ hnick)
  · intro hnil
    constructor
    · rintro _ ⟨⟩ _
      exact hdec
    · rintro _ ⟨⟩ _ _
      exact hnil
    · rintro _ ⟨⟩ m' hm' hnick'
      cases hparse.symm.trans hm'
      exact absurd hnick' hnick

/-- A client that is alone, and whose thread has the identifier 11. -/
def alone : Newcomer where
  handle := 0
  me := 11
  socket := 7
  valid := rfl
  regex nick := if matchesNicknamePattern nick then .matched else .noMatch
  agrees nick := by
    cases h : matchesNicknamePattern nick <;> simp [RegexResult.agrees, h]
  nicknames := Linked.new.append { Acceptor.newClient 7 with threadID := 11 }
  threads := Linked.new.append { Acceptor.newClient 7 with threadID := 11 }

/-- The frames "/ok" and "/nick Joe". -/
def okFrame : CommandFrame := ⟨str "/ok", by decide, by decide⟩
def nickFrame : CommandFrame := ⟨str "/nick Joe", by decide, by decide⟩

end C2Hat
