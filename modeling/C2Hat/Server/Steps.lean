import C2Hat.Server.Threads

/-!
# What a step can do

The programs of the threads, turned around: for a step that was taken, the relations
below list where it can have started, what it did and where it led.  Every invariant
is proved from them, so that the programs are taken apart only once.

Moves inside a client's thread that touch nothing but its own receive buffer are
gathered in `ClientThread.Move`.

## Main definitions

* `ClientThread.Step`, `Broadcast.Step`, `Acceptor.Step`.

## Main results

* `ClientThread.step_of_next`, `Broadcast.step_of_next`, `Acceptor.step_of_next` —
  the relations cover the programs.
* `step_taken` — a step of the server is one of these, or a signal.
-/

namespace C2Hat

open Clib

/-! ### Following pointers -/

section Access

variable {P : Type} {s : State} {h : Addr} {pc : P} {r : Effect × P}

theorem withClient_eq_some {k : Client → Option (Effect × P)}
    (hr : s.withClient h pc k = some r) :
    r = (.fault, pc) ∨ ∃ c, s.entry h = some c ∧ k c = some r := by
  unfold State.withClient at hr
  cases hc : s.entry h with
  | none =>
    rw [hc] at hr
    exact Or.inl (Option.some.inj hr).symm
  | some c =>
    rw [hc] at hr
    exact Or.inr ⟨c, rfl, hr⟩

theorem locked_eq_some {k : ClientList → Option (Effect × P)} (hr : s.locked pc k = some r) :
    s.lockFree = true ∧
      (r = (.fault, pc) ∨ ∃ l, s.clients = some l ∧ k l = some r) := by
  unfold State.locked at hr
  split at hr
  · next hlock =>
    refine ⟨hlock, ?_⟩
    cases hc : s.clients with
    | none =>
      rw [hc] at hr
      exact Or.inl (Option.some.inj hr).symm
    | some l =>
      rw [hc] at hr
      exact Or.inr ⟨l, rfl, hr⟩
  · cases hr

end Access

/-! ### Client threads -/

namespace ClientThread

/-- Moves that change nothing that other threads can see. -/
inductive Move : Pc → Pc → Prop
  | mismatch : Move .start (.drop .mismatch)
  | started : Move .start (.build .welcome)
  | authWait : Move .authWait .authWait
  | authTimeout : Move .authWait (.build .authTimeout)
  | authEnded : Move .authWait (.build .authFailed)
  | received (nick : CStr) : Move .authWait (.validate nick)
  | valid (nick : CStr) : Move (.validate nick) (.lookupNick nick)
  | invalid (nick : CStr) : Move (.validate nick) (.build .invalidNick)
  | nickTaken (nick : CStr) : Move (.lookupNick nick) (.build .authFailed)
  | threadUnknown (nick : CStr) : Move (.lookupThread nick) (.build .authFailed)
  | chat : Move .chat .chatWait
  | terminated : Move .chat .announceLeave
  | chatAgain : Move .chatWait .chat
  | chatTimeout : Move .chatWait (.build .chatTimeout)
  | closed : Move .chatWait .announceLeave
  | filled : Move .chatWait .drain
  | drained : Move .drain .chat
  | quit : Move .drain .announceLeave
  | ignored : Move .drain .drain
  | text (content : CStr) : Move .drain (.build (.ack content))
  | dropping (site : Site) (threadID : BitVec 64) : Move (.drop site) (.unlink site threadID)
  | unlisted (site : Site) (threadID : BitVec 64) : Move (.unlink site threadID) (.exited site)

/-- The places behind a message that was pushed. -/
inductive Pushes : Pc → Pc → Prop
  | join : Pushes .announceJoin .chat
  | relay (content : CStr) : Pushes (.relay content) .chat
  | relayLast (content : CStr) : Pushes (.relay content) .announceLeave
  | leave : Pushes .announceLeave (.drop .leave)

/-- The steps of the thread `me` of client `h`: from where, by which choice, to what
effect, and to where. -/
inductive Step (s : State) (h : Addr) (me : BitVec 64) :
    Pc → ClientAction → Effect → Pc → Prop
  | fault {pc : Pc} {a : ClientAction} : Step s h me pc a .fault pc
  | move {pc pc' : Pc} {a : ClientAction} (hmove : Move pc pc') : Step s h me pc a .none pc'
  | read {pc pc' : Pc} {a : ClientAction} {b : MessageBuffer} (hmove : Move pc pc') :
      Step s h me pc a (.setBuffer h b) pc'
  | built {p : Purpose} {m : C2HMessage} (htype : m.type = p.type) :
      Step s h me (.build p) (.message m) .none (.write p m (Server.frame m))
  | wrote {p : Purpose} {m : C2HMessage} {rest : Bytes} {k : ℕ} {c : Client}
      (hc : s.entry h = some c) (hopen : c.ssl ≠ .freed) (hk : k < rest.length) :
      Step s h me (.write p m rest) (.wrote k) (.wrote h .client m (rest.take k) false)
        (.write p m (rest.drop k))
  | sent {p : Purpose} {m : C2HMessage} {rest : Bytes} {c : Client} (hc : s.entry h = some c)
      (hopen : c.ssl ≠ .freed) :
      Step s h me (.write p m rest) (.wrote rest.length) (.wrote h .client m rest true)
        (afterSend true p)
  | failed {p : Purpose} {m : C2HMessage} {rest : Bytes} {a : ClientAction}
      (ha : ∀ k, a ≠ .wrote k) :
      Step s h me (.write p m rest) a .none (afterSend false p)
  | nickFree {nick : CStr} {l : ClientList} (hl : s.clients = some l)
      (hsearch : l.search (fun c => c.findByNickname nick) = none) :
      Step s h me (.lookupNick nick) .go .none (.lookupThread nick)
  | threadKnown {nick : CStr} : Step s h me (.lookupThread nick) .go .none (.storeNick nick)
  | stored {nick : CStr} {c : Client} (hc : s.entry h = some c) :
      Step s h me (.storeNick nick) .go (.setNickname h (storedNickname nick)) (.build .hello)
  | pushed {pc pc' : Pc} {a : ClientAction} {m : C2HMessage} (hpush : Pushes pc pc') :
      Step s h me pc a (.push m) pc'
  | freed {site : Site} {c : Client} (hc : s.entry h = some c) (hid : c.threadID = 0) :
      Step s h me (.drop site) .go (.freeSsl h) (afterDrop site)
  | removed {site : Site} {threadID : BitVec 64} {l : ClientList} {i : ℕ}
      (hl : s.clients = some l) (hlock : s.lockFree = true)
      (hsearch : l.search (fun c => c.findByThreadID threadID == 0) = some i) :
      Step s h me (.unlink site threadID) .go (.remove h i) (.exited site)

theorem type_of_buildMessage {type : C2HMessageType} {fmt : Bytes} {args : List CStr}
    {m : C2HMessage} (h : Server.buildMessage type fmt args = .ok m) : m.type = type := by
  obtain ⟨buffer, -, hm⟩ := bind_eq_ok.mp h
  exact type_of_create hm

theorem move_authAgain (c : Client) (errored : Bool) : Move .authWait (authAgain c errored) := by
  unfold authAgain
  split
  · exact .authEnded
  · exact .authWait

theorem pushes_chatAgain (c : Client) (content : CStr) :
    Pushes (.relay content) (chatAgain c) := by
  unfold chatAgain
  split
  · exact .relay content
  · exact .relayLast content

variable {s : State} {h : Addr} {me : BitVec 64} {a : ClientAction} {e : Effect} {pc' : Pc}

theorem step_of_send {c : Client} (hc : s.entry h = some c) {p : Purpose} {m : C2HMessage}
    {rest : Bytes} (hsend : send c h p m rest a = some (e, pc')) :
    Step s h me (.write p m rest) a e pc' := by
  unfold send at hsend
  split at hsend
  · split at hsend
    · next ha =>
      cases hsend
      exact .failed (by simp [ha])
    · cases hsend
  · split at hsend
    · cases hsend
      exact .fault
    · next hopen =>
      split at hsend
      · split at hsend
        · next hk =>
          cases hsend
          exact .wrote hc hopen hk
        · split at hsend
          · next hk =>
            cases hsend
            rw [hk]
            exact .sent hc hopen
          · cases hsend
      · cases hsend
        exact .failed (by simp)
      · cases hsend

theorem step_of_authenticate {c : Client} {readable errored : Bool} {reads : List ReadResult}
    (hauth : authenticate c h readable errored reads = some (e, pc')) :
    Step s h me .authWait a e pc' := by
  unfold authenticate at hauth
  split at hauth
  · split at hauth
    · cases hauth
      exact .fault
    · cases hauth
    · split at hauth
      · split at hauth
        · cases hauth
          exact .fault
        · cases hauth
          exact .read .authEnded
        · split at hauth
          · cases hauth
            exact .read (.received _)
          · cases hauth
            exact .read (move_authAgain c errored)
      · split at hauth
        · cases hauth
          exact .read .authEnded
        · cases hauth
          exact .read (move_authAgain c errored)
  · cases hauth
    exact .move (move_authAgain c errored)

theorem step_of_listen {c : Client} {readable : Bool} {reads : List ReadResult}
    (hlisten : listen c h readable reads = some (e, pc')) : Step s h me .chatWait a e pc' := by
  unfold listen at hlisten
  split at hlisten
  · split at hlisten
    · cases hlisten
      exact .fault
    · cases hlisten
    · split at hlisten
      · cases hlisten
        exact .read .filled
      · cases hlisten
        exact .read .closed
  · cases hlisten
    unfold chatAgain
    split
    · exact .move .chatAgain
    · exact .move .closed

theorem step_of_takeMessage {c : Client} (htake : takeMessage c h = some (e, pc')) :
    Step s h me .drain a e pc' := by
  unfold takeMessage at htake
  split at htake
  · cases htake
    exact .fault
  · cases htake
    unfold chatAgain
    split
    · exact .read .drained
    · exact .read .quit
  · split at htake
    · cases htake
      exact .read .quit
    · split at htake
      · cases htake
        exact .read (.text _)
      · cases htake
        exact .read .ignored

theorem step_of_announce {type : C2HMessageType} {text : Except Fault C2HMessage} {pc q : Pc}
    (hpush : Pushes pc q) (hannounce : announce type text a q = some (e, pc')) :
    Step s h me pc a e pc' := by
  unfold announce at hannounce
  split at hannounce
  · split at hannounce
    · cases hannounce
      exact .pushed hpush
    · cases hannounce
  · cases hannounce

/-- Whatever formatting yields has the type that was asked for. -/
theorem type_of_formatted {p : Purpose} {nickname : CStr} {m : C2HMessage}
    (hm : formatted p.type m (p.message nickname) = true) : m.type = p.type := by
  cases hmsg : p.message nickname with
  | error e =>
    rw [hmsg] at hm
    simpa [formatted] using hm
  | ok m' =>
    rw [hmsg] at hm
    obtain rfl : m = m' := by simpa [formatted] using hm
    obtain ⟨fmt, args, hbuild⟩ : ∃ fmt args,
        p.message nickname = Server.buildMessage p.type fmt args := by
      cases p <;> simp only [Purpose.message, Purpose.type, Server.hello, Server.sendMessage] <;>
        exact ⟨_, _, rfl⟩
    exact type_of_buildMessage (hbuild ▸ hmsg)

theorem step_of_withClient {pc : Pc} {k : Client → Option (Effect × Pc)}
    (hr : s.withClient h pc k = some (e, pc'))
    (hk : ∀ c, s.entry h = some c → k c = some (e, pc') → Step s h me pc a e pc') :
    Step s h me pc a e pc' := by
  rcases withClient_eq_some hr with heq | ⟨c, hc, heq⟩
  · cases heq
    exact .fault
  · exact hk c hc heq

theorem step_of_locked {pc : Pc} {k : ClientList → Option (Effect × Pc)}
    (hr : s.locked pc k = some (e, pc'))
    (hk : ∀ l, s.clients = some l → s.lockFree = true → k l = some (e, pc') →
      Step s h me pc a e pc') : Step s h me pc a e pc' := by
  obtain ⟨hlock, heq | ⟨l, hl, heq⟩⟩ := locked_eq_some hr
  · cases heq
    exact .fault
  · exact hk l hl hlock heq

/-- **The steps of a client's thread.** -/
theorem step_of_next {t : Thread} (hnext : next s h t a = some (e, pc')) :
    Step s h t.me t.pc a e pc' := by
  unfold next at hnext
  split at hnext
  · next hpc =>
    rw [hpc] at hnext ⊢
    refine step_of_withClient hnext fun c _ hk => ?_
    cases hk
    split
    · exact .move .mismatch
    · exact .move .started
  · next m hpc =>
    rw [hpc] at hnext ⊢
    refine step_of_withClient hnext fun c _ hk => ?_
    split at hk
    · next hm =>
      cases hk
      exact .built (type_of_formatted hm)
    · cases hk
  · next p m _ hpc =>
    rw [hpc]
    split at hnext
    · next hm =>
      cases hnext
      exact .built (type_of_formatted hm)
    · cases hnext
  · next p m rest a hpc =>
    rw [hpc] at hnext ⊢
    exact step_of_withClient hnext fun c hc hk => step_of_send hc hk
  · next hpc =>
    rw [hpc]
    cases hnext
    exact .move .authWait
  · next hpc =>
    rw [hpc]
    cases hnext
    exact .move .authTimeout
  · next hpc =>
    rw [hpc] at hnext ⊢
    exact step_of_withClient hnext fun c _ hk => step_of_authenticate hk
  · next nick result hpc =>
    rw [hpc]
    split at hnext
    · cases hnext
      split
      · exact .move (.valid nick)
      · exact .move (.invalid nick)
    · cases hnext
  · next nick hpc =>
    rw [hpc] at hnext ⊢
    refine step_of_locked hnext fun l hl _ hk => ?_
    split at hk
    · next hsearch =>
      cases hk
      exact .nickFree hl hsearch
    · cases hk
      exact .move (.nickTaken nick)
  · next nick hpc =>
    rw [hpc] at hnext ⊢
    refine step_of_locked hnext fun l hl _ hk => ?_
    split at hk
    · cases hk
      exact .move (.threadUnknown nick)
    · split at hk
      · cases hk
        exact .threadKnown
      · cases hk
        exact .move (.threadUnknown nick)
  · next nick hpc =>
    rw [hpc] at hnext ⊢
    refine step_of_withClient hnext fun c hc hk => ?_
    cases hk
    exact .stored hc
  · next hpc =>
    rw [hpc] at hnext ⊢
    exact step_of_withClient hnext fun c _ hk => step_of_announce .join hk
  · next hpc =>
    rw [hpc]
    cases hnext
    split
    · exact .move .terminated
    · exact .move .chat
  · next hpc =>
    rw [hpc]
    cases hnext
    exact .move .chatAgain
  · next hpc =>
    rw [hpc]
    cases hnext
    exact .move .chatTimeout
  · next hpc =>
    rw [hpc] at hnext ⊢
    exact step_of_withClient hnext fun c _ hk => step_of_listen hk
  · next hpc =>
    rw [hpc] at hnext ⊢
    exact step_of_withClient hnext fun c _ hk => step_of_takeMessage hk
  · next a content hpc =>
    rw [hpc] at hnext ⊢
    exact step_of_withClient hnext fun c _ hk => step_of_announce (pushes_chatAgain c content) hk
  · next hpc =>
    rw [hpc] at hnext ⊢
    exact step_of_withClient hnext fun c _ hk => step_of_announce .leave hk
  · next site hpc =>
    rw [hpc] at hnext ⊢
    refine step_of_withClient hnext fun c hc hk => ?_
    split at hk
    · next hid =>
      split at hk
      · cases hk
        exact .fault
      · cases hk
        exact .freed hc hid
    · cases hk
      exact .move (.dropping site c.threadID)
  · next site threadID hpc =>
    rw [hpc] at hnext ⊢
    refine step_of_locked hnext fun l hl hlock hk => ?_
    split at hk
    · cases hk
      exact .move (.unlisted site threadID)
    · next i hsearch =>
      refine step_of_withClient hk fun c hc hk => ?_
      split at hk
      · cases hk
        exact .fault
      · cases hk
        exact .removed hl hlock hsearch
  · cases hnext

end ClientThread

/-! ### The broadcast thread -/

namespace Broadcast

/-- The steps of the broadcast thread. -/
inductive Step (s : State) : BroadcastPc → BroadcastAction → Effect → BroadcastPc → Prop
  | fault {pc : BroadcastPc} {a : BroadcastAction} : Step s pc a .fault pc
  | nothing : Step s .pop .go .none .sleep
  | popped {m : C2HMessage} {n : ℕ} {rest : Option (Fifo C2HMessage)}
      (hpop : CQueue.tryPop s.messages = .ok (some (m, n), rest)) :
      Step s .pop .go (.pop m rest) (.rewind ⟨popCount s.trace, m⟩)
  | rewound {item : Item} {l : ClientList} (hl : s.clients = some l) :
      Step s (.rewind item) .go .rewind (.check item)
  | stopped {item : Item} (hterm : s.terminate = true) : Step s (.check item) .go .none (.free item)
  | entered {item : Item} : Step s (.check item) .go .none (.next item)
  | ended {item : Item} {l : ClientList} (hl : s.clients = some l)
      (hcursor : l.list.current = none) : Step s (.next item) .go (.advance none) (.free item)
  | fetched {item : Item} {l : ClientList} {l₁ l₂ : List Addr} {h : Addr}
      (hl : s.clients = some l) (hids : l.ids = l₁ ++ h :: l₂)
      (hcursor : l.list.current = some h) :
      Step s (.next item) .go (.advance l₂.head?) (.testNick item h)
  | skipped {item : Item} {h : Addr} {c : Client} (hc : s.entry h = some c)
      (hnick : c.nickname.bytes.length = 0) : Step s (.testNick item h) .go .none (.check item)
  | accepted {item : Item} {h : Addr} {c : Client} (hc : s.entry h = some c)
      (hnick : c.nickname.bytes.length ≠ 0) :
      Step s (.testNick item h) .go .none (.testSocket item h)
  | invalid {item : Item} {h : Addr} {c : Client} (hc : s.entry h = some c)
      (hsocket : socketIsValid c.socket = false) :
      Step s (.testSocket item h) .go .none (.check item)
  | began {item : Item} {h : Addr} {c : Client} (hc : s.entry h = some c) :
      Step s (.testSocket item h) .go .none (.write item h (Server.frame item.message))
  | wrote {item : Item} {h : Addr} {rest : Bytes} {k : ℕ} {c : Client} (hc : s.entry h = some c)
      (hopen : c.ssl ≠ .freed) (hk : k < rest.length) :
      Step s (.write item h rest) (.wrote k)
        (.wrote h (.broadcast item.seq) item.message (rest.take k) false)
        (.write item h (rest.drop k))
  | sent {item : Item} {h : Addr} {rest : Bytes} {c : Client} (hc : s.entry h = some c)
      (hopen : c.ssl ≠ .freed) :
      Step s (.write item h rest) (.wrote rest.length)
        (.wrote h (.broadcast item.seq) item.message rest true) (.check item)
  | failed {item : Item} {h : Addr} {rest : Bytes} {a : BroadcastAction}
      (ha : ∀ k, a ≠ .wrote k) : Step s (.write item h rest) a .none (.drop item h)
  | freed {item : Item} {h : Addr} {c : Client} (hc : s.entry h = some c)
      (hid : c.threadID = 0) : Step s (.drop item h) .go (.freeSsl h) (.check item)
  | dropping {item : Item} {h : Addr} {threadID : BitVec 64} :
      Step s (.drop item h) .go .none (.unlink h threadID)
  | unlisted {h : Addr} {threadID : BitVec 64} : Step s (.unlink h threadID) .go .none .exited
  | removed {h : Addr} {threadID : BitVec 64} {l : ClientList} {i : ℕ} (hl : s.clients = some l)
      (hlock : s.lockFree = true)
      (hsearch : l.search (fun c => c.findByThreadID threadID == 0) = some i) :
      Step s (.unlink h threadID) .go (.remove h i) .exited
  | freeItem {item : Item} : Step s (.free item) .go .none .sleep
  | again : Step s .sleep .go .none .pop
  | terminated (hterm : s.terminate = true) : Step s .sleep .go .none .exited

variable {s : State} {a : BroadcastAction} {e : Effect} {pc' : BroadcastPc}

theorem step_of_withClient {h : Addr} {pc : BroadcastPc} {k : Client → Option (Effect × BroadcastPc)}
    (hr : s.withClient h pc k = some (e, pc'))
    (hk : ∀ c, s.entry h = some c → k c = some (e, pc') → Step s pc a e pc') :
    Step s pc a e pc' := by
  rcases withClient_eq_some hr with heq | ⟨c, hc, heq⟩
  · cases heq
    exact .fault
  · exact hk c hc heq

theorem step_of_locked {pc : BroadcastPc} {k : ClientList → Option (Effect × BroadcastPc)}
    (hr : s.locked pc k = some (e, pc'))
    (hk : ∀ l, s.clients = some l → s.lockFree = true → k l = some (e, pc') → Step s pc a e pc') :
    Step s pc a e pc' := by
  obtain ⟨hlock, heq | ⟨l, hl, heq⟩⟩ := locked_eq_some hr
  · cases heq
    exact .fault
  · exact hk l hl hlock heq

theorem step_of_send {h : Addr} {c : Client} (hc : s.entry h = some c) {item : Item}
    {rest : Bytes} (hsend : send c h item rest a = some (e, pc')) :
    Step s (.write item h rest) a e pc' := by
  unfold send at hsend
  split at hsend
  · split at hsend
    · next ha =>
      cases hsend
      exact .failed (by simp [ha])
    · cases hsend
  · split at hsend
    · cases hsend
      exact .fault
    · next hopen =>
      split at hsend
      · split at hsend
        · next hk =>
          cases hsend
          exact .wrote hc hopen hk
        · split at hsend
          · next hk =>
            cases hsend
            rw [hk]
            exact .sent hc hopen
          · cases hsend
      · cases hsend
        exact .failed (by simp)
      · cases hsend

/-- **The steps of the broadcast thread.** -/
theorem step_of_next (hnext : next s a = some (e, pc')) : Step s s.broadcast a e pc' := by
  unfold next at hnext
  split at hnext
  · next hpc =>
    rw [hpc]
    split at hnext
    · cases hnext
      exact .fault
    · cases hnext
      exact .nothing
    · next hpop =>
      cases hnext
      exact .popped hpop
  · next item hpc =>
    rw [hpc]
    split at hnext
    · cases hnext
      exact .fault
    · next hl =>
      cases hnext
      exact .rewound hl
  · next item hpc =>
    rw [hpc]
    cases hnext
    split
    · next hterm => exact .stopped hterm
    · exact .entered
  · next item hpc =>
    rw [hpc] at hnext ⊢
    refine step_of_locked hnext fun l hl _ hk => ?_
    cases hn : l.next with
    | error f =>
      rw [hn] at hk
      cases hk
      exact .fault
    | ok r =>
      rw [hn] at hk
      rcases l.next_cases hn with ⟨hcursor, rfl⟩ | ⟨l₁, x, l₂, hids, hcursor, rfl⟩
      · cases hk
        exact .ended hl hcursor
      · cases hk
        exact .fetched hl hids hcursor
  · next item h hpc =>
    rw [hpc] at hnext ⊢
    refine step_of_withClient hnext fun c hc hk => ?_
    cases hk
    split
    · next hnick => exact .skipped hc hnick
    · next hnick => exact .accepted hc hnick
  · next item h hpc =>
    rw [hpc] at hnext ⊢
    refine step_of_withClient hnext fun c hc hk => ?_
    cases hk
    split
    · exact .began hc
    · next hsocket => exact .invalid hc (by simpa using hsocket)
  · next item h rest a hpc =>
    rw [hpc] at hnext ⊢
    exact step_of_withClient hnext fun c hc hk => step_of_send hc hk
  · next item h hpc =>
    rw [hpc] at hnext ⊢
    refine step_of_withClient hnext fun c hc hk => ?_
    split at hk
    · next hid =>
      split at hk
      · cases hk
        exact .fault
      · cases hk
        exact .freed hc hid
    · cases hk
      exact .dropping
  · next h threadID hpc =>
    rw [hpc] at hnext ⊢
    refine step_of_locked hnext fun l hl hlock hk => ?_
    split at hk
    · cases hk
      exact .unlisted
    · next i hsearch =>
      refine step_of_withClient hk fun c hc hk => ?_
      split at hk
      · cases hk
        exact .fault
      · cases hk
        exact .removed hl hlock hsearch
  · next hpc =>
    rw [hpc]
    cases hnext
    exact .freeItem
  · next hpc =>
    rw [hpc]
    cases hnext
    split
    · next hterm => exact .terminated hterm
    · exact .again
  · cases hnext

end Broadcast

/-! ### The acceptor -/

namespace Acceptor

/-- Moves that change nothing that other threads can see. -/
inductive Move (s : State) : AcceptorPc → AcceptorPc → Prop
  | terminated (hterm : s.terminate = true) : Move s .loop .joinClients
  | loop : Move s .loop .wait
  | again : Move s .wait .loop
  | connection {socket : ℤ} (hsocket : socketIsValid socket = true) :
      Move s .wait (.room socket)
  | admitted {socket : ℤ} {l : ClientList} (hl : s.clients = some l)
      (hroom : l.list.length < s.maxConnections) : Move s (.room socket) (.append socket)
  | refused {socket : ℤ} {rest : Bytes} : Move s (.room socket) (.refuse rest)
  | refusing {rest rest' : Bytes} : Move s (.refuse rest) (.refuse rest')
  | refusalSent {rest : Bytes} : Move s (.refuse rest) .loop
  | notCreated {h : Addr} : Move s (.spawn h) (.store h 0)
  | joinedBroadcast (hexited : s.broadcast = .exited) : Move s .joinBroadcast .freeQueue

/-- The steps of the acceptor. -/
inductive Step (s : State) : AcceptorPc → Effect → AcceptorPc → Prop
  | fault {pc : AcceptorPc} : Step s pc .fault pc
  | move {pc pc' : AcceptorPc} (hmove : Move s pc pc') : Step s pc .none pc'
  | newList : Step s .newList .newList .newQueue
  | newQueue : Step s .newQueue .newQueue .loop
  | appended {socket : ℤ} {l : ClientList} (hl : s.clients = some l) :
      Step s (.append socket) (.append (newClient socket)) (.spawn l.list.fresh)
  | spawned {h : Addr} {t : BitVec 64} : Step s (.spawn h) (.spawn h t) (.store h t)
  | stored {h : Addr} {t : BitVec 64} : Step s (.store h t) (.setThreadID h t) .loop
  | joined {l : ClientList} {l₁ l₂ : List Addr} {h : Addr} (hl : s.clients = some l)
      (hids : l.ids = l₁ ++ h :: l₂) (hcursor : l.list.current = some h) :
      Step s .joinClients (.advance l₂.head?) .joinClients
  | joinedAll {l : ClientList} (hl : s.clients = some l) (hcursor : l.list.current = none) :
      Step s .joinClients (.advance none) .freeList
  | listFreed {l : ClientList} (hl : s.clients = some l) :
      Step s .freeList .freeList .joinBroadcast
  | queueFreed {f : Fifo C2HMessage} (hf : s.messages = some f) :
      Step s .freeQueue .freeQueue .done

variable {s : State} {a : AcceptorAction} {e : Effect} {pc' : AcceptorPc}

/-- **The steps of the acceptor.** -/
theorem step_of_next (hnext : next s a = some (e, pc')) : Step s s.acceptor e pc' := by
  unfold next at hnext
  split at hnext
  · next hpc =>
    rw [hpc]
    cases hnext
    exact .newList
  · next hpc =>
    rw [hpc]
    cases hnext
    exact .newQueue
  · next hpc =>
    rw [hpc]
    cases hnext
    split
    · next hterm => exact .move (.terminated hterm)
    · exact .move .loop
  · next hpc =>
    rw [hpc]
    cases hnext
    exact .move .again
  · next hpc =>
    rw [hpc]
    split at hnext
    · next hsocket =>
      cases hnext
      exact .move (.connection hsocket)
    · cases hnext
  · next hpc =>
    rw [hpc]
    split at hnext
    · cases hnext
      exact .fault
    · next hl =>
      split at hnext
      · next hroom =>
        cases hnext
        exact .move (.admitted hl hroom)
      · cases hnext
        exact .move .refused
  · next hpc =>
    rw [hpc]
    split at hnext
    · cases hnext
      exact .fault
    · next hl =>
      cases hnext
      exact .appended hl
  · next hpc =>
    rw [hpc]
    cases hnext
    exact .move .notCreated
  · next hpc =>
    rw [hpc]
    split at hnext
    · cases hnext
      exact .fault
    · split at hnext
      · cases hnext
        exact .spawned
      · cases hnext
  · next hpc =>
    rw [hpc]
    split at hnext
    · cases hnext
      exact .fault
    · cases hnext
      exact .stored
  · next hpc =>
    rw [hpc]
    split at hnext
    · cases hnext
      exact .move .refusing
    · split at hnext
      · cases hnext
        exact .move .refusalSent
      · cases hnext
  · next hpc =>
    rw [hpc]
    cases hnext
    exact .move .refusalSent
  · next hpc =>
    rw [hpc]
    split at hnext
    · cases hnext
      exact .fault
    · next l hl =>
      cases hn : l.next with
      | error f =>
        rw [hn] at hnext
        cases hnext
        exact .fault
      | ok r =>
        rw [hn] at hnext
        rcases l.next_cases hn with ⟨hcursor, rfl⟩ | ⟨l₁, x, l₂, hids, hcursor, rfl⟩
        · cases hnext
          exact .joinedAll hl hcursor
        · cases hnext
          exact .joined hl hids hcursor
  · next hpc =>
    rw [hpc]
    split at hnext
    · cases hnext
      exact .fault
    · next hl =>
      cases hnext
      exact .listFreed hl
  · next hpc =>
    rw [hpc]
    split at hnext
    · next hexited =>
      cases hnext
      exact .move (.joinedBroadcast hexited)
    · cases hnext
  · next hpc =>
    rw [hpc]
    split at hnext
    · cases hnext
      exact .fault
    · next hf =>
      cases hnext
      exact .queueFreed hf
  · cases hnext

end Acceptor

/-! ### Effects of the acceptor alone -/

/-- The effects that only the acceptor has. -/
def Effect.acceptorOnly : Effect → Bool
  | .newList | .freeList | .newQueue | .freeQueue | .append _ | .spawn _ _
  | .setThreadID _ _ => true
  | _ => false

theorem Broadcast.Step.not_acceptorOnly {s : State} {pc pc' : BroadcastPc} {a : BroadcastAction}
    {e : Effect} (hstep : Broadcast.Step s pc a e pc') : e.acceptorOnly = false := by
  cases hstep <;> rfl

theorem ClientThread.Step.not_acceptorOnly {s : State} {h : Addr} {me : BitVec 64} {pc pc' : Pc}
    {a : ClientAction} {e : Effect} (hstep : ClientThread.Step s h me pc a e pc') :
    e.acceptorOnly = false := by
  cases hstep <;> rfl

/-! ### The server -/

/-- The steps of the server. -/
inductive StepTaken (s : State) : Action → State → Prop
  | stop : StepTaken s .stop { s with terminate := true }
  | acceptor {b : AcceptorAction} {e : Effect} {pc pc' : AcceptorPc} (hpc : s.acceptor = pc)
      (hstep : Acceptor.Step s pc e pc') :
      StepTaken s (.acceptor b) { s.apply e with acceptor := pc' }
  | broadcast {b : BroadcastAction} {e : Effect} {pc pc' : BroadcastPc} (hpc : s.broadcast = pc)
      (hstep : Broadcast.Step s pc b e pc') :
      StepTaken s (.broadcast b) { s.apply e with broadcast := pc' }
  | client {h : Addr} {me : BitVec 64} {b : ClientAction} {e : Effect} {pc pc' : Pc}
      (ht : s.threads h = some ⟨me, pc⟩) (hstep : ClientThread.Step s h me pc b e pc') :
      StepTaken s (.client h b)
        { s.apply e with threads := Function.update s.threads h (some ⟨me, pc'⟩) }

/-- **A step of the server** is a signal or a step of one of its threads. -/
theorem step_taken {s s' : State} {a : Action} (hstep : step s a = some s') :
    StepTaken s a s' := by
  unfold step at hstep
  split at hstep
  · cases hstep
  · cases a with
    | stop =>
      cases hstep
      exact .stop
    | acceptor b =>
      obtain ⟨⟨e, pc⟩, hnext, rfl⟩ := Option.map_eq_some_iff.mp hstep
      exact .acceptor rfl (Acceptor.step_of_next hnext)
    | broadcast b =>
      obtain ⟨⟨e, pc⟩, hnext, rfl⟩ := Option.map_eq_some_iff.mp hstep
      exact .broadcast rfl (Broadcast.step_of_next hnext)
    | client h b =>
      dsimp only at hstep
      cases ht : s.threads h with
      | none =>
        rw [ht] at hstep
        cases hstep
      | some t =>
        rw [ht] at hstep
        obtain ⟨⟨e, pc⟩, hnext, rfl⟩ := Option.map_eq_some_iff.mp hstep
        exact .client ht (ClientThread.step_of_next hnext)

/-- A step of the acceptor, with the program it runs. -/
theorem step_acceptor {s s' : State} {b : AcceptorAction} (hstep : step s (.acceptor b) = some s') :
    ∃ e pc, Acceptor.next s b = some (e, pc) ∧ s' = { s.apply e with acceptor := pc } := by
  unfold step at hstep
  split at hstep
  · cases hstep
  · obtain ⟨⟨e, pc⟩, hnext, rfl⟩ := Option.map_eq_some_iff.mp hstep
    exact ⟨e, pc, hnext, rfl⟩

/-- A step of a client's thread, with the program it runs. -/
theorem step_client {s s' : State} {h : Addr} {b : ClientAction} (hstep : step s (.client h b) = some s') :
    ∃ t e pc, s.threads h = some t ∧ ClientThread.next s h t b = some (e, pc) ∧
      s' = { s.apply e with threads := Function.update s.threads h (some { t with pc := pc }) } := by
  unfold step at hstep
  split at hstep
  · cases hstep
  · dsimp only at hstep
    cases ht : s.threads h with
    | none =>
      rw [ht] at hstep
      cases hstep
    | some t =>
      rw [ht] at hstep
      obtain ⟨⟨e, pc⟩, hnext, rfl⟩ := Option.map_eq_some_iff.mp hstep
      exact ⟨t, e, pc, rfl, hnext, rfl⟩

end C2Hat
